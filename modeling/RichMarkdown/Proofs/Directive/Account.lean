import RichMarkdown.Directive.Piece

/-!
# The account of a split text

`Piece.Accounts pieces lines`: the lines, one after the other, are where the pieces come from. Every
line is in one of them, or is the start or the end of one, or is blank and stands outside of all
directives. The two halves of the split keep what they have read so far, the plain lines or the open
directive, so each account is of these lines and of those still to come (`accounts_outside`,
`accounts_within`).

* `accounts_split`: the pieces of a text account for all its lines.
-/

set_option autoImplicit false

namespace RichMarkdown.Piece

/-- Pieces account for lines. A directive that is not closed takes all that follows. -/
inductive Accounts : List Piece → List (List Char) → Prop
  | done : Accounts [] []
  /-- Blank text between pieces is dropped. -/
  | blank {ls rest : List (List Char)} {ps : List Piece} : Text.allBlank ls.flatten = true →
      Accounts ps rest → Accounts ps (ls ++ rest)
  | markdown {ls rest : List (List Char)} {ps : List Piece} : Accounts ps rest →
      Accounts (.markdown (String.ofList ls.flatten) :: ps) (ls ++ rest)
  | leaf {head : Head} {line : List Char} {rest : List (List Char)} {ps : List Piece} :
      DirectiveLine.read? line = some (.leaf head) → Accounts ps rest →
      Accounts (.leaf head :: ps) (line :: rest)
  | container {head : Head} {m n : Nat} {start stop : List Char} {body rest : List (List Char)}
      {ps : List Piece} : DirectiveLine.read? start = some (.containerStart m head) →
      DirectiveLine.read? stop = some (.containerEnd n) → m ≤ n → Accounts ps rest →
      Accounts (.container head (String.ofList body.flatten) :: ps) (start :: body ++ stop :: rest)
  | unclosed {head : Head} {m : Nat} {start : List Char} {body : List (List Char)} :
      DirectiveLine.read? start = some (.containerStart m head) →
      Accounts [.container head (String.ofList body.flatten)] (start :: body)

/-- A line that is directive syntax reads as such: fenced code is never in the way. -/
theorem read?_of_directive? {fence : Option Fence} {line : List Char} {d : DirectiveLine}
    (h : directive? fence line = some d) : DirectiveLine.read? line = some d := by
  unfold directive? at h
  split at h
  · cases h
  · exact h

theorem body_addLine (c : OpenContainer) (line : List Char) (found : Option DirectiveLine) :
    (c.addLine line found).body = line :: c.body := rfl

/-- Plain lines are a piece of their own or, if they are blank, none. -/
theorem Accounts.plain (text : List (List Char)) {rest : List (List Char)} {ps : List Piece}
    (h : Accounts ps rest) : Accounts (Piece.plain text ++ ps) (text.reverse ++ rest) := by
  dsimp only [Piece.plain]
  split
  · exact .blank ‹_› h
  · exact .markdown h

mutual

theorem accounts_outside (fence : Option Fence) (text : List (List Char)) :
    ∀ lines : List (List Char), Accounts (outside fence text lines) (text.reverse ++ lines)
  | [] => by simpa [outside] using Accounts.plain text .done
  | line :: lines => by
    simp only [outside]
    split
    case h_1 colons head hd =>
      exact .plain text (accounts_within _ { head, colons } line (read?_of_directive? hd) lines)
    case h_2 head hd =>
      exact .plain text (.leaf (read?_of_directive? hd) (accounts_outside _ [] lines))
    case h_3 =>
      have h := accounts_outside (Fence.after fence line) (line :: text) lines
      rwa [List.reverse_cons, List.append_assoc, List.singleton_append] at h

theorem accounts_within (fence : Option Fence) (c : OpenContainer) (start : List Char)
    (hs : DirectiveLine.read? start = some (.containerStart c.colons c.head)) :
    ∀ lines : List (List Char),
      Accounts (within fence c lines) (start :: c.body.reverse ++ lines)
  | [] => by simpa [within, OpenContainer.piece] using Accounts.unclosed hs
  | line :: lines => by
    -- a line that does not close the directive is one more line of its body
    have hadd (found : Option DirectiveLine) :
        Accounts (within (Fence.after fence line) (c.addLine line found) lines)
          (start :: c.body.reverse ++ line :: lines) := by
      have h := accounts_within (Fence.after fence line) (c.addLine line found) start hs lines
      rwa [body_addLine, List.reverse_cons, ← List.cons_append, List.append_assoc,
        List.singleton_append] at h
    simp only [within]
    split
    case h_1 n hd =>
      split
      case isTrue hc =>
        have hle : c.colons ≤ n := by
          simp only [OpenContainer.isClosedBy, Bool.and_eq_true, decide_eq_true_eq] at hc
          exact hc.2
        exact .container hs (read?_of_directive? hd) hle (accounts_outside _ [] lines)
      case isFalse => exact hadd _
    case h_2 => exact hadd _

end

/-- **The pieces of a text account for all its lines**, and its lines make up the text. -/
theorem accounts_split (text : String) :
    Accounts (split text) (Text.lines text.toList) ∧
      (Text.lines text.toList).flatten = text.toList :=
  ⟨accounts_outside none [] _, Text.flatten_lines _⟩

end RichMarkdown.Piece
