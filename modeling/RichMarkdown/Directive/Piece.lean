import RichMarkdown.Directive.Line
import RichMarkdown.Markdown.Fence
import RichMarkdown.Text.Lines

/-!
# Splitting Markdown at its directives

`Piece.split` cuts a text into plain Markdown and block directives. The body of a directive stays
unread: it runs to the line that closes the directive, past the directives inside it, or to the end
of the text. Lines of fenced code are never directive syntax. `length_body_lt` says that a body is
shorter than the text, so splitting bodies again comes to an end.
-/

set_option autoImplicit false

namespace RichMarkdown

inductive Piece where
  | markdown (text : String)
  | leaf (head : Head)
  | container (head : Head) (body : String)
  deriving DecidableEq, Repr

/-- A directive whose end has not been found yet. -/
structure OpenContainer where
  head : Head
  colons : Nat
  /-- The lines of the body, latest first. -/
  body : List (List Char) := []
  /-- The colons of the directives that are open inside the body, innermost first. -/
  nested : List Nat := []

namespace OpenContainer

/-- Whether a line of so many colons ends the directive itself. -/
def isClosedBy (c : OpenContainer) (colons : Nat) : Bool :=
  c.nested.isEmpty && c.colons ≤ colons

/-- The directive after one more line of its body. -/
def addLine (c : OpenContainer) (line : List Char) (found : Option DirectiveLine) :
    OpenContainer :=
  let nested :=
    match found with
    | some (.containerStart colons _) => colons :: c.nested
    | some (.containerEnd colons) =>
      match c.nested with
      | [] => []
      | inner :: outer => if inner ≤ colons then outer else inner :: outer
    | _ => c.nested
  { c with body := line :: c.body, nested }

/-- The directive with the body it has. -/
def piece (c : OpenContainer) : Piece :=
  .container c.head (String.ofList c.body.reverse.flatten)

end OpenContainer

namespace Piece

/-- What a line is as directive syntax; in fenced code it is none. -/
def directive? (fence : Option Fence) (line : List Char) : Option DirectiveLine :=
  if Fence.covers fence line then none else DirectiveLine.read? line

/-- The piece of plain Markdown with these lines, latest first, unless it is blank. -/
def plain (text : List (List Char)) : List Piece :=
  let cs := text.reverse.flatten
  if Text.allBlank cs then [] else [.markdown (String.ofList cs)]

mutual

/-- The pieces of lines outside of directives, after the plain lines `text`, latest first. -/
def outside (fence : Option Fence) (text : List (List Char)) : List (List Char) → List Piece
  | [] => plain text
  | line :: lines =>
    let next := Fence.after fence line
    match directive? fence line with
    | some (.containerStart colons head) =>
      plain text ++ within next { head, colons } lines
    | some (.leaf head) => plain text ++ .leaf head :: outside next [] lines
    | _ => outside next (line :: text) lines

/-- The pieces of lines in an open directive. -/
def within (fence : Option Fence) (c : OpenContainer) : List (List Char) → List Piece
  | [] => [c.piece]
  | line :: lines =>
    let next := Fence.after fence line
    let found := directive? fence line
    match found with
    | some (.containerEnd colons) =>
      if c.isClosedBy colons then c.piece :: outside next [] lines
      else within next (c.addLine line found) lines
    | _ => within next (c.addLine line found) lines

end

def split (text : String) : List Piece := outside none [] (Text.lines text.toList)

/-! ## Bodies are shorter -/

theorem read?_nil : DirectiveLine.read? [] = none := by decide

theorem directive?_ne_nil {fence : Option Fence} {line : List Char} {d : DirectiveLine}
    (h : directive? fence line = some d) : line ≠ [] := by
  rintro rfl
  simp [directive?, read?_nil] at h

theorem container_notMem_plain {text : List (List Char)} {head : Head} {body : String} :
    Piece.container head body ∉ plain text := by
  unfold plain
  dsimp only
  split <;> simp

theorem length_addLine (c : OpenContainer) (line : List Char) (found : Option DirectiveLine) :
    (c.addLine line found).body.reverse.flatten.length =
      c.body.reverse.flatten.length + line.length := by
  simp [OpenContainer.addLine]

mutual

theorem length_outside (fence : Option Fence) (text lines : List (List Char)) (head : Head)
    (body : String) (h : .container head body ∈ outside fence text lines) :
    body.toList.length < lines.flatten.length := by
  match lines with
  | [] => exact absurd h (by simpa [outside] using container_notMem_plain)
  | line :: lines =>
    rw [List.flatten_cons, List.length_append]
    simp only [outside] at h
    split at h
    · rename_i hd
      rcases List.mem_append.mp h with h | h
      · exact absurd h container_notMem_plain
      · have := length_within _ _ _ _ _ h
        have hl := List.length_pos_iff.mpr (directive?_ne_nil hd)
        simp only [List.reverse_nil, List.flatten_nil, List.length_nil] at this
        omega
    · rcases List.mem_append.mp h with h | h
      · exact absurd h container_notMem_plain
      · rcases List.mem_cons.mp h with h | h
        · simp at h
        · exact Nat.lt_add_left _ (length_outside _ _ _ _ _ h)
    · exact Nat.lt_add_left _ (length_outside _ _ _ _ _ h)

theorem length_within (fence : Option Fence) (c : OpenContainer) (lines : List (List Char))
    (head : Head) (body : String) (h : .container head body ∈ within fence c lines) :
    body.toList.length ≤ c.body.reverse.flatten.length + lines.flatten.length := by
  match lines with
  | [] =>
    simp only [within, OpenContainer.piece, List.mem_singleton, Piece.container.injEq] at h
    rw [h.2, String.toList_ofList]
    exact Nat.le_add_right _ _
  | line :: lines =>
    rw [List.flatten_cons, List.length_append]
    simp only [within] at h
    split at h
    · split at h
      · rcases List.mem_cons.mp h with h | h
        · simp only [OpenContainer.piece, Piece.container.injEq] at h
          rw [h.2, String.toList_ofList]
          exact Nat.le_add_right _ _
        · have := length_outside _ _ _ _ _ h
          omega
      · have := length_within _ _ _ _ _ h
        rw [length_addLine] at this
        omega
    · have := length_within _ _ _ _ _ h
      rw [length_addLine] at this
      omega

end

theorem length_body_lt {text : String} {head : Head} {body : String}
    (h : .container head body ∈ split text) : body.toList.length < text.toList.length := by
  have := length_outside _ _ _ _ _ h
  rwa [Text.flatten_lines] at this

end Piece

end RichMarkdown
