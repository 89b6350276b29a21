import RichMarkdown.Directive.Piece
import RichMarkdown.Proofs.Text.Lines

/-!
# Plain Markdown between directives

The pieces of a text are plain Markdown and directives in turn: two plain pieces never follow each
other, and a plain piece before a directive ends with its last line (`Piece.Apart`).

* `apart_split`: the pieces of every text are so.
-/

set_option autoImplicit false

namespace RichMarkdown.Piece

def isPlain : Piece → Bool
  | .markdown _ => true
  | _ => false

/-- Plain pieces end with a line, and a directive follows them unless they come last. -/
inductive Apart : List Piece → Prop
  | nil : Apart []
  | last (text : String) : Apart [.markdown text]
  | markdown {text : String} {p : Piece} {ps : List Piece} :
      (∀ c ∈ text.toList.getLast?, c = '\n') → p.isPlain = false → Apart (p :: ps) →
      Apart (.markdown text :: p :: ps)
  | directive {p : Piece} {ps : List Piece} : p.isPlain = false → Apart ps → Apart (p :: ps)

/-- Lines before another line are closed. -/
theorem closed_of_areLines {text : List (List Char)} {line : List Char} {lines : List (List Char)}
    (h : Text.AreLines (text ++ line :: lines)) : ∀ c ∈ text.flatten.getLast?, c = '\n' := by
  induction text with
  | nil => nofun
  | cons l text ih =>
    intro c hc
    rw [List.flatten_cons, List.getLast?_append] at hc
    have hrest := ih h.tail
    cases hlast : text.flatten.getLast? with
    | some d =>
      rw [hlast, Option.some_or, Option.mem_some_iff] at hc
      exact hc ▸ hrest d hlast
    | none =>
      rw [hlast, Option.none_or] at hc
      rw [List.cons_append] at h
      generalize hall : text ++ line :: lines = all at h
      cases h with
      | last => simp at hall
      | cons => simpa using hc.symm

theorem apart_plain {text : List (List Char)} {p : Piece} {ps : List Piece}
    (ht : ∀ c ∈ text.reverse.flatten.getLast?, c = '\n') (hp : p.isPlain = false)
    (h : Apart (p :: ps)) : Apart (plain text ++ p :: ps) := by
  dsimp only [plain]
  split
  · exact h
  · exact .markdown (by rwa [String.toList_ofList]) hp h

mutual

theorem apart_outside (fence : Option Fence) (text : List (List Char)) :
    ∀ lines : List (List Char), Text.AreLines (text.reverse ++ lines) →
      Apart (outside fence text lines)
  | [], _ => by
    rw [outside]
    dsimp only [plain]
    split
    · exact .nil
    · exact .last _
  | line :: lines, h => by
    have hrest : Text.AreLines lines := h.right.tail
    simp only [outside]
    split
    · rename_i colons head _
      obtain ⟨p, ps, hwithin, hp, hps⟩ :=
        apart_within (Fence.after fence line) { head, colons } lines hrest
      rw [hwithin]
      exact apart_plain (closed_of_areLines h) hp hps
    · refine apart_plain (closed_of_areLines h) rfl (.directive rfl ?_)
      exact apart_outside (Fence.after fence line) [] lines hrest
    · refine apart_outside (Fence.after fence line) (line :: text) lines ?_
      rwa [List.reverse_cons, List.append_assoc]

/-- A directive that is open comes first. -/
theorem apart_within (fence : Option Fence) (c : OpenContainer) : ∀ lines : List (List Char),
    Text.AreLines lines →
      ∃ p ps, within fence c lines = p :: ps ∧ p.isPlain = false ∧ Apart (p :: ps)
  | [], _ => ⟨c.piece, [], rfl, rfl, .directive rfl .nil⟩
  | line :: lines, h => by
    simp only [within]
    split
    · split
      · exact ⟨c.piece, _, rfl, rfl,
          .directive rfl (apart_outside (Fence.after fence line) [] lines h.tail)⟩
      · exact apart_within (Fence.after fence line) _ lines h.tail
    · exact apart_within (Fence.after fence line) _ lines h.tail

end

/-- **The pieces of a text are plain Markdown and directives in turn.** -/
theorem apart_split (text : String) : Apart (split text) :=
  apart_outside none [] (Text.lines text.toList) (Text.areLines_lines text.toList)

end RichMarkdown.Piece
