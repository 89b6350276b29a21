import RichMarkdown.Directive.Attributes
import RichMarkdown.Text.Alphanumeric

/-!
# Heads of directives

What follows the colons of a directive: its name, then perhaps a label in square brackets, then
perhaps attributes in braces. Brackets inside a label and braces inside attributes must balance.
-/

set_option autoImplicit false

namespace RichMarkdown

/-- What a directive says about itself; without brackets it has no label. -/
structure Head where
  name : String
  label : Option String
  attributes : Attributes
  deriving DecidableEq, Repr

namespace Head

/-- The text up to the closer that balances `depth` open ones, and what follows that closer. -/
def untilClosed? (opener closer : Char) : Nat → List Char → Option (List Char × List Char)
  | _, [] => none
  | depth, c :: cs =>
    if c == opener then
      (untilClosed? opener closer (depth + 1) cs).map fun p => (c :: p.1, p.2)
    else if c == closer then
      if depth ≤ 1 then some ([], cs)
      else (untilClosed? opener closer (depth - 1) cs).map fun p => (c :: p.1, p.2)
    else (untilClosed? opener closer depth cs).map fun p => (c :: p.1, p.2)

/-- The text between an opener at the start and the closer that belongs to it, and the rest. -/
def delimited? (opener closer : Char) : List Char → Option (List Char × List Char)
  | [] => none
  | c :: cs => if c == opener then untilClosed? opener closer 1 cs else none

def isNameChar (c : Char) : Bool := Text.isAlphanumeric c || c == '-' || c == '_'

def endsName (c : Char) : Bool := c == '[' || c == '\x7b' || Text.isBlank c

/-- A text between delimiters at the start, if there is one, and the rest. -/
def optional (opener closer : Char) (cs : List Char) : Option (List Char) × List Char :=
  match delimited? opener closer cs with
  | some (content, rest) => (some content, rest)
  | none => (none, cs)

/-- A head at the start of a text, and what follows it. -/
def read? (cs : List Char) : Option (Head × List Char) :=
  let name := cs.takeWhile (! endsName ·)
  if name.isEmpty || ! name.all isNameChar then none
  else
    let (label, rest) := optional '[' ']' (cs.dropWhile (! endsName ·))
    let (attributes, rest) := optional '\x7b' '\x7d' rest
    some (⟨String.ofList name, label.map String.ofList,
      Attributes.read (attributes.getD [])⟩, rest)

theorem length_untilClosed? {opener closer : Char} {depth : Nat} {cs a b : List Char}
    (h : untilClosed? opener closer depth cs = some (a, b)) : b.length < cs.length := by
  induction cs generalizing depth a b with
  | nil => simp [untilClosed?] at h
  | cons c cs ih =>
    simp only [untilClosed?] at h
    split at h
    · simp only [Option.map_eq_some_iff, Prod.mk.injEq] at h
      obtain ⟨⟨x, y⟩, hxy, _, rfl⟩ := h
      have := ih hxy
      simp
      omega
    · split at h
      · split at h
        · simp only [Option.some.injEq, Prod.mk.injEq] at h
          obtain ⟨_, rfl⟩ := h
          simp
        · simp only [Option.map_eq_some_iff, Prod.mk.injEq] at h
          obtain ⟨⟨x, y⟩, hxy, _, rfl⟩ := h
          have := ih hxy
          simp
          omega
      · simp only [Option.map_eq_some_iff, Prod.mk.injEq] at h
        obtain ⟨⟨x, y⟩, hxy, _, rfl⟩ := h
        have := ih hxy
        simp
        omega

theorem length_optional (opener closer : Char) (cs : List Char) :
    (optional opener closer cs).2.length ≤ cs.length := by
  unfold optional
  split
  · rename_i h
    unfold delimited? at h
    split at h
    · simp at h
    · split at h
      · have := length_untilClosed? h
        simp
        omega
      · simp at h
  · simp

theorem length_read? {cs rest : List Char} {head : Head} (h : read? cs = some (head, rest)) :
    rest.length < cs.length := by
  unfold read? at h
  dsimp only at h
  split at h
  · simp at h
  · rename_i hn
    simp only [Option.some.injEq, Prod.mk.injEq] at h
    obtain ⟨_, rfl⟩ := h
    have h₁ := length_optional '[' ']' (cs.dropWhile (! endsName ·))
    have h₂ := length_optional '\x7b' '\x7d' (optional '[' ']' (cs.dropWhile (! endsName ·))).2
    have h₃ : (cs.takeWhile (! endsName ·) ++ cs.dropWhile (! endsName ·)).length = cs.length := by
      rw [List.takeWhile_append_dropWhile]
    simp only [List.length_append] at h₃
    have h₄ : (cs.takeWhile (! endsName ·)).length ≠ 0 := by
      intro h0
      simp [List.length_eq_zero_iff.mp h0] at hn
    omega

end Head

end RichMarkdown
