/-!
# Byte offsets into a text

A place in a text is given by the number of UTF-8 bytes before it. `splitAt?` cuts a text at such a
place and refuses a place inside a character or past the end; `slice?` takes the text between two
places. `append_of_splitAt?` says that a cut loses nothing.
-/

set_option autoImplicit false

namespace RichMarkdown.Text

/-- The number of bytes of the UTF-8 form. -/
def byteLength : List Char → Nat
  | [] => 0
  | c :: cs => c.utf8Size + byteLength cs

/-- The parts before and after a byte offset. -/
def splitAt? : Nat → List Char → Option (List Char × List Char)
  | 0, cs => some ([], cs)
  | _ + 1, [] => none
  | n + 1, c :: cs =>
    if c.utf8Size ≤ n + 1 then
      (splitAt? (n + 1 - c.utf8Size) cs).map fun p => (c :: p.1, p.2)
    else none

/-- Whether a byte offset lies between two characters or at an end. -/
def isBoundary (offset : Nat) (cs : List Char) : Bool := (splitAt? offset cs).isSome

/-- The text between two byte offsets. -/
def slice? (start stop : Nat) (cs : List Char) : Option (List Char) := do
  if stop < start then none
  let (_, fromStart) ← splitAt? start cs
  let (text, _) ← splitAt? (stop - start) fromStart
  return text

theorem append_of_splitAt? {n : Nat} {cs a b : List Char} (h : splitAt? n cs = some (a, b)) :
    a ++ b = cs := by
  induction cs generalizing n a b with
  | nil => cases n <;> simp_all [splitAt?]
  | cons c cs ih =>
    cases n with
    | zero => simp_all [splitAt?]
    | succ n =>
      simp only [splitAt?] at h
      split at h
      · simp only [Option.map_eq_some_iff, Prod.mk.injEq] at h
        obtain ⟨⟨x, y⟩, hxy, rfl, rfl⟩ := h
        simp [ih hxy]
      · simp at h

theorem byteLength_of_splitAt? {n : Nat} {cs a b : List Char}
    (h : splitAt? n cs = some (a, b)) : byteLength a = n := by
  induction cs generalizing n a b with
  | nil => cases n <;> simp_all [splitAt?, byteLength]
  | cons c cs ih =>
    cases n with
    | zero => simp_all [splitAt?, byteLength]
    | succ n =>
      simp only [splitAt?] at h
      split at h
      · simp only [Option.map_eq_some_iff, Prod.mk.injEq] at h
        obtain ⟨⟨x, y⟩, hxy, rfl, rfl⟩ := h
        have := ih hxy
        simp only [byteLength, this]
        omega
      · simp at h

end RichMarkdown.Text
