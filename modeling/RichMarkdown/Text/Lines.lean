/-!
# Lines and occurrences

Cutting a text into lines that keep their line feeds, and finding the first occurrence of one text
in another. `flatten_lines` says that the lines of a text make up the text.
-/

set_option autoImplicit false

namespace RichMarkdown.Text

/-- The lines of a text, each with the line feed that ends it; only the last may lack one. -/
def lines : List Char → List (List Char)
  | [] => []
  | c :: cs =>
    if c == '\n' then [c] :: lines cs
    else
      match lines cs with
      | [] => [[c]]
      | l :: ls => (c :: l) :: ls

theorem flatten_lines (cs : List Char) : (lines cs).flatten = cs := by
  induction cs with
  | nil => rfl
  | cons c cs ih =>
    unfold lines
    split
    · simp [ih]
    · split
      · rename_i h
        simp_all
      · rename_i h
        rw [h] at ih
        simp at ih
        simp [ih]

/-- The number of characters before the first occurrence of `needle`. -/
def indexOf? (needle : List Char) : List Char → Option Nat
  | [] => if needle.isEmpty then some 0 else none
  | c :: cs =>
    if needle.isPrefixOf (c :: cs) then some 0 else (indexOf? needle cs).map (· + 1)

/-- There the text goes on with `needle`. -/
theorem exists_of_indexOf? {needle cs : List Char} {n : Nat} (h : indexOf? needle cs = some n) :
    ∃ a b, cs = a ++ (needle ++ b) ∧ a.length = n := by
  induction cs generalizing n with
  | nil =>
    simp only [indexOf?] at h
    split at h
    · obtain rfl : needle = [] := List.isEmpty_iff.mp ‹_›
      obtain rfl : 0 = n := Option.some.inj h
      exact ⟨[], [], rfl, rfl⟩
    · cases h
  | cons c cs ih =>
    simp only [indexOf?] at h
    split at h
    · obtain ⟨b, hb⟩ := List.isPrefixOf_iff_prefix.mp ‹_›
      obtain rfl : 0 = n := Option.some.inj h
      exact ⟨[], b, hb.symm, rfl⟩
    · obtain ⟨m, hm, rfl⟩ := Option.map_eq_some_iff.mp h
      obtain ⟨a, b, rfl, rfl⟩ := ih hm
      exact ⟨c :: a, b, rfl, rfl⟩

/-- The first place of a single character ends the run of all others. -/
theorem indexOf?_singleton (d : Char) (cs : List Char) :
    indexOf? [d] cs =
      if d ∈ cs then some (cs.takeWhile (· ≠ d)).length else none := by
  induction cs with
  | nil => rfl
  | cons c cs ih =>
    by_cases hc : c = d
    · simp [indexOf?, hc]
    · have hd : ¬ d = c := fun h => hc h.symm
      rw [indexOf?, ih]
      by_cases hm : d ∈ cs <;> simp [hc, hd, hm]

end RichMarkdown.Text
