import Mathlib.Data.List.DropRight
import Mathlib.Data.List.TakeWhile
import RichMarkdown.Text.Blank

/-!
# Runs of a class of characters

`Text.Run p run rest`: in the text `run ++ rest`, the longest run of the class `p` at the start is
`run`. Every text starts with one (`exists_run`), and `takeWhile` and `dropWhile` cut it off
(`Run.takeWhile`, `Run.dropWhile`), so a reader that takes runs can be followed on a text whose
parts are known. A text that starts and ends with a character that is not blank is what it is
trimmed to (`IsTrimmed.trim_eq`).
-/

set_option autoImplicit false

namespace RichMarkdown.Text

/-- The longest run of a class at the start of a text, and the rest of the text. -/
structure Run (p : Char → Bool) (run rest : List Char) : Prop where
  all : ∀ c ∈ run, p c = true
  stops : ∀ c ∈ rest.head?, p c = false

variable {p : Char → Bool} {run rest : List Char}

/-- Every text starts with a longest run. -/
theorem exists_run (p : Char → Bool) (cs : List Char) :
    ∃ run rest, cs = run ++ rest ∧ Run p run rest := by
  refine ⟨cs.takeWhile p, cs.dropWhile p, List.takeWhile_append_dropWhile.symm,
    fun c => List.mem_takeWhile_imp, fun c hc => ?_⟩
  have hstop := List.head?_dropWhile_not p cs
  rw [Option.mem_def.mp hc] at hstop
  exact hstop

theorem Run.takeWhile (h : Run p run rest) : (run ++ rest).takeWhile p = run := by
  rw [List.takeWhile_append_of_pos h.all]
  cases rest with
  | nil => simp
  | cons c cs => simp [h.stops c rfl]

theorem Run.dropWhile (h : Run p run rest) : (run ++ rest).dropWhile p = rest := by
  rw [List.dropWhile_append_of_pos h.all]
  cases rest with
  | nil => rfl
  | cons c cs => simp [h.stops c rfl]

/-- A run that more text follows, which is no part of it. -/
theorem Run.of_head {c : Char} {cs : List Char} (h : ∀ d ∈ run, p d = true) (hc : p c = false) :
    Run p run (c :: cs) := by
  refine ⟨h, fun d hd => ?_⟩
  obtain rfl : c = d := by simpa using hd
  exact hc

theorem Run.of_end (h : ∀ d ∈ run, p d = true) : Run p run [] := ⟨h, by simp⟩

theorem allBlank_iff {cs : List Char} : allBlank cs = true ↔ ∀ c ∈ cs, isBlank c = true :=
  List.all_eq_true

theorem trimStart_run (h : Run isBlank run rest) : trimStart (run ++ rest) = rest := h.dropWhile

theorem trimStart_append {ws : List Char} (h : ∀ c ∈ ws, isBlank c = true) (cs : List Char) :
    trimStart (ws ++ cs) = trimStart cs :=
  List.dropWhile_append_of_pos h

theorem trim_append {ws : List Char} (h : ∀ c ∈ ws, isBlank c = true) (cs : List Char) :
    trim (ws ++ cs) = trim cs := by
  rw [trim, trimStart_append h, trim]

/-! ## Trimmed texts -/

/-- A text with no blank at its start and none at its end. -/
structure IsTrimmed (cs : List Char) : Prop where
  head : ∀ c ∈ cs.head?, isBlank c = false
  last : ∀ c ∈ cs.getLast?, isBlank c = false

section

variable {a b cs : List Char} {c : Char}

theorem trimStart_eq_self (h : ∀ c ∈ cs.head?, isBlank c = false) : trimStart cs = cs := by
  have hrun : Run isBlank [] cs := ⟨by simp, h⟩
  exact hrun.dropWhile

theorem isBlank_of_trimStart_eq (h : trimStart cs = c :: a) : isBlank c = false := by
  have hstop := List.head?_dropWhile_not isBlank cs
  rw [← trimStart, h] at hstop
  exact hstop

theorem trimEnd_eq_self (h : ∀ c ∈ cs.getLast?, isBlank c = false) : trimEnd cs = cs := by
  refine List.rdropWhile_eq_self_iff.mpr fun hne => ?_
  simp [h _ (List.getLast?_eq_some_getLast hne)]

theorem IsTrimmed.trim_eq (h : IsTrimmed cs) : trim cs = cs := by
  rw [trim, trimStart_eq_self h.head, trimEnd_eq_self h.last]

theorem isTrimmed_of_forall (h : ∀ c ∈ cs, isBlank c = false) : IsTrimmed cs :=
  ⟨fun c hc => h c (List.mem_of_mem_head? hc), fun c hc => h c (List.mem_of_mem_getLast? hc)⟩

theorem IsTrimmed.append (ha : IsTrimmed a) (hb : IsTrimmed b) (hna : a ≠ []) (hnb : b ≠ [])
    (cs : List Char) : IsTrimmed (a ++ (cs ++ b)) := by
  constructor
  · intro c hc
    rw [List.head?_append_of_ne_nil _ hna] at hc
    exact ha.head c hc
  · intro c hc
    rw [List.getLast?_append_of_ne_nil _ (by simp [hnb]),
      List.getLast?_append_of_ne_nil _ hnb] at hc
    exact hb.last c hc

end

end RichMarkdown.Text
