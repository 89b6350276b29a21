import Mathlib.Data.List.DropRight
import RichMarkdown.Text.Blank
import RichMarkdown.Text.Lines

/-!
# Lines and cuts of a text

`Text.AreLines`: texts that are the lines of some text, each with its line feed, which only the last
may lack. `lines_flatten` reads such lines back from the text they make up, so that lines cut out of
a text stay what they are (`AreLines.left`, `AreLines.tail`). And where a text is cut at the first
or at the last place of a character, its parts are settled (`append_first_injective`,
`append_last_injective`). The blanks at the end of a text are those of its last part, unless that
is blank (`trimEnd_append`).
-/

set_option autoImplicit false

namespace RichMarkdown.Text

/-- The lines of some text. -/
inductive AreLines : List (List Char) → Prop
  | nil : AreLines []
  | last {l : List Char} : l ≠ [] → '\n' ∉ l → AreLines [l]
  | cons {l : List Char} {ls : List (List Char)} : '\n' ∉ l → AreLines ls →
      AreLines ((l ++ ['\n']) :: ls)

theorem areLines_lines (cs : List Char) : AreLines (lines cs) := by
  induction cs with
  | nil => exact .nil
  | cons c cs ih =>
    unfold lines
    by_cases hc : c = '\n'
    · subst hc
      exact .cons List.not_mem_nil ih
    · have hb : ¬ (c == '\n') = true := by simpa using hc
      rw [if_neg hb]
      generalize lines cs = ls at ih ⊢
      cases ih with
      | nil => exact .last (List.cons_ne_nil c []) (by simpa using Ne.symm hc)
      | last _ hl => exact .last (List.cons_ne_nil c _) (by simp [hl, Ne.symm hc])
      | @cons l ls hl h => exact .cons (l := c :: l) (by simp [hl, Ne.symm hc]) h

theorem lines_of_notMem {l : List Char} (hne : l ≠ []) (hl : '\n' ∉ l) : lines l = [l] := by
  induction l with
  | nil => exact absurd rfl hne
  | cons c l ih =>
    obtain ⟨hc, hl⟩ : ¬ '\n' = c ∧ '\n' ∉ l := by simpa using hl
    rw [lines, if_neg (by simpa using Ne.symm hc)]
    cases l with
    | nil => rfl
    | cons d l => rw [ih (by simp) hl]

theorem lines_append {l : List Char} (hl : '\n' ∉ l) (cs : List Char) :
    lines (l ++ ['\n'] ++ cs) = (l ++ ['\n']) :: lines cs := by
  induction l with
  | nil => rfl
  | cons c l ih =>
    obtain ⟨hc, hl⟩ : ¬ '\n' = c ∧ '\n' ∉ l := by simpa using hl
    rw [List.cons_append, List.cons_append, lines, if_neg (by simpa using Ne.symm hc), ih hl]

/-- Lines are the lines of the text they make up. -/
theorem lines_flatten {ls : List (List Char)} (h : AreLines ls) : lines ls.flatten = ls := by
  induction h with
  | nil => rfl
  | last hne hl => rw [List.flatten_singleton, lines_of_notMem hne hl]
  | cons hl _ ih => rw [List.flatten_cons, lines_append hl, ih]

theorem AreLines.tail {l : List Char} {ls : List (List Char)} (h : AreLines (l :: ls)) :
    AreLines ls := by
  cases h with
  | last => exact .nil
  | cons _ h => exact h

theorem AreLines.left {a b : List (List Char)} (h : AreLines (a ++ b)) : AreLines a := by
  induction a with
  | nil => exact .nil
  | cons l a ih =>
    rw [List.cons_append] at h
    generalize hc : a ++ b = c at h
    cases h with
    | last hne hl =>
      obtain ⟨rfl, rfl⟩ := List.append_eq_nil_iff.mp hc
      exact .last hne hl
    | cons hl h => exact .cons hl (ih (hc ▸ h))

theorem AreLines.right {a b : List (List Char)} (h : AreLines (a ++ b)) : AreLines b := by
  induction a with
  | nil => exact h
  | cons l a ih => exact ih h.tail

/-- After a line feed lines start anew. -/
theorem lines_append_of_closed {f : List Char} (hf : ∀ c ∈ f.getLast?, c = '\n')
    (cs : List Char) : lines (f ++ cs) = lines f ++ lines cs := by
  induction f with
  | nil => rfl
  | cons c f ih =>
    cases f with
    | nil =>
      obtain rfl : c = '\n' := hf c rfl
      rfl
    | cons d f =>
      have hlines := ih hf
      have hne : lines (d :: f) ≠ [] := fun h => by
        simpa [h] using flatten_lines (d :: f)
      obtain ⟨l, ls, hl⟩ := List.exists_cons_of_ne_nil hne
      rw [List.cons_append, lines.eq_2 c, lines.eq_2 c, hlines, hl]
      split <;> rfl

/-! ## Parts -/

/-- The parts between separators hold none. -/
theorem notMem_of_mem_splitOn {c : Char} {cs : List Char} : ∀ part ∈ cs.splitOn c, c ∉ part := by
  induction cs with
  | nil => simp
  | cons d cs ih =>
    rw [List.splitOn_cons_eq_if_modifyHead]
    split
    · exact List.forall_mem_cons.mpr ⟨List.not_mem_nil, ih⟩
    · rename_i hd
      have hne : c ≠ d := fun h => hd (h ▸ beq_self_eq_true c)
      obtain ⟨part, parts, hp⟩ := List.exists_cons_of_ne_nil (List.splitOn_ne_nil c cs)
      rw [hp] at ih ⊢
      obtain ⟨hpart, hparts⟩ := List.forall_mem_cons.mp ih
      exact List.forall_mem_cons.mpr ⟨List.not_mem_cons_of_ne_of_not_mem hne hpart, hparts⟩

/-! ## Trimming -/

theorem trimEnd_eq (cs : List Char) : trimEnd cs = cs.rdropWhile isBlank := rfl

theorem mem_of_mem_trimEnd {c : Char} {cs : List Char} (h : c ∈ trimEnd cs) : c ∈ cs :=
  (List.rdropWhile_prefix isBlank cs).subset h

/-- Only blanks are trimmed off. -/
theorem exists_trimEnd_append (cs : List Char) :
    ∃ blanks, cs = trimEnd cs ++ blanks ∧ allBlank blanks = true := by
  refine ⟨(cs.reverse.takeWhile isBlank).reverse, ?_, List.all_eq_true.mpr fun c hc => ?_⟩
  · rw [trimEnd, ← List.reverse_append, List.takeWhile_append_dropWhile, List.reverse_reverse]
  · exact List.mem_takeWhile_imp (List.mem_reverse.mp hc)

theorem trimEnd_append (a b : List Char) :
    trimEnd (a ++ b) = if (trimEnd b).isEmpty then trimEnd a else a ++ trimEnd b := by
  simp only [trimEnd, List.reverse_append, List.dropWhile_append, List.isEmpty_reverse]
  split
  · rfl
  · rw [List.reverse_append, List.reverse_reverse]

theorem trimEnd_eq_nil {ws : List Char} (h : ∀ c ∈ ws, isBlank c = true) : trimEnd ws = [] :=
  List.rdropWhile_eq_nil_iff.mpr h

/-- Blanks at the end of a text are trimmed off. -/
theorem trim_append_blanks {ws : List Char} (h : ∀ c ∈ ws, isBlank c = true) (cs : List Char) :
    trim (cs ++ ws) = trim cs := by
  simp only [trim, trimStart, List.dropWhile_append]
  split
  · rename_i hcs
    rw [List.isEmpty_iff.mp hcs, List.dropWhile_eq_nil_iff.mpr h]
  · rw [trimEnd_append, trimEnd_eq_nil h, if_pos List.isEmpty_nil]

section

variable {c : Char} (hc : isBlank c = false)
include hc

theorem trimStart_append_cons (a b : List Char) :
    trimStart (a ++ c :: b) = trimStart a ++ c :: b := by
  have hb : (c :: b).dropWhile isBlank = c :: b := by simp [hc]
  simp only [trimStart, List.dropWhile_append, hb]
  split
  · rename_i ha
    rw [List.isEmpty_iff.mp ha, List.nil_append]
  · rfl

theorem trimEnd_append_cons (a b : List Char) :
    trimEnd (a ++ c :: b) = a ++ c :: trimEnd b := by
  have hb : trimEnd (c :: b) = c :: trimEnd b := by
    rw [← List.singleton_append, trimEnd_append]
    split
    · rename_i hempty
      rw [List.isEmpty_iff.mp hempty, trimEnd_eq, List.rdropWhile_singleton, hc]
      rfl
    · rfl
  rw [trimEnd_append, hb, if_neg (by simp)]

/-- What is trimmed of a text does not go past a character that is not blank. -/
theorem trim_append_cons (a b : List Char) :
    trim (a ++ c :: b) = trimStart a ++ c :: trimEnd b := by
  rw [trim, trimStart_append_cons hc, trimEnd_append_cons hc]

end

/-- The last character that is not blank is the last one of the trimmed text. -/
theorem getLast?_trim {c : Char} {ws : List Char} (hc : isBlank c = false)
    (hws : ∀ d ∈ ws, isBlank d = true) (cs : List Char) :
    (trim (cs ++ c :: ws)).getLast? = some c := by
  rw [trim_append_cons hc, trimEnd_eq_nil hws, List.getLast?_concat]

/-- A text that is not blank ends in a character that is not blank, once it is trimmed. -/
theorem exists_getLast?_trimEnd {c : Char} {cs : List Char} (hc : c ∈ cs)
    (hb : isBlank c = false) : ∃ d ∈ (trimEnd cs).getLast?, isBlank d = false := by
  have hne : trimEnd cs ≠ [] := by
    intro hnil
    have hall := List.rdropWhile_eq_nil_iff.mp (trimEnd_eq cs ▸ hnil)
    simpa [hb] using hall c hc
  refine ⟨(trimEnd cs).getLast hne, List.getLast?_eq_some_getLast hne, ?_⟩
  exact Bool.not_eq_true _ ▸ List.rdropWhile_last_not isBlank cs hne

/-! ## Cuts -/

variable {α : Type} {x : α} {as bs us vs : List α}

/-- Two lists that are equal are cut alike at the first place of an element. -/
theorem append_first_injective (ha : x ∉ as) (hb : x ∉ bs)
    (h : as ++ x :: us = bs ++ x :: vs) : as = bs ∧ us = vs := by
  induction as generalizing bs with
  | nil =>
    cases bs with
    | nil => exact ⟨rfl, (List.cons.inj h).2⟩
    | cons b bs => exact absurd ((List.cons.inj h).1 ▸ List.mem_cons_self) hb
  | cons a as ih =>
    cases bs with
    | nil => exact absurd ((List.cons.inj h).1 ▸ List.mem_cons_self) ha
    | cons b bs =>
      obtain ⟨rfl, htail⟩ := List.cons.inj h
      obtain ⟨rfl, rfl⟩ := ih (fun hm => ha (List.mem_cons_of_mem _ hm))
        (fun hm => hb (List.mem_cons_of_mem _ hm)) htail
      exact ⟨rfl, rfl⟩

/-- Two lists that are equal are cut alike at the last place of an element. -/
theorem append_last_injective (hu : x ∉ us) (hv : x ∉ vs) (h : as ++ x :: us = bs ++ x :: vs) :
    as = bs ∧ us = vs := by
  have hr : us.reverse ++ x :: as.reverse = vs.reverse ++ x :: bs.reverse := by
    simpa using congrArg List.reverse h
  obtain ⟨huv, hab⟩ := append_first_injective (by simpa using hu) (by simpa using hv) hr
  exact ⟨List.reverse_inj.mp hab, List.reverse_inj.mp huv⟩

end RichMarkdown.Text
