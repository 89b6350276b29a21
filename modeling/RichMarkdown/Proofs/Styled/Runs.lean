import Mathlib.Data.List.Chain
import RichMarkdown.Proofs.Styled.Letters

/-!
# The runs of a styled text

A styled text that is built by pushing texts has runs that are as long as they can be: none of them
is empty and neighbours differ in style (`StyledText.Canonical`). There is only one such text with
given letters, so the runs do not tell into which pieces the text was cut when it was pushed.

* `StyledText.Canonical.push`: one push keeps the runs canonical.
* `StyledText.Canonical.eq_of_letters`: canonical runs are settled by the letters.
* `StyledText.comesOf_pushed`: what is known of a text after any pushes.
-/

set_option autoImplicit false

namespace RichMarkdown.StyledText

/-- No run is empty, and runs next to each other differ in style. -/
structure Canonical (t : StyledText) : Prop where
  nonempty : ∀ r ∈ t.runs, r.text ≠ ""
  differ : t.runs.IsChain (·.style ≠ ·.style)

/-- The text after some pushes, each with its style. -/
def pushed (ps : List (String × TextStyle)) : StyledText :=
  ps.foldl (fun t p => t.push p.1 p.2) {}

/-- The characters of some pushes, each with its style. -/
def expand (ps : List (String × TextStyle)) : List (Char × TextStyle) :=
  ps.flatMap fun p => p.1.toList.map (·, p.2)

/-- What is known of a styled text that comes of some pushes. -/
structure ComesOf (ps : List (String × TextStyle)) (t : StyledText) : Prop where
  canonical : t.Canonical
  text : t.text = String.join (ps.map (·.1))
  letters : t.letters = expand ps
  runs : ∀ qs, expand qs = expand ps → (pushed qs).runs = t.runs

/-! ## One push -/

section

variable {t : StyledText} {last : StyledRun} {earlier : List StyledRun} {text : String}
  {style : TextStyle}

theorem push_empty (t : StyledText) (style : TextStyle) : t.push "" style = t := rfl

/-- A text in the style of the last run joins it. -/
theorem push_joins (h : t.latestFirst = last :: earlier) (text : String) :
    t.push text last.style = ⟨⟨last.text ++ text, last.style⟩ :: earlier⟩ := by
  by_cases htext : text = ""
  · rw [htext, push_empty, String.append_empty, ← h]
  · rw [push, if_neg (by simpa using htext), h]
    dsimp only
    rw [if_pos rfl]

/-- A text in any other style is a new run. -/
theorem push_adds (htext : text ≠ "") (h : ∀ r ∈ t.latestFirst.head?, r.style ≠ style) :
    t.push text style = ⟨⟨text, style⟩ :: t.latestFirst⟩ := by
  rw [push, if_neg (by simpa using htext)]
  cases hlatest : t.latestFirst with
  | nil => rfl
  | cons last earlier =>
    dsimp only
    rw [if_neg (h last (by rw [hlatest]; rfl))]

/-- A push does nothing, joins the last run or adds a run. -/
theorem push_cases (t : StyledText) (text : String) (style : TextStyle) :
    text = "" ∨ (∃ last earlier, t.latestFirst = last :: earlier ∧ last.style = style) ∨
      (text ≠ "" ∧ ∀ r ∈ t.latestFirst.head?, r.style ≠ style) := by
  by_cases htext : text = ""
  · exact .inl htext
  · cases hlatest : t.latestFirst with
    | nil => exact .inr (.inr ⟨htext, fun r hr => absurd hr (Option.not_mem_none r)⟩)
    | cons last earlier =>
      by_cases hstyle : last.style = style
      · exact .inr (.inl ⟨last, earlier, rfl, hstyle⟩)
      · refine .inr (.inr ⟨htext, fun r hr => ?_⟩)
        obtain rfl := Option.some.inj hr
        exact hstyle

/-- **Two pushes in one style** are one push. -/
theorem push_push (t : StyledText) (a b : String) (style : TextStyle) :
    (t.push a style).push b style = t.push (a ++ b) style := by
  obtain rfl | ⟨last, earlier, hlatest, rfl⟩ | ⟨ha, hstyle⟩ := push_cases t a style
  · rw [push_empty, String.empty_append]
  · rw [push_joins hlatest, push_joins hlatest, push_joins rfl, String.append_assoc]
  · have hab : a ++ b ≠ "" := by simp [ha]
    rw [push_adds ha hstyle, push_adds hab hstyle, push_joins rfl]

/-- **A text is pushed character by character.** -/
theorem push_eq_foldl (t : StyledText) (text : String) (style : TextStyle) :
    t.push text style = text.toList.foldl (fun t c => t.push (String.singleton c) style) t := by
  rw [← String.ofList_toList (s := text), String.toList_ofList]
  induction text.toList generalizing t with
  | nil => rfl
  | cons c cs ih =>
    rw [List.foldl_cons, ← ih, push_push, String.singleton_eq_ofList, ← String.ofList_append,
      List.singleton_append]

/-! ## Canonical runs -/

theorem canonical_empty : Canonical {} where
  nonempty _ h := absurd h List.not_mem_nil
  differ := .nil

theorem canonical_cons_iff : Canonical ⟨last :: earlier⟩ ↔
    last.text ≠ "" ∧ (∀ r ∈ earlier.head?, r.style ≠ last.style) ∧ Canonical ⟨earlier⟩ := by
  have hruns : runs ⟨last :: earlier⟩ = runs ⟨earlier⟩ ++ [last] := List.reverse_cons
  have hlast : (runs ⟨earlier⟩).getLast? = earlier.head? := List.getLast?_reverse
  constructor
  · intro ⟨hnonempty, hdiffer⟩
    rw [hruns] at hnonempty hdiffer
    rw [List.isChain_append, hlast] at hdiffer
    exact ⟨hnonempty last (by simp), fun r hr => hdiffer.2.2 r hr last rfl,
      fun r hr => hnonempty r (List.mem_append_left _ hr), hdiffer.1⟩
  · intro ⟨htext, hstyle, hearlier⟩
    refine ⟨fun r hr => ?_, ?_⟩
    · rw [hruns] at hr
      obtain hr | hr := List.mem_append.mp hr
      · exact hearlier.nonempty r hr
      · obtain rfl := List.mem_singleton.mp hr
        exact htext
    · rw [hruns, List.isChain_append, hlast]
      refine ⟨hearlier.differ, .singleton _, fun r hr r' hr' => ?_⟩
      obtain rfl := Option.some.inj hr'
      exact hstyle r hr

/-- **A push keeps the runs canonical**, whether it is empty, joins the last run or adds one. -/
theorem Canonical.push (h : t.Canonical) (text : String) (style : TextStyle) :
    (t.push text style).Canonical := by
  obtain rfl | ⟨last, earlier, hlatest, rfl⟩ | ⟨htext, hstyle⟩ := push_cases t text style
  · exact h
  · have hcons : Canonical ⟨last :: earlier⟩ := by rw [← hlatest]; exact h
    obtain ⟨hlast, hdiffer, hearlier⟩ := canonical_cons_iff.mp hcons
    rw [push_joins hlatest, canonical_cons_iff]
    exact ⟨by simp [hlast], hdiffer, hearlier⟩
  · rw [push_adds htext hstyle, canonical_cons_iff]
    exact ⟨htext, hstyle, h⟩

end

/-! ## All pushes -/

variable {t u : StyledText} (ps : List (String × TextStyle))

theorem pushed_concat (p : String × TextStyle) :
    pushed (ps ++ [p]) = (pushed ps).push p.1 p.2 := by
  rw [pushed, List.foldl_concat, pushed]

theorem canonical_pushed : (pushed ps).Canonical := by
  induction ps using List.reverseRecOn with
  | nil => exact canonical_empty
  | append_singleton ps p ih =>
    rw [pushed_concat]
    exact ih.push p.1 p.2

theorem text_pushed : (pushed ps).text = String.join (ps.map (·.1)) := by
  induction ps using List.reverseRecOn with
  | nil => rfl
  | append_singleton ps p ih =>
    rw [pushed_concat, text_push, ih]
    simp

theorem letters_pushed : (pushed ps).letters = expand ps := by
  induction ps using List.reverseRecOn with
  | nil => rfl
  | append_singleton ps p ih =>
    rw [pushed_concat, letters_push, ih]
    simp [expand]

/-- The pushes are settled by their characters: they could as well be made one by one. -/
theorem pushed_eq_foldl : pushed ps =
    (expand ps).foldl (fun t l => t.push (String.singleton l.1) l.2) {} := by
  rw [pushed, expand, List.foldl_flatMap]
  congr 1
  funext t p
  rw [push_eq_foldl, List.foldl_map]

/-- Canonical runs come of pushing each of them. -/
theorem Canonical.exists_pushed (h : t.Canonical) : ∃ ps, pushed ps = t := by
  obtain ⟨latestFirst⟩ := t
  induction latestFirst with
  | nil => exact ⟨[], rfl⟩
  | cons last earlier ih =>
    obtain ⟨htext, hstyle, hearlier⟩ := canonical_cons_iff.mp h
    obtain ⟨ps, hps⟩ := ih hearlier
    exact ⟨ps ++ [(last.text, last.style)], by rw [pushed_concat, hps, push_adds htext hstyle]⟩

/-- **Canonical runs are settled by the letters.** -/
theorem Canonical.eq_of_letters (ht : t.Canonical) (hu : u.Canonical)
    (h : t.letters = u.letters) : t = u := by
  obtain ⟨ps, rfl⟩ := ht.exists_pushed
  obtain ⟨qs, rfl⟩ := hu.exists_pushed
  rw [letters_pushed, letters_pushed] at h
  rw [pushed_eq_foldl, pushed_eq_foldl, h]

/-- **The runs after any pushes**: they are canonical, they hold the texts and the letters that were
pushed, and they are the same for all pushes of these letters. -/
theorem comesOf_pushed : ComesOf ps (pushed ps) where
  canonical := canonical_pushed ps
  text := text_pushed ps
  letters := letters_pushed ps
  runs qs h := by
    have hletters : (pushed qs).letters = (pushed ps).letters := by
      rw [letters_pushed, letters_pushed, h]
    rw [(canonical_pushed qs).eq_of_letters (canonical_pushed ps) hletters]

end RichMarkdown.StyledText
