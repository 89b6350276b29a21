import Mathlib.Tactic.SplitIfs
import RichMarkdown.Html.Page
import RichMarkdown.Proofs.Html.Grammar
import RichMarkdown.Proofs.Text.Lines

/-!
# Pages that can be told apart

Escaping loses nothing (`escape_injective`), and an escaped text ends where the next tag or the end
of its attribute begins. So pages that differ only in values of attributes and in texts before end
tags (`PiecesAlike`) are written as one text only if they do not differ at all.

* `PiecesAlike.eq_of_render_eq`: pages of this kind with the same text are equal.
-/

set_option autoImplicit false

namespace RichMarkdown.Html

/-! ## Escaped texts -/

/-- No entity is the beginning of another. -/
theorem escapeChar_append_injective {c d : Char} {cs ds : List Char}
    (h : escapeChar c ++ cs = escapeChar d ++ ds) : c = d ∧ cs = ds := by
  simp only [escapeChar, beq_iff_eq] at h
  -- all entities begin alike, but no two of them go on alike
  split_ifs at h <;> simp at h <;> grind

theorem escape_toList (s : String) : (escape s).toList = s.toList.flatMap escapeChar := by
  rw [escape, String.toList_ofList]

theorem escape_injective {s t : String} (h : escape s = escape t) : s = t := by
  have hne (c : Char) : escapeChar c ≠ [] := by
    unfold escapeChar
    split_ifs <;> simp
  suffices hlist : ∀ cs ds : List Char, cs.flatMap escapeChar = ds.flatMap escapeChar → cs = ds by
    have h := congrArg String.toList h
    rw [escape_toList, escape_toList] at h
    exact String.toList_inj.mp (hlist _ _ h)
  intro cs
  induction cs with
  | nil =>
    intro ds h
    cases ds with
    | nil => rfl
    | cons d ds => simp [hne] at h
  | cons c cs ih =>
    intro ds h
    cases ds with
    | nil => simp [hne] at h
    | cons d ds =>
      rw [List.flatMap_cons, List.flatMap_cons] at h
      obtain ⟨rfl, htail⟩ := escapeChar_append_injective h
      rw [ih ds htail]

/-- An escaped text ends before the first character that markup is made of. -/
theorem escape_append_injective {s t : String} {x : Char} (hx : ¬ IsPlain x) {us vs : List Char}
    (h : (escape s).toList ++ x :: us = (escape t).toList ++ x :: vs) : s = t ∧ us = vs := by
  have hmem (s : String) : x ∉ (escape s).toList := fun hm => hx (isPlain_of_mem_escape hm)
  obtain ⟨hst, huv⟩ := Text.append_first_injective (hmem s) (hmem t) h
  exact ⟨escape_injective (String.toList_inj.mp hst), huv⟩

/-! ## Pages -/

/-- Pieces that differ at most in the values of last attributes and in texts before end tags. -/
inductive PiecesAlike : List Piece → List Piece → Prop
  | nil : PiecesAlike [] []
  | same (p : Piece) {ps qs : List Piece} : PiecesAlike ps qs → PiecesAlike (p :: ps) (p :: qs)
  | value (tag : Tag) (as : List Attribute) (name v w : String) {ps qs : List Piece} :
      PiecesAlike ps qs →
      PiecesAlike (.startTag tag (as ++ [attr name v]) :: ps)
        (.startTag tag (as ++ [attr name w]) :: qs)
  | text (s t : String) (tag : Tag) {ps qs : List Piece} : PiecesAlike ps qs →
      PiecesAlike (.text s :: .endTag tag :: ps) (.text t :: .endTag tag :: qs)

namespace PiecesAlike

theorem refl (ps : List Piece) : PiecesAlike ps ps := by
  induction ps with
  | nil => exact .nil
  | cons p ps ih => exact .same p ih

variable {ps qs ps' qs' : List Piece}

theorem append (h : PiecesAlike ps qs) (h' : PiecesAlike ps' qs') :
    PiecesAlike (ps ++ ps') (qs ++ qs') := by
  induction h with
  | nil => exact h'
  | same p _ ih => exact .same p ih
  | value tag as name v w _ ih => exact .value tag as name v w ih
  | text s t tag _ ih => exact .text s t tag ih

theorem length_eq (h : PiecesAlike ps qs) : ps.length = qs.length := by
  induction h with
  | nil => rfl
  | same p _ ih => rw [List.length_cons, List.length_cons, ih]
  | value tag as name v w _ ih => rw [List.length_cons, List.length_cons, ih]
  | text s t tag _ ih => simp [ih]

/-- The value of the last attribute of a start tag ends at a quote. -/
theorem toList_render_value (tag : Tag) (as : List Attribute) (name : String) :
    ∃ before, ∀ v ps, (render (.startTag tag (as ++ [attr name v]) :: ps)).toList =
      before ++ ((escape v).toList ++ '\"' :: '>' :: (render ps).toList) := by
  refine ⟨'<' :: tag.name.toList ++ (String.join (as.map Attribute.render)).toList ++
    (' ' :: name.toList ++ ['=', '\"']), fun v ps => ?_⟩
  simp [toList_render_cons, Piece.render, Attribute.render, attr]

/-- **Pages of one kind can be told apart** by the text as which they are written. -/
theorem eq_of_render_eq (h : PiecesAlike ps qs) (hr : render ps = render qs) : ps = qs := by
  replace hr := congrArg String.toList hr
  induction h with
  | nil => rfl
  | same p _ ih =>
    rw [toList_render_cons, toList_render_cons] at hr
    rw [ih (List.append_cancel_left hr)]
  | value tag as name v w _ ih =>
    obtain ⟨before, hbefore⟩ := toList_render_value tag as name
    rw [hbefore, hbefore] at hr
    obtain ⟨rfl, hrest⟩ := escape_append_injective (by decide) (List.append_cancel_left hr)
    rw [ih (List.cons.inj hrest).2]
  | text s t tag _ ih =>
    simp only [toList_render_cons, toList_render_endTag, endText, List.cons_append] at hr
    obtain ⟨rfl, hrest⟩ := escape_append_injective (by decide) hr
    rw [ih (List.append_cancel_left (List.cons.inj hrest).2)]

end PiecesAlike

end RichMarkdown.Html
