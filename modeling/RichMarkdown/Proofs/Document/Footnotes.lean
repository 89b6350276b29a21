import Mathlib.Data.List.Dedup
import Mathlib.Data.List.Induction
import RichMarkdown.Proofs.Document.History
import RichMarkdown.Proofs.Walk.Formats
import RichMarkdown.Proofs.Walk.Numbers

/-!
# The numbers of footnotes

A context numbers the labels of footnotes in the order of their first use, over all that it is used
for. `numbersOf` lists the numbers that it gives in a history, each with its label, and `Ordinals`
says of such a list that the numbers are the ordinals of the labels.

* `gives_run`: the numbers of a history are places in the list of the labels noted.
* `ordinals_numbersOf`: at every point of a history the numbers given so far are ordinals.
-/

set_option autoImplicit false

namespace RichMarkdown

/-! ## Histories -/

/-- The numbers that a use gives to footnotes, with their labels, in order. -/
def Use.numbers : Use → Context → List (String × Nat)
  | footnote label, c => [(label, (c.footnoteNumber label).1)]
  | render b d out, c => Walk.numbers b d c out
  | heading _ _, _ | takeToc, _ | takeTitle, _ => []

/-- The numbers that some uses give to footnotes, with their labels, in order. -/
def numbersOf : List Use → Context → List (String × Nat)
  | [], _ => []
  | u :: us, c => u.numbers c ++ numbersOf us (u.apply c)

theorem gives_apply (u : Use) (c : Context) :
    Gives c.footnotes (u.numbers c) (u.apply c).footnotes := by
  cases u with
  | heading level text =>
    rw [Use.apply, c.footnotes_registerHeading]
    exact gives_nothing _
  | footnote label => exact Walk.gives_footnoteNumber c label
  | takeToc => exact gives_nothing _
  | takeTitle => exact gives_nothing _
  | render b d out => exact Walk.gives_numbers b d c out

theorem gives_run (us : List Use) (c : Context) :
    Gives c.footnotes (numbersOf us c) (run us c).footnotes := by
  induction us generalizing c with
  | nil => exact gives_nothing _
  | cons u us ih => exact (gives_apply u c).append (ih (u.apply c))

/-! ## Ordinals -/

/-- The numbers given to labels are the ordinals of the labels by their first use. -/
structure Ordinals (given : List (String × Nat)) : Prop where
  /-- A label always gets the same number, and different labels get different ones. -/
  number_eq_iff : ∀ g ∈ given, ∀ h ∈ given, g.2 = h.2 ↔ g.1 = h.1
  /-- The numbers are those from one up to the number of different labels. -/
  mem_iff : ∀ n, n ∈ given.map Prod.snd ↔ 1 ≤ n ∧ n ≤ (given.map Prod.fst).dedup.length
  /-- A label has a smaller number than another if it was used before it. -/
  lt_iff : ∀ g ∈ given, ∀ h ∈ given,
    g.2 < h.2 ↔ (given.map Prod.fst).idxOf g.1 < (given.map Prod.fst).idxOf h.1

section

variable {labels : List String} {a b : String} {given : List (String × Nat)}
  {seen : List String}

/-- The labels seen stand in the order of their first use. -/
theorem idxOf_seeLabels_lt_iff (ha : a ∈ labels) (hb : b ∈ labels) :
    (seeLabels [] labels).idxOf a < (seeLabels [] labels).idxOf b ↔
      labels.idxOf a < labels.idxOf b := by
  induction labels using List.reverseRecOn with
  | nil => cases ha
  | append_singleton labels label ih =>
    have hsee : seeLabels [] (labels ++ [label]) = seeLabel (seeLabels [] labels) label :=
      seeLabels_append [] labels [label]
    have hmem {x : String} : x ∈ seeLabels [] labels ↔ x ∈ labels := by simp [mem_seeLabels]
    have hold {x : String} (hx : x ∈ labels) :
        (seeLabels [] (labels ++ [label])).idxOf x = (seeLabels [] labels).idxOf x ∧
          (labels ++ [label]).idxOf x = labels.idxOf x := by
      rw [hsee]
      exact ⟨idxOf_stable (hmem.mpr hx) (prefix_seeLabel _ _), List.idxOf_append_of_mem hx⟩
    -- a new label stands behind all others on both sides
    have hnew {x : String} (hx : x ∉ labels) (h : x ∈ labels ++ [label]) :
        (seeLabels [] (labels ++ [label])).idxOf x = (seeLabels [] labels).length ∧
          (labels ++ [label]).idxOf x = labels.length := by
      obtain rfl : x = label := by simpa [hx] using h
      rw [hsee, seeLabel, if_neg (mt hmem.mp hx), List.idxOf_append_of_notMem (mt hmem.mp hx),
        List.idxOf_append_of_notMem hx]
      simp
    have hlt {x : String} (hx : x ∈ labels) :
        (seeLabels [] labels).idxOf x < (seeLabels [] labels).length ∧
          labels.idxOf x < labels.length :=
      ⟨List.idxOf_lt_length_of_mem (hmem.mpr hx), List.idxOf_lt_length_of_mem hx⟩
    by_cases hal : a ∈ labels <;> by_cases hbl : b ∈ labels
    · rw [(hold hal).1, (hold hal).2, (hold hbl).1, (hold hbl).2]
      exact ih hal hbl
    · rw [(hold hal).1, (hold hal).2, (hnew hbl hb).1, (hnew hbl hb).2]
      exact iff_of_true (hlt hal).1 (hlt hal).2
    · rw [(hnew hal ha).1, (hnew hal ha).2, (hold hbl).1, (hold hbl).2]
      exact iff_of_false (Nat.lt_asymm (hlt hbl).1) (Nat.lt_asymm (hlt hbl).2)
    · rw [(hnew hal ha).1, (hnew hal ha).2, (hnew hbl hb).1, (hnew hbl hb).2]
      exact iff_of_false (Nat.lt_irrefl _) (Nat.lt_irrefl _)

/-- Numbers given from the start are ordinals. -/
theorem Gives.ordinals (h : Gives [] given seen) : Ordinals given := by
  obtain rfl := h.seen
  have hmem {x : String} : x ∈ seeLabels [] (given.map Prod.fst) ↔ x ∈ given.map Prod.fst := by
    simp [mem_seeLabels]
  have hseen {g : String × Nat} (hg : g ∈ given) : g.1 ∈ seeLabels [] (given.map Prod.fst) :=
    hmem.mpr (List.mem_map_of_mem hg)
  have hnodup : (seeLabels [] (given.map Prod.fst)).Nodup := nodup_seeLabels List.nodup_nil _
  have hlength : (given.map Prod.fst).dedup.length = (seeLabels [] (given.map Prod.fst)).length :=
    ((List.perm_ext_iff_of_nodup (List.nodup_dedup _) hnodup).mpr fun x => by
      rw [List.mem_dedup, hmem]).length_eq
  refine ⟨fun g hg g' hg' => ?_, fun n => ?_, fun g hg g' hg' => ?_⟩
  · rw [h.number g hg, h.number g' hg', labelNumber, labelNumber, Nat.succ_inj,
      List.idxOf_inj (hseen hg)]
  · rw [hlength, List.mem_map]
    constructor
    · rintro ⟨g, hg, rfl⟩
      have hlt := List.idxOf_lt_length_of_mem (hseen hg)
      rw [h.number g hg, labelNumber]
      omega
    · rintro ⟨hn, hle⟩
      -- the label in the place of the number has been given some number, which is this one
      have hlt : n - 1 < (seeLabels [] (given.map Prod.fst)).length := by omega
      obtain ⟨g, hg, hlabel⟩ := List.mem_map.mp (hmem.mp (List.getElem_mem hlt))
      refine ⟨g, hg, ?_⟩
      rw [h.number g hg, hlabel, labelNumber, hnodup.idxOf_getElem]
      omega
  · rw [h.number g hg, h.number g' hg', labelNumber, labelNumber, Nat.add_lt_add_iff_right]
    exact idxOf_seeLabels_lt_iff (List.mem_map_of_mem hg) (List.mem_map_of_mem hg')

end

/-! ## First uses -/

theorem Html.skipsComments (settings : Html.Settings) : (Html.backend settings).SkipsComments :=
  Html.flow_start settings

theorem Layout.skipsComments {τ : Type} (k : Layout.Sink τ) (colors : Option Layout.CodeColors) :
    (Layout.backend k colors).SkipsComments :=
  Layout.flow_start k colors

/-- **Footnotes are numbered by first use.** Whatever a new context is used for, the numbers that it
has given at any point are the ordinals of the labels. Within a rendering, labels are used in the
order of the document: the calls tell of its nodes in order, but for what is in those that the
backend skips. As a page, as plain text and as styled text only comments are skipped, so the labels
used are those that the document shows. -/
theorem ordinals_numbersOf (mode : ColorMode) (us : List Use) :
    (∀ given, given <+: numbersOf us { mode } → Ordinals given) ∧
      (∀ {σ : Type} (b : Backend σ) (d : Document) (c : Context) (out : σ),
        Walk.Tells (blocksOutline d) (Walk.calls b d c out) ∧
          (b.SkipsComments → (Walk.numbers b d c out).map Prod.fst = shownLabels d)) ∧
      (∀ settings, (Html.backend settings).SkipsComments) ∧
      ∀ {τ : Type} (k : Layout.Sink τ) colors, (Layout.backend k colors).SkipsComments := by
  refine ⟨fun given hgiven => ?_, fun b d c out => ⟨(Walk.nested_calls b d c out).2, fun hb =>
    Walk.labels_numbers hb d c out⟩, Html.skipsComments, Layout.skipsComments⟩
  obtain ⟨more, hmore⟩ := hgiven
  have hgives := gives_run us { mode }
  rw [← hmore] at hgives
  exact hgives.left.ordinals

/-- A label in a comment gets no number, and the second rendering goes on numbering. -/
example :
    let page (d : Document) := Use.render (Html.backend {}) d {}
    numbersOf [.footnote "b",
      page [.paragraph [.directive "comment" {} [.footnote "c"], .footnote "a"]],
      page [.footnote "c" [.paragraph [.footnote "b"]]]] {} =
        [("b", 1), ("a", 2), ("c", 3), ("b", 1)] := rfl

end RichMarkdown
