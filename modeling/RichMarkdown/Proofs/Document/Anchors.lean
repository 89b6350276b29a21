import Mathlib.Data.List.Nodup
import RichMarkdown.Proofs.Document.History
import RichMarkdown.Proofs.Text.Digits
import RichMarkdown.Proofs.Text.Lines

/-!
# The anchors of headings

A context gives the headings with one slug the anchors `slug`, `slug-1`, `slug-2` and so on. No pair
of a slug and a number is issued twice (`Issues`), so two anchors of one slug differ. But a heading
may have `slug-1` for its own slug, and then its first anchor is one that another slug has too.

* `issues_registerHeading`: what one heading takes from a context.
* `issues_document`: what a rendering takes, whatever its backend skips.
* `nodup_anchorsOf_iff`: the anchors that a context ever hands out are distinct exactly when no
  heading has a slug `slug-n` while more than `n` headings have the slug `slug`.
-/

set_option autoImplicit false

namespace RichMarkdown

namespace Context

/-! ## Slugs and their numbers -/

/-- The anchor for a slug with a number, the count of its uses before. -/
def anchor (label : String × Nat) : String :=
  if label.2 = 0 then label.1 else label.1 ++ "-" ++ toString label.2

theorem dash_notMem_toString (n : Nat) : '-' ∉ (toString n).toList :=
  Text.notMem_toString (by decide) n

theorem toString_injective {m n : Nat} (h : toString m = toString n) : m = n := by
  have hd : Nat.toDigits 10 m = Nat.toDigits 10 n := by
    rw [← Text.toList_toString, ← Text.toList_toString, h]
  rw [← Nat.ofDigitChars_ten_toDigits (n := m), hd, Nat.ofDigitChars_ten_toDigits]

/-- The number stands after the last dash, so it can be told from the slug. -/
theorem numbered_injective {a b : String} {m n : Nat}
    (h : a ++ "-" ++ toString m = b ++ "-" ++ toString n) : a = b ∧ m = n := by
  have h := congrArg String.toList h
  simp only [String.toList_append, List.append_assoc] at h
  obtain ⟨hab, hmn⟩ :=
    Text.append_last_injective (dash_notMem_toString m) (dash_notMem_toString n) h
  exact ⟨String.toList_inj.mp hab, toString_injective (String.toList_inj.mp hmn)⟩

/-! ## What a context issues -/

/-- From the context `c` to the context `c'`, the slugs with the numbers `labels` are issued, each
number that a slug has reached once. -/
structure Issues (c : Context) (labels : List (String × Nat)) (c' : Context) : Prop where
  nodup : labels.Nodup
  mem_iff (l : String × Nat) : l ∈ labels ↔ c.slugCount l.1 ≤ l.2 ∧ l.2 < c'.slugCount l.1
  mono (base : String) : c.slugCount base ≤ c'.slugCount base

theorem Issues.none {c c' : Context} (h : c'.slugCounts = c.slugCounts) : Issues c [] c' := by
  have hc (base : String) : c'.slugCount base = c.slugCount base := by
    rw [slugCount, slugCount, h]
  refine ⟨List.nodup_nil, fun l => ?_, fun base => Nat.le_of_eq (hc base).symm⟩
  rw [hc]
  simp

theorem Issues.trans {c c' c'' : Context} {ls ms : List (String × Nat)} (h : Issues c ls c')
    (h' : Issues c' ms c'') : Issues c (ls ++ ms) c'' := by
  refine ⟨List.nodup_append.mpr ⟨h.nodup, h'.nodup, ?_⟩, fun l => ?_,
    fun base => Nat.le_trans (h.mono base) (h'.mono base)⟩
  · rintro l hl m hm rfl
    have hlt := ((h.mem_iff l).mp hl).2
    have hle := ((h'.mem_iff l).mp hm).1
    omega
  · have hm := h.mono l.1
    have hm' := h'.mono l.1
    rw [List.mem_append, h.mem_iff, h'.mem_iff]
    omega

theorem lookup_filter_ne {base b : String} (hb : b ≠ base) (counts : List (String × Nat)) :
    (counts.filter (·.1 ≠ base)).lookup b = counts.lookup b := by
  induction counts with
  | nil => rfl
  | cons p ps ih =>
    obtain ⟨k, n⟩ := p
    by_cases hk : k = base
    · have hbk : (b == k) = false := by simpa [hk] using hb
      rw [List.filter_cons_of_neg (by simpa using hk), List.lookup_cons, hbk, ih]
    · rw [List.filter_cons_of_pos (by simpa using hk), List.lookup_cons, List.lookup_cons, ih]

/-- The level of a heading has no part in its anchor. -/
theorem registerHeading_eq (c : Context) (level : Nat) (text : String) :
    (c.registerHeading level text).1 = (c.freshAnchor text).1 ∧
      (c.registerHeading level text).2.slugCounts = (c.freshAnchor text).2.slugCounts := by
  unfold registerHeading
  dsimp only
  split
  · exact ⟨rfl, rfl⟩
  · exact ⟨rfl, rfl⟩

/-- A heading counts up its own slug. -/
theorem slugCount_registerHeading (c : Context) (level : Nat) (text base : String) :
    (c.registerHeading level text).2.slugCount base =
      if base = anchorBase text then c.slugCount base + 1 else c.slugCount base := by
  unfold slugCount
  rw [(registerHeading_eq c level text).2, freshAnchor, List.lookup_cons]
  by_cases hb : base = anchorBase text
  · rw [if_pos hb, hb, beq_self_eq_true]
    rfl
  · rw [if_neg hb, beq_eq_false_iff_ne.mpr hb, lookup_filter_ne hb]

theorem registerHeading_fst (c : Context) (level : Nat) (text : String) :
    (c.registerHeading level text).1 =
      anchor (anchorBase text, c.slugCount (anchorBase text)) := by
  rw [(registerHeading_eq c level text).1]
  dsimp only [freshAnchor, anchor]

/-- A heading takes the next number of its slug. -/
theorem issues_registerHeading (c : Context) (level : Nat) (text : String) :
    Issues c [(anchorBase text, c.slugCount (anchorBase text))]
      (c.registerHeading level text).2 := by
  refine ⟨List.nodup_singleton _, fun l => ?_, fun base => ?_⟩
  · rw [slugCount_registerHeading, List.mem_singleton, Prod.ext_iff]
    by_cases hl : l.1 = anchorBase text
    · simp only [hl, if_true, true_and]
      omega
    · simp only [hl, if_false, false_and, false_iff]
      omega
  · rw [slugCount_registerHeading]
    split
    · exact Nat.le_succ _
    · exact Nat.le_refl _

theorem slugCounts_footnoteNumber (c : Context) (label : String) :
    (c.footnoteNumber label).2.slugCounts = c.slugCounts := by
  unfold footnoteNumber
  split <;> rfl

/-! ## What walks issue -/

/-- A visit hands out the anchors of what it issues, and the backend writes down the same. -/
def Hands {σ : Type} (v : Walk.State (σ × List String) → Walk.State (σ × List String)) : Prop :=
  ∀ s, ∃ labels, Issues s.context labels (v s).context ∧
    (v s).out.2 = s.out.2 ++ labels.map anchor

section

variable {σ : Type} {b : Backend σ}
  {v w : Walk.State (σ × List String) → Walk.State (σ × List String)}

theorem Hands.comp (hv : Hands v) (hw : Hands w) : Hands (w ∘ v) := by
  intro s
  obtain ⟨ls, hls, hvout⟩ := hv s
  obtain ⟨ms, hms, hwout⟩ := hw (v s)
  refine ⟨ls ++ ms, hls.trans hms, ?_⟩
  rw [Function.comp_apply, hwout, hvout, List.map_append, List.append_assoc]

/-- What stands around a visit may change the context, as long as no slug is counted. -/
theorem Hands.inside (k : Container) (hv : Hands v) : Hands (Walk.inside k v) := by
  intro s
  obtain ⟨ls, hls, hout⟩ := hv { s with context := s.context.push k }
  exact ⟨ls, ⟨hls.nodup, hls.mem_iff, hls.mono⟩, hout⟩

/-- A frame hands out its own anchor and what is handed out inside. -/
theorem framed_withAnchors (f : Frame) (hv : Hands v) (s : Walk.State (σ × List String)) :
    ∃ labels, Issues s.context labels (Walk.framed b.withAnchors f v s).context ∧
      (Walk.framed b.withAnchors f v s).out.2 =
        s.out.2 ++ f.anchors ++ labels.map anchor := by
  rcases hb : b.start s.context f s.out.1 with ⟨flow, out⟩
  have hstart : b.withAnchors.start s.context f s.out = (flow, out, s.out.2 ++ f.anchors) := by
    simp only [Backend.withAnchors, hb]
  simp only [Walk.framed, hstart]
  cases flow with
  | skip => exact ⟨[], .none rfl, by simp⟩
  | enter => exact hv ⟨s.context, out, s.out.2 ++ f.anchors⟩

theorem Hands.framed {f : Frame} (hf : f.anchors = []) (hv : Hands v) :
    Hands (Walk.framed b.withAnchors f v) := by
  intro s
  have h := framed_withAnchors (b := b) f hv s
  rwa [hf, List.append_nil] at h

theorem Hands.headed (level : Nat) (text : String) (hv : Hands v) :
    Hands (Walk.headed b.withAnchors level text v) := by
  intro s
  obtain ⟨ls, hls, hout⟩ := framed_withAnchors (b := b)
    (.heading level (s.context.registerHeading level text).1) hv
    { s with context := (s.context.registerHeading level text).2 }
  refine ⟨_, (issues_registerHeading s.context level text).trans hls, hout.trans ?_⟩
  rw [Frame.anchors, registerHeading_fst, List.map_append, List.append_assoc]
  rfl

/-- **Every visit** hands out what it issues. -/
theorem hands_congruence (b : Backend σ) :
    Walk.Congruence b.withAnchors b.withAnchors (fun _ => True) fun v _ => Hands v where
  idle _ := ⟨[], .none rfl, by simp⟩
  seq hv hw := hv.comp hw
  choose hv s := hv s.context s
  inside k _ _ hv := hv.inside k
  numbered label v _ hv s := by
    have hnum := Issues.none (slugCounts_footnoteNumber s.context label)
    obtain ⟨ls, hls, hout⟩ := hv (s.context.footnoteNumber label).1
      { s with context := (s.context.footnoteNumber label).2 }
    exact ⟨ls, hnum.trans hls, hout⟩
  leaf _ _ := ⟨[], .none rfl, by simp [Walk.leaf, Backend.withAnchors]⟩
  space := trivial
  framed hf hv := hv.framed (Frame.anchors_of_isFree hf)
  headed level text _ _ hv := hv.headed level text
  table hh hr := ((hh.framed rfl).comp hr).framed rfl

/-- **A rendering** hands out the anchors of what it issues, whatever its backend skips. -/
theorem issues_document {σ : Type} (b : Backend σ) (d : Document) (c : Context) (out : σ) :
    ∃ labels, Issues c labels (Walk.document b d c out).2 ∧
      (Walk.document b.withAnchors d c (out, [])).1.2 = labels.map anchor := by
  obtain ⟨labels, hi, hout⟩ := (hands_congruence b).blocks d
    (blocksEveryLeaf_of_forall (fun _ => trivial) d) ⟨c, out, []⟩
  refine ⟨labels, ?_, hout.trans (List.nil_append _)⟩
  rw [← (document_withAnchors b d c out []).2]
  exact hi

end

/-! ## What histories issue -/

theorem issues_apply (u : Use) (c : Context) :
    ∃ labels, Issues c labels (u.apply c) ∧ u.anchors c = labels.map anchor := by
  cases u with
  | heading level text =>
    refine ⟨_, issues_registerHeading c level text, ?_⟩
    rw [Use.anchors, registerHeading_fst]
    rfl
  | footnote label => exact ⟨[], .none (slugCounts_footnoteNumber c label), rfl⟩
  | takeToc => exact ⟨[], .none rfl, rfl⟩
  | takeTitle => exact ⟨[], .none rfl, rfl⟩
  | render b d out => exact issues_document b d c out

theorem issues_run (us : List Use) (c : Context) :
    ∃ labels, Issues c labels (run us c) ∧ anchorsOf us c = labels.map anchor := by
  induction us generalizing c with
  | nil => exact ⟨[], .none rfl, rfl⟩
  | cons u us ih =>
    obtain ⟨ls, hls, hu⟩ := issues_apply u c
    obtain ⟨ms, hms, hus⟩ := ih (u.apply c)
    exact ⟨ls ++ ms, hls.trans hms, by rw [anchorsOf, hu, hus, List.map_append]⟩

/-! ## When anchors are distinct -/

/-- A slug in use reads like the numbered anchor of another slug. -/
def Clashes (c : Context) : Prop :=
  ∃ base n, 0 < n ∧ n < c.slugCount base ∧ 0 < c.slugCount (base ++ "-" ++ toString n)

/-- Two labels with the same anchor are equal, or one is a slug that the other is with its
number. -/
theorem anchor_eq {l m : String × Nat} (h : anchor l = anchor m) :
    l = m ∨ (l.2 = 0 ∧ 0 < m.2 ∧ l.1 = m.1 ++ "-" ++ toString m.2) ∨
      (m.2 = 0 ∧ 0 < l.2 ∧ m.1 = l.1 ++ "-" ++ toString l.2) := by
  obtain ⟨a, i⟩ := l
  obtain ⟨b, j⟩ := m
  unfold anchor at h
  dsimp only at h ⊢
  split at h <;> split at h
  case isTrue.isTrue hi hj => exact .inl (by rw [h, hi, hj])
  case isTrue.isFalse hi hj => exact .inr (.inl ⟨hi, Nat.pos_of_ne_zero hj, h⟩)
  case isFalse.isTrue hi hj => exact .inr (.inr ⟨hj, Nat.pos_of_ne_zero hi, h.symm⟩)
  case isFalse.isFalse hi hj =>
    obtain ⟨rfl, rfl⟩ := numbered_injective h
    exact .inl rfl

/-- **The anchors of a context.** Whatever a new context is used for, the anchors that it hands out
are distinct exactly when no slug in use reads like the numbered anchor of another. -/
theorem nodup_anchorsOf_iff (mode : ColorMode) (us : List Use) :
    (anchorsOf us { mode }).Nodup ↔ ¬ Clashes (run us { mode }) := by
  obtain ⟨labels, hi, hids⟩ := issues_run us { mode }
  -- a new context has counted nothing, so all numbers below the last count are issued
  have hm (base : String) (n : Nat) :
      (base, n) ∈ labels ↔ n < (run us { mode }).slugCount base := by
    rw [hi.mem_iff]
    exact ⟨fun h => h.2, fun h => ⟨Nat.zero_le _, h⟩⟩
  rw [hids, List.nodup_map_iff_inj_on hi.nodup]
  refine ⟨fun hinj ⟨base, n, hn, hlt, hpos⟩ => ?_, fun hc l hl m hm' heq => ?_⟩
  · have hanchor : anchor (base ++ "-" ++ toString n, 0) = anchor (base, n) := by
      rw [anchor, anchor, if_pos rfl, if_neg (Nat.ne_of_gt hn)]
    have := hinj _ ((hm _ _).mpr hpos) _ ((hm _ _).mpr hlt) hanchor
    exact Nat.ne_of_gt hn (congrArg Prod.snd this).symm
  · rcases anchor_eq heq with h | ⟨h0, hpos, hslug⟩ | ⟨h0, hpos, hslug⟩
    · exact h
    · refine absurd ⟨m.1, m.2, hpos, (hm _ _).mp hm', ?_⟩ hc
      rw [← hslug, ← h0]
      exact (hm _ _).mp hl
    · refine absurd ⟨l.1, l.2, hpos, (hm _ _).mp hl, ?_⟩ hc
      rw [← hslug, ← h0]
      exact (hm _ _).mp hm'

/-- The third heading has for its slug what the second one has for its anchor. -/
theorem not_nodup_anchorsOf :
    ¬ ∀ (mode : ColorMode) (us : List Use), (anchorsOf us { mode }).Nodup := by
  intro h
  have ha : anchorsOf [.heading 2 "a", .heading 2 "a", .heading 2 "a-1"] { mode := .light } =
      ["a", "a-1", "a-1"] := by
    decide +kernel
  have hn := h .light [.heading 2 "a", .heading 2 "a", .heading 2 "a-1"]
  rw [ha] at hn
  revert hn
  decide

end Context

end RichMarkdown
