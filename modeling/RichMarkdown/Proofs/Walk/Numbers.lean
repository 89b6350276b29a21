import Mathlib.Data.List.Nodup
import RichMarkdown.Proofs.Walk.Calls
import RichMarkdown.Proofs.Walk.Shown

/-!
# The numbers that a walk gives

A walk asks the context for the number of a footnote where it meets a reference or the definition,
and tells it to the backend there and then, so the numbers that it gives can be read off its calls
(`Walk.numbers`). `Gives seen given seen'` says of labels with numbers that they have been given one
after the other: every label is noted at its first use, and its number is its place among the labels
noted.

* `Walk.gives_numbers`: what the walk of a document gives, whatever its backend skips.
* `Walk.labels_numbers`: a backend that skips comments only is told the labels of all footnotes that
  the document shows, in order.
-/

set_option autoImplicit false

namespace RichMarkdown

/-! ## Labels in the order of their first use -/

/-- The labels seen after further uses of labels. -/
def seeLabels (seen labels : List String) : List String := labels.foldl seeLabel seen

section

variable {seen seen' seen'' labels : List String} {a label : String}
  {given more : List (String × Nat)}

theorem mem_seeLabel : a ∈ seeLabel seen label ↔ a ∈ seen ∨ a = label := by
  unfold seeLabel
  split
  · rename_i h
    exact ⟨.inl, fun ha => ha.elim id fun ha => ha ▸ h⟩
  · simp

theorem prefix_seeLabel (seen : List String) (label : String) : seen <+: seeLabel seen label := by
  unfold seeLabel
  split
  · exact List.prefix_refl _
  · exact List.prefix_append _ _

theorem nodup_seeLabel (h : seen.Nodup) (label : String) : (seeLabel seen label).Nodup := by
  unfold seeLabel
  split
  · exact h
  · rename_i hnew
    exact List.nodup_append.mpr ⟨h, List.nodup_singleton label, fun b hb c hc hbc =>
      hnew (List.mem_singleton.mp hc ▸ hbc ▸ hb)⟩

theorem seeLabels_append (seen xs ys : List String) :
    seeLabels seen (xs ++ ys) = seeLabels (seeLabels seen xs) ys := List.foldl_append

theorem mem_seeLabels : a ∈ seeLabels seen labels ↔ a ∈ seen ∨ a ∈ labels := by
  induction labels generalizing seen with
  | nil => simp [seeLabels]
  | cons label labels ih =>
    rw [seeLabels, List.foldl_cons, ← seeLabels, ih, mem_seeLabel, List.mem_cons, or_assoc]

theorem prefix_seeLabels (seen labels : List String) : seen <+: seeLabels seen labels := by
  induction labels generalizing seen with
  | nil => exact List.prefix_refl _
  | cons label labels ih => exact (prefix_seeLabel seen label).trans (ih _)

theorem nodup_seeLabels (h : seen.Nodup) (labels : List String) :
    (seeLabels seen labels).Nodup := by
  induction labels generalizing seen with
  | nil => exact h
  | cons label labels ih => exact ih (nodup_seeLabel h label)

/-- The place of a label stays what it is. -/
theorem idxOf_stable (ha : a ∈ seen) (h : seen <+: seen') :
    seen'.idxOf a = seen.idxOf a := by
  obtain ⟨more, rfl⟩ := h
  exact List.idxOf_append_of_mem ha

theorem labelNumber_stable (ha : a ∈ seen) (h : seen <+: seen') :
    labelNumber seen' a = labelNumber seen a := by
  rw [labelNumber, labelNumber, idxOf_stable ha h]

/-! ## Numbers given -/

/-- With the labels `seen` known before, these labels were given these numbers, and the labels
`seen'` are known behind them. -/
structure Gives (seen : List String) (given : List (String × Nat)) (seen' : List String) :
    Prop where
  seen : seen' = seeLabels seen (given.map Prod.fst)
  number : ∀ g ∈ given, g.2 = labelNumber seen' g.1

theorem gives_nothing (seen : List String) : Gives seen [] seen := ⟨rfl, nofun⟩

theorem gives_label (seen : List String) (label : String) :
    Gives seen [(label, labelNumber (seeLabel seen label) label)] (seeLabel seen label) := by
  refine ⟨rfl, fun g hg => ?_⟩
  rw [List.mem_singleton.mp hg]

theorem Gives.append (h : Gives seen given seen') (h' : Gives seen' more seen'') :
    Gives seen (given ++ more) seen'' := by
  refine ⟨?_, fun g hg => ?_⟩
  · rw [h'.seen, h.seen, List.map_append, seeLabels_append]
  · obtain hg | hg := List.mem_append.mp hg
    · have hmem : g.1 ∈ seen' := by
        rw [h.seen, mem_seeLabels]
        exact .inr (List.mem_map_of_mem hg)
      rw [h.number g hg, h'.seen, labelNumber_stable hmem (prefix_seeLabels _ _)]
    · exact h'.number g hg

/-- What was given first was given in the same way. -/
theorem Gives.left (h : Gives seen (given ++ more) seen') :
    Gives seen given (seeLabels seen (given.map Prod.fst)) := by
  refine ⟨rfl, fun g hg => ?_⟩
  have hmem : g.1 ∈ seeLabels seen (given.map Prod.fst) :=
    mem_seeLabels.mpr (.inr (List.mem_map_of_mem hg))
  rw [h.number g (List.mem_append_left _ hg), h.seen, List.map_append, seeLabels_append]
  exact labelNumber_stable hmem (prefix_seeLabels _ _)

end

/-! ## Numbers told -/

/-- The label and the number that a leaf or the start of a frame tells. -/
def Hook.numbers : Hook → List (String × Nat)
  | .leaf (.footnoteReference label n) => [(label, n)]
  | .start (.footnote label n) _ => [(label, n)]
  | _ => []

/-- The labels and numbers that calls tell, in order. -/
def callNumbers (calls : List Call) : List (String × Nat) := calls.flatMap (·.hook.numbers)

theorem Hook.numbers_leaf {l : Leaf} (h : l.isNumbered = false) : (Hook.leaf l).numbers = [] := by
  cases l with
  | footnoteReference => cases h
  | _ => rfl

theorem Hook.numbers_start {f : Frame} (h : f.isNumbered = false) (flow : Flow) :
    (Hook.start f flow).numbers = [] := by
  cases f with
  | footnote => cases h
  | _ => rfl

theorem callNumbers_append (xs ys : List Call) :
    callNumbers (xs ++ ys) = callNumbers xs ++ callNumbers ys := List.flatMap_append

namespace Walk

variable {σ : Type} {b : Backend σ}

/-- The numbers that the walk of a document gives to footnotes, with their labels, in order. -/
def numbers (b : Backend σ) (d : Document) (c : Context) (out : σ) : List (String × Nat) :=
  callNumbers (calls b d c out)

/-- A visit tells the numbers that it gives. -/
def Counts (v : State (σ × List Call) → State (σ × List Call)) : Prop :=
  ∀ s, ∃ calls, (v s).out.2 = s.out.2 ++ calls ∧
    Gives s.context.footnotes (callNumbers calls) (v s).context.footnotes

section

variable {v w : State (σ × List Call) → State (σ × List Call)}

theorem counts_id : Counts (id : State (σ × List Call) → _) :=
  fun _ => ⟨[], (List.append_nil _).symm, gives_nothing _⟩

theorem Counts.comp (hv : Counts v) (hw : Counts w) : Counts (w ∘ v) := by
  intro s
  obtain ⟨xs, hxs, hgx⟩ := hv s
  obtain ⟨ys, hys, hgy⟩ := hw (v s)
  refine ⟨xs ++ ys, ?_, ?_⟩
  · rw [Function.comp_apply, hys, hxs, List.append_assoc]
  · rw [callNumbers_append]
    exact hgx.append hgy

theorem counts_leaf {l : Leaf} (h : l.isNumbered = false) : Counts (leaf b.recording l) := by
  intro s
  refine ⟨[⟨s.context, .leaf l⟩], rfl, ?_⟩
  rw [callNumbers, List.flatMap_singleton, Hook.numbers_leaf h]
  exact gives_nothing _

/-- A leaf of an outline carries no number: only the walk knows that of a reference. -/
theorem isNumbered_eq_false {l : Leaf} {kind : Kind} (h : l.kind? = some kind) :
    l.isNumbered = false := by
  cases l with
  | footnoteReference => cases h
  | _ => rfl

theorem gives_footnoteNumber (c : Context) (label : String) :
    Gives c.footnotes [(label, (c.footnoteNumber label).1)]
      (c.footnoteNumber label).2.footnotes := by
  rw [c.footnoteNumber_eq]
  exact gives_label c.footnotes label

theorem counts_reference (label : String) :
    Counts (numbered label fun n => leaf b.recording (.footnoteReference label n)) :=
  fun s => ⟨_, rfl, gives_footnoteNumber s.context label⟩

/-- A node gives a number only if it is a footnote, and tells it at its start. -/
theorem gives_noted (n : Node) (c : Context) (flow : Flow) :
    Gives c.footnotes (Hook.start (n.frame c) flow).numbers (n.noted c).footnotes := by
  cases n with
  | heading level text =>
    rw [Node.noted, c.footnotes_registerHeading]
    exact gives_nothing _
  | footnote label => exact gives_footnoteNumber c label
  | _ => exact gives_nothing _

theorem Counts.insideOf (hv : Counts v) (k : Option Container) : Counts (Walk.insideOf k v) := by
  intro s
  cases k with
  | none => exact hv s
  | some k => exact hv { s with context := s.context.push k }

theorem Counts.node (n : Node) (hv : Counts v) : Counts (Walk.node b.recording n v) := by
  intro s
  rcases hb : b.start (n.noted s.context) (n.frame s.context) s.out.1 with ⟨flow, out⟩
  have hstart : b.recording.start (n.noted s.context) (n.frame s.context) s.out =
      (flow, out, s.out.2 ++ [⟨n.noted s.context, .start (n.frame s.context) flow⟩]) := by
    simp only [Backend.recording, hb]
  have hnoted : Gives s.context.footnotes
      (callNumbers [⟨n.noted s.context, .start (n.frame s.context) flow⟩])
      (n.noted s.context).footnotes := by
    rw [callNumbers, List.flatMap_singleton]
    exact gives_noted n s.context flow
  simp only [Walk.node, framed, hstart]
  cases flow with
  | skip => exact ⟨_, rfl, hnoted⟩
  | enter =>
    let started : State (σ × List Call) := ⟨n.noted s.context, out,
      s.out.2 ++ [⟨n.noted s.context, .start (n.frame s.context) .enter⟩]⟩
    obtain ⟨inner, hinner, hgives⟩ := hv.insideOf n.container? started
    refine ⟨[⟨n.noted s.context, .start (n.frame s.context) .enter⟩] ++ inner ++
      [⟨(Walk.insideOf n.container? v started).context, .finish (n.frame s.context)⟩], ?_, ?_⟩
    · simp only [Backend.recording, hinner, started, List.append_assoc]
    · rw [callNumbers_append, callNumbers_append]
      exact (hnoted.append hgives).append (gives_nothing _)

mutual

theorem counts_outline (b : Backend σ) {kind : Kind} :
    ∀ o : Outline, o.OfKind kind → Counts (outline b.recording o)
  | .leaf _, h => counts_leaf (isNumbered_eq_false h)
  | .reference label, _ => counts_reference label
  | .node n inside, h => (counts_outlines b inside h.2).node n

theorem counts_outlines (b : Backend σ) {kind : Kind} :
    ∀ os : List Outline, outlinesOfKind kind os → Counts (outlines b.recording os)
  | [], _ => counts_id
  | o :: os, h => (counts_outline b o h.1).comp (counts_outlines b os h.2)

end

/-- **The numbers that a walk gives** are places among the labels that the context has noted,
whatever the backend skips. -/
theorem gives_numbers (b : Backend σ) (d : Document) (c : Context) (out : σ) :
    Gives c.footnotes (numbers b d c out) (document b d c out).2.footnotes := by
  obtain ⟨cs, hcs, hgives⟩ :=
    counts_outlines b (blocksOutline d) (ofKind_blocksOutline d) ⟨c, out, []⟩
  rw [← blocks_eq] at hcs hgives
  rw [List.nil_append] at hcs
  rw [← (document_recording b d c out []).2, numbers, calls, document, hcs]
  exact hgives

end

end Walk

/-! ## Labels shown -/

def Shown.label? : Shown → Option String
  | .footnote label => some label
  | .text _ | .code _ _ => none

/-- The labels of the footnote references and the footnotes in some parts, in order. -/
def partLabels (xs : List Shown) : List String := xs.filterMap Shown.label?

theorem partLabels_texts (texts : List String) : partLabels (texts.map .text) = [] := by
  simp [partLabels, Shown.label?]

theorem partLabels_append (xs ys : List Shown) :
    partLabels (xs ++ ys) = partLabels xs ++ partLabels ys := List.filterMap_append

/-- The labels of the footnote references and the footnotes that a document shows, in order. -/
def shownLabels (d : Document) : List String := partLabels (blocksShown d)

/-- The backend skips comments and nothing else. -/
def Backend.SkipsComments {σ : Type} (b : Backend σ) : Prop :=
  ∀ c f s, (b.start c f s).1 = f.defaultFlow

namespace Walk

variable {σ : Type} {b : Backend σ}

/-- From a state to another, calls are made that tell of these labels. -/
def Labels (s t : State (σ × List Call)) (labels : List String) : Prop :=
  ∃ calls, t.out.2 = s.out.2 ++ calls ∧ (callNumbers calls).map Prod.fst = labels

theorem Labels.trans {s t u : State (σ × List Call)} {xs ys : List String} (h : Labels s t xs)
    (h' : Labels t u ys) : Labels s u (xs ++ ys) := by
  obtain ⟨cs, hcs, hxs⟩ := h
  obtain ⟨ds, hds, hys⟩ := h'
  refine ⟨cs ++ ds, by rw [hds, hcs, List.append_assoc], ?_⟩
  rw [callNumbers_append, List.map_append, hxs, hys]

/-- A frame that is entered tells of its own label, and then of those inside. -/
theorem labels_framed (hb : b.SkipsComments) {f : Frame} (hflow : f.defaultFlow = .enter)
    {v : State (σ × List Call) → State (σ × List Call)} {labels : List String}
    (hv : ∀ s, Labels s (v s) labels) (s : State (σ × List Call)) :
    Labels s (framed b.recording f v s)
      ((Hook.start f .enter).numbers.map Prod.fst ++ labels) := by
  rcases hstart : b.start s.context f s.out.1 with ⟨flow, out⟩
  obtain rfl : flow = .enter := by
    rw [← hflow, ← hb s.context f s.out.1, hstart]
  let started : State (σ × List Call) :=
    ⟨s.context, out, s.out.2 ++ [⟨s.context, .start f .enter⟩]⟩
  have hframed : framed b.recording f v s = { v started with
      out := b.recording.finish (v started).context f (v started).out } := by
    simp only [framed, Backend.recording, hstart, started]
  have hfirst : Labels s started ((Hook.start f .enter).numbers.map Prod.fst) :=
    ⟨[⟨s.context, .start f .enter⟩], rfl, by rw [callNumbers, List.flatMap_singleton]⟩
  have hlast : Labels (v started) (framed b.recording f v s) [] :=
    ⟨[⟨(v started).context, .finish f⟩], by rw [hframed]; rfl, rfl⟩
  have hall := (hfirst.trans (hv started)).trans hlast
  rwa [List.append_nil] at hall

theorem showing_labels (hb : b.SkipsComments) : Showing b.recording (fun _ => True)
    fun v xs => ∀ s, Labels s (v s) (partLabels xs) where
  idle s := ⟨[], (List.append_nil _).symm, rfl⟩
  seq hv hw s := by
    rw [partLabels_append]
    exact (hv s).trans (hw _)
  choose hv s := hv s.context s
  inside k v xs hv s := hv { s with context := s.context.push k }
  leaf {l} _ hl s := by
    refine ⟨[⟨s.context, .leaf l⟩], rfl, ?_⟩
    rw [callNumbers, List.flatMap_singleton, Hook.numbers_leaf hl]
    cases l <;> rfl
  space := trivial
  reference _ s := ⟨_, rfl, rfl⟩
  framed {f v xs} hflow hn hv s := by
    have hframed := labels_framed hb hflow hv s
    rw [Hook.numbers_start hn] at hframed
    rw [partLabels_append, partLabels_texts]
    exact hframed
  footnote label v xs hv s := labels_framed hb rfl hv
    { s with context := (s.context.footnoteNumber label).2 }
  headed level text v xs hv s := labels_framed hb rfl hv
    { s with context := (s.context.registerHeading level text).2 }
  comment {f} v hflow s := by
    have hn : f.isNumbered = false := by
      cases f with
      | footnote => cases hflow
      | _ => rfl
    rcases hstart : b.start s.context f s.out.1 with ⟨flow, out⟩
    obtain rfl : flow = .skip := by
      rw [← hflow, ← hb s.context f s.out.1, hstart]
    refine ⟨[⟨s.context, .start f .skip⟩], ?_, ?_⟩
    · simp only [Walk.framed, Backend.recording, hstart]
    · rw [callNumbers, List.flatMap_singleton, Hook.numbers_start hn]
      rfl

/-- **The labels that a walk meets**, with a backend that skips comments only, are those that the
document shows, in its order. -/
theorem labels_numbers (hb : b.SkipsComments) (d : Document) (c : Context) (out : σ) :
    (numbers b d c out).map Prod.fst = shownLabels d := by
  obtain ⟨cs, hcs, hlabels⟩ := (showing_labels hb).blocks d
    (blocksEveryLeaf_of_forall (fun _ => trivial) d) ⟨c, out, []⟩
  rw [List.nil_append] at hcs
  rw [numbers, calls, document, hcs, hlabels, shownLabels]

end Walk

end RichMarkdown
