import RichMarkdown.Proofs.Walk.Leaves

/-!
# Induction over walks

Every walk is put together from leaves and frames by composition, changes of the context and choices
that depend on the context. `Walk.Congruence b b' p P` lists what a relation `P` between the visits
of two backends must be closed under; then it holds of the two walks of any document all of whose
leaves have the property `p` (`Walk.Congruence.blocks`). With one backend and a `P` that looks at
one side only, this is the induction principle for what a walk does to its state.

* `Walk.Uniform`: the same for a relation that all changes of the context keep.
* `Walk.Simulation.document`: two backends whose hooks keep a relation between their states end in
  related states and in the same context.
-/

set_option autoImplicit false

namespace RichMarkdown

namespace Walk

variable {σ τ : Type}

/-! ## Visits as compositions -/

/-- Changes the context and nothing else. -/
def withContext (f : Context → Context) (s : State σ) : State σ :=
  { s with context := f s.context }

/-- Registers a heading and visits what it holds under its anchor. -/
def headed (b : Backend σ) (level : Nat) (text : String) (inner : State σ → State σ)
    (s : State σ) : State σ :=
  framed b (.heading level (s.context.registerHeading level text).1) inner
    { s with context := (s.context.registerHeading level text).2 }

theorem inside_eq (c : Container) (v : State σ → State σ) :
    inside c v = withContext Context.pop ∘ v ∘ withContext (·.push c) := rfl

theorem numbered_eq (label : String) (v : Nat → State σ → State σ) :
    numbered label v = fun s =>
      (v (s.context.footnoteNumber label).1 ∘
        withContext fun _ => (s.context.footnoteNumber label).2) s := rfl

theorem headed_eq (b : Backend σ) (level : Nat) (text : String) (v : State σ → State σ) :
    headed b level text v = fun s =>
      (framed b (.heading level (s.context.registerHeading level text).1) v ∘
        withContext fun _ => (s.context.registerHeading level text).2) s := rfl

theorem paragraph_eq (b : Backend σ) (v : State σ → State σ) :
    paragraph b v = fun s => framed b (.paragraph s.context.inTightItem) v s := rfl

/-- Whether a frame may stand around any visit. Headings stand behind the anchor that the context
has given them, and tables around their header row. -/
def isFree : Frame → Bool
  | .heading _ _ => false
  | .table _ => false
  | .row header => ! header
  | _ => true

/-! ## Relations between walks -/

/-- A relation between visits of two walks that is kept by all that walks are made of. -/
structure Congruence (b : Backend σ) (b' : Backend τ) (p : Leaf → Prop)
    (P : (State σ → State σ) → (State τ → State τ) → Prop) : Prop where
  idle : P id id
  seq {v w v' w'} : P v v' → P w w' → P (w ∘ v) (w' ∘ v')
  /-- The visit may depend on the context. -/
  choose {v : Context → State σ → State σ} {v' : Context → State τ → State τ} :
    (∀ c, P (v c) (v' c)) → P (fun s => v s.context s) (fun s => v' s.context s)
  inside (c : Container) {v v'} : P v v' → P (inside c v) (inside c v')
  numbered (label : String) {v : Nat → State σ → State σ} {v' : Nat → State τ → State τ} :
    (∀ n, P (v n) (v' n)) → P (numbered label v) (numbered label v')
  leaf {l} : p l → P (leaf b l) (leaf b' l)
  /-- The space after the argument of a command. -/
  space : p (.text " ")
  framed {f v v'} : isFree f = true → P v v' → P (framed b f v) (framed b' f v')
  headed (level : Nat) (text : String) {v v'} :
    P v v' → P (headed b level text v) (headed b' level text v')
  table {t h h' r r'} : P h h' → P r r' →
    P (Walk.framed b (.table t) (r ∘ Walk.framed b (.row true) h))
      (Walk.framed b' (.table t) (r' ∘ Walk.framed b' (.row true) h'))

namespace Congruence

variable {b : Backend σ} {b' : Backend τ} {p : Leaf → Prop}
  {P : (State σ → State σ) → (State τ → State τ) → Prop}

section

variable (h : Congruence b b' p P)
include h

theorem paragraph {v : State σ → State σ} {v' : State τ → State τ} (hv : P v v') :
    P (Walk.paragraph b v) (Walk.paragraph b' v') := by
  rw [paragraph_eq, paragraph_eq]
  exact h.choose fun c => h.framed (f := .paragraph c.inTightItem) rfl hv

/-! ### Inlines -/

mutual

theorem inline : ∀ i : Inline, i.EveryLeaf p → P (Walk.inline b i) (Walk.inline b' i)
  | .text _, hi | .code _, hi | .softBreak, hi | .lineBreak, hi | .html _, hi
  | .image _ _ _, hi => h.leaf hi
  | .footnote label, hi => h.numbered label fun n => h.leaf (hi n)
  | .marked _ children, hi => h.framed rfl (inlines children hi)
  | .directive _ _ content, hi => h.framed rfl (inlines content hi)

theorem inlines : ∀ is : List Inline, inlinesEveryLeaf p is →
    P (Walk.inlines b is) (Walk.inlines b' is)
  | [], _ => h.idle
  | i :: is, hi => h.seq (inline i hi.1) (inlines is hi.2)

end

theorem cells (t : Table) (header : Bool) : ∀ (column : Nat) (cs : List (List Inline)),
    rowEveryLeaf p cs → P (Walk.cells b t header column cs) (Walk.cells b' t header column cs)
  | _, [], _ => h.idle
  | column, cell :: rest, hc =>
    h.seq (h.framed rfl (h.inlines cell (hc cell List.mem_cons_self)))
      (cells t header (column + 1) rest fun c hm => hc c (List.mem_cons_of_mem _ hm))

theorem rows (t : Table) : ∀ rs : List (List (List Inline)), (∀ r ∈ rs, rowEveryLeaf p r) →
    P (Walk.rows b t rs) (Walk.rows b' t rs)
  | [], _ => h.idle
  | r :: rs, hr =>
    h.seq (h.framed rfl (h.cells t false 0 r (hr r List.mem_cons_self)))
      (rows t rs fun r' hm => hr r' (List.mem_cons_of_mem _ hm))

theorem commandArgument (c : Command) (hc : ∀ a, c.argument = some a → p (.code a)) :
    P (Walk.commandArgument b c) (Walk.commandArgument b' c) := by
  unfold Walk.commandArgument
  cases ha : c.argument with
  | none => exact h.idle
  | some a =>
    refine h.seq (h.leaf (hc a ha)) ?_
    cases c.content.isEmpty
    · exact h.leaf h.space
    · exact h.idle

theorem leafLabel (head : Directive) (hl : head.kind = .leaf → inlinesEveryLeaf p head.label) :
    P (Walk.leafLabel b head) (Walk.leafLabel b' head) := by
  unfold Walk.leafLabel
  split
  · rename_i hk
    exact h.paragraph (h.inlines head.label (hl hk.1))
  · exact h.idle

/-! ### Blocks -/

mutual

theorem block : ∀ x : Block, x.EveryLeaf p → P (Walk.block b x) (Walk.block b' x)
  | .paragraph content, hx => h.paragraph (h.inlines content hx)
  | .heading level content, hx => h.headed level (plainText content) (h.inlines content hx)
  | .code _ _, hx | .rule, hx | .html _, hx | .metadata _, hx => h.leaf hx
  | .list start tight children, hx =>
    h.framed rfl (h.inside _ (items tight start children hx))
  | .quote _ children, hx => h.framed rfl (h.inside _ (blocks children hx))
  | .table t, hx => h.table (h.cells t true 0 t.header hx.1) (h.rows t t.rows hx.2)
  | .footnote label children, hx =>
    h.numbered label fun _ => h.framed rfl (h.inside _ (blocks children hx))
  | .directive head children, hx =>
    h.framed rfl (h.inside _ (h.seq (h.leafLabel head hx.1) (blocks children hx.2)))
  | .command c, hx =>
    h.framed rfl (h.paragraph (h.seq (h.commandArgument c hx.1) (h.inlines c.content hx.2)))

theorem blocks : ∀ xs : List Block, blocksEveryLeaf p xs →
    P (Walk.blocks b xs) (Walk.blocks b' xs)
  | [], _ => h.idle
  | x :: xs, hx => h.seq (block x hx.1) (blocks xs hx.2)

theorem items (tight : Bool) : ∀ (number : Option UInt64) (is : List Item), itemsEveryLeaf p is →
    P (Walk.items b tight number is) (Walk.items b' tight number is)
  | _, [], _ => h.idle
  | number, ⟨_, children⟩ :: rest, hi =>
    h.seq (h.framed rfl (h.inside _ (blocks children hi.1)))
      (items tight (number.map nextNumber) rest hi.2)

end

end

end Congruence

/-- A relation that is kept whatever happens to the context. -/
structure Uniform (b : Backend σ) (b' : Backend τ) (p : Leaf → Prop)
    (P : (State σ → State σ) → (State τ → State τ) → Prop) : Prop where
  idle : P id id
  seq {v w v' w'} : P v v' → P w w' → P (w ∘ v) (w' ∘ v')
  withContext (f : Context → Context) : P (withContext f) (withContext f)
  choose {v : Context → State σ → State σ} {v' : Context → State τ → State τ} :
    (∀ c, P (v c) (v' c)) → P (fun s => v s.context s) (fun s => v' s.context s)
  leaf {l} : p l → P (leaf b l) (leaf b' l)
  space : p (.text " ")
  framed {f v v'} : (∀ t, f ≠ .table t) → f ≠ .row true → P v v' →
    P (framed b f v) (framed b' f v')
  table {t h h' r r'} : P h h' → P r r' →
    P (Walk.framed b (.table t) (r ∘ Walk.framed b (.row true) h))
      (Walk.framed b' (.table t) (r' ∘ Walk.framed b' (.row true) h'))

theorem Uniform.congruence {b : Backend σ} {b' : Backend τ} {p : Leaf → Prop}
    {P : (State σ → State σ) → (State τ → State τ) → Prop} (h : Uniform b b' p P) :
    Congruence b b' p P where
  idle := h.idle
  seq := h.seq
  choose := h.choose
  inside c _ _ hv := by
    rw [inside_eq, inside_eq]
    exact h.seq (h.seq (h.withContext _) hv) (h.withContext _)
  numbered label _ _ hv := by
    rw [numbered_eq, numbered_eq]
    exact h.choose fun c => h.seq (h.withContext fun _ => (c.footnoteNumber label).2)
      (hv (c.footnoteNumber label).1)
  leaf := h.leaf
  space := h.space
  framed {f _ _} hf hv := by
    refine h.framed ?_ ?_ hv
    · rintro t rfl
      cases hf
    · rintro rfl
      cases hf
  headed level text _ _ hv := by
    rw [headed_eq, headed_eq]
    exact h.choose fun c => h.seq (h.withContext fun _ => (c.registerHeading level text).2)
      (h.framed (f := .heading level (c.registerHeading level text).1) (fun _ => nofun) nofun hv)
  table := h.table

/-! ## Simulations -/

/-- Two walks under way in the same context, with related states of their backends. -/
structure Related (R : σ → τ → Prop) (s : State σ) (t : State τ) : Prop where
  context : s.context = t.context
  out : R s.out t.out

/-- The hooks of two backends keep a relation between their states, and they skip alike. -/
structure Simulation (b : Backend σ) (b' : Backend τ) (p : Leaf → Prop) (R : σ → τ → Prop) :
    Prop where
  leaf {c l s t} : p l → R s t → R (b.leaf c l s) (b'.leaf c l t)
  space : p (.text " ")
  start {c f s t} : R s t →
    (b.start c f s).1 = (b'.start c f t).1 ∧ R (b.start c f s).2 (b'.start c f t).2
  finish {c f s t} : R s t → R (b.finish c f s) (b'.finish c f t)

namespace Simulation

variable {b : Backend σ} {b' : Backend τ} {p : Leaf → Prop} {R : σ → τ → Prop}

theorem framed (h : Simulation b b' p R) (f : Frame) {v : State σ → State σ}
    {v' : State τ → State τ} (hv : ∀ s t, Related R s t → Related R (v s) (v' t)) (s : State σ)
    (t : State τ) (hst : Related R s t) :
    Related R (Walk.framed b f v s) (Walk.framed b' f v' t) := by
  obtain ⟨c, o⟩ := s
  obtain ⟨c', o'⟩ := t
  obtain ⟨rfl, hout⟩ : c = c' ∧ R o o' := ⟨hst.context, hst.out⟩
  obtain ⟨hflow, hstart⟩ := h.start (c := c) (f := f) hout
  rcases hb : b.start c f o with ⟨flow, out⟩
  rcases hb' : b'.start c f o' with ⟨flow', out'⟩
  rw [hb, hb'] at hflow hstart
  obtain rfl : flow = flow' := hflow
  unfold Walk.framed
  simp only [hb, hb']
  cases flow with
  | skip => exact ⟨rfl, hstart⟩
  | enter =>
    obtain ⟨hc, ho⟩ := hv ⟨c, out⟩ ⟨c, out'⟩ ⟨rfl, hstart⟩
    refine ⟨hc, ?_⟩
    simp only [hc]
    exact h.finish ho

/-- The relation is kept by all that walks are made of. -/
theorem uniform (h : Simulation b b' p R) :
    Uniform b b' p fun v v' => ∀ s t, Related R s t → Related R (v s) (v' t) where
  idle _ _ hst := hst
  seq hv hw _ _ hst := hw _ _ (hv _ _ hst)
  withContext f _ _ hst := ⟨congrArg f hst.context, hst.out⟩
  choose hv s t hst := by
    simp only [hst.context]
    exact hv t.context s t hst
  leaf hl s t hst := by
    refine ⟨hst.context, ?_⟩
    unfold Walk.leaf
    rw [hst.context]
    exact h.leaf hl hst.out
  space := h.space
  framed _ _ hv := h.framed _ hv
  table hh hr := h.framed _ fun _ _ hst => hr _ _ (h.framed _ hh _ _ hst)

/-- **Walks simulate each other** when their hooks do: from related states and the same context,
the walks of a document lead to related states and the same context. -/
theorem document (h : Simulation b b' p R) {d : Document} (hd : blocksEveryLeaf p d) (c : Context)
    {s : σ} {t : τ} (hst : R s t) :
    R (Walk.document b d c s).1 (Walk.document b' d c t).1 ∧
      (Walk.document b d c s).2 = (Walk.document b' d c t).2 := by
  have hr := h.uniform.congruence.blocks d hd ⟨c, s⟩ ⟨c, t⟩ ⟨rfl, hst⟩
  exact ⟨hr.out, hr.context⟩

end Simulation

end Walk

end RichMarkdown
