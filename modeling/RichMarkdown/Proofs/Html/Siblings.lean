import RichMarkdown.Proofs.Html.Composition

/-!
# Siblings and their places in a page

`Siblings tight d tight' xs`: the blocks `xs` stand one after the other somewhere in the blocks `d`,
at any depth. The two marks say whether `d` and `xs` are directly in an item of a tight list, where
paragraphs have no tags of their own. What siblings write stands in one stretch of the page, written
from a context that shows their mark (`Siblings.contains`).

* `Walk.kept`: a walk leaves the containers of its context open, and keeps what was collected.
* `Siblings.contains`: the walk of a document contains the walk of all siblings in it.
-/

set_option autoImplicit false

namespace RichMarkdown

namespace Walk

/-! ## The context of a walk -/

variable {σ : Type} {b : Backend σ}

theorem kept_framed {f : Frame} {v : State σ → State σ}
    (hv : ∀ s : State σ, s.context.Kept (v s).context) (s : State σ) :
    s.context.Kept (framed b f v s).context := by
  rw [framed]
  split
  · exact .refl _
  · rename_i out _
    exact hv ⟨s.context, out⟩

theorem kept_inside (k : Container) {v : State σ → State σ}
    (hv : ∀ s : State σ, s.context.Kept (v s).context) (s : State σ) :
    s.context.Kept (inside k v s).context :=
  (hv { s with context := s.context.push k }).inside

/-- **A walk keeps its context**, whatever the backend does. -/
theorem kept (b : Backend σ) :
    Congruence b b (fun _ => True) fun v _ => ∀ s : State σ, s.context.Kept (v s).context where
  idle _ := .refl _
  seq hv hw s := (hv s).trans (hw _)
  choose hv s := hv s.context s
  inside k _ _ hv := kept_inside k hv
  numbered label _ _ hv s :=
    (s.context.kept_footnoteNumber label).trans
      (hv (s.context.footnoteNumber label).1 ⟨(s.context.footnoteNumber label).2, s.out⟩)
  leaf _ _ := .refl _
  space := trivial
  framed _ hv := kept_framed hv
  headed level text _ _ hv s :=
    (s.context.kept_registerHeading level text).trans
      (kept_framed hv ⟨(s.context.registerHeading level text).2, s.out⟩)
  table hh hr := kept_framed fun s => (kept_framed hh s).trans (hr _)

theorem kept_blocks (bs : List Block) (s : State σ) :
    s.context.Kept (blocks b bs s).context :=
  (kept b).blocks bs (blocksEveryLeaf_of_forall (fun _ => trivial) bs) s

end Walk

/-- Only the containers say whether a place is directly in an item of a tight list. -/
theorem Context.inTightItem_congr {c d : Context} (h : d.containers = c.containers) :
    d.inTightItem = c.inTightItem := by
  rw [inTightItem, inTightItem, h]

namespace Html

/-! ## Visits inside visits -/

/-- What the second visit adds to a page from its context stands in one stretch within what the
first visit adds from its own. -/
def Contains (v : Visit) (c : Context) (w : Visit) (d : Context) : Prop :=
  ∃ before ps after c' d', Adds w d ps d' ∧ Adds v c (before ++ (ps ++ after)) c'

section

variable {settings : Settings} {u v w : Visit} {c c' d e : Context} {ps qs : List Piece}

theorem Adds.unique {c'' : Context} (h : Adds v c ps c') (h' : Adds v c qs c'') : ps = qs := by
  have hout := congrArg Walk.State.out ((h {}).symm.trans (h' {}))
  simpa [PageState.write] using hout

theorem Adds.inside {k : Container} (h : Adds v (c.push k) ps c') :
    Adds (Walk.inside k v) c ps c'.pop := by
  intro out
  simp only [Walk.inside, h out]

theorem Settled.inside (k : Container) (hv : Settled v) : Settled (Walk.inside k v) := by
  intro c
  obtain ⟨ps, c', hadds⟩ := hv.adds (c.push k)
  exact ⟨ps, c'.pop, hadds.inside⟩

theorem Settled.contains (hv : Settled v) (c : Context) : Contains v c v c := by
  obtain ⟨ps, c', hadds⟩ := hv.adds c
  refine ⟨[], ps, [], c', c', hadds, ?_⟩
  rw [List.nil_append, List.append_nil]
  exact hadds

theorem Contains.trans (h : Contains u c v d) (h' : Contains v d w e) : Contains u c w e := by
  obtain ⟨before, ps, after, c', d', hv, hu⟩ := h
  obtain ⟨before', qs, after', d'', e', hw, hv'⟩ := h'
  obtain rfl := hv.unique hv'
  refine ⟨before ++ before', qs, after' ++ after, c', e', hw, ?_⟩
  simpa using hu

theorem contains_first (hv : Settled v) (hw : Settled w) (c : Context) :
    Contains (w ∘ v) c v c := by
  obtain ⟨ps, c', hadds⟩ := hv.adds c
  obtain ⟨qs, c'', hadds'⟩ := hw.adds c'
  exact ⟨[], ps, qs, c'', c', hadds, hadds.seq hadds'⟩

theorem contains_second (hv : Adds v c ps c') (hw : Settled w) : Contains (w ∘ v) c w c' := by
  obtain ⟨qs, c'', hadds⟩ := hw.adds c'
  refine ⟨ps, qs, [], c'', c'', hadds, ?_⟩
  rw [List.append_nil]
  exact hv.seq hadds

theorem contains_framed {f : Frame} (hflow : f.defaultFlow = .enter) (hv : Settled v)
    (c : Context) : Contains (Walk.framed (backend settings) f v) c v c := by
  obtain ⟨ps, c', hadds⟩ := hv.adds c
  exact ⟨_, ps, _, c', c', hadds, hadds.framed hflow⟩

theorem contains_inside (k : Container) (hv : Settled v) (c : Context) :
    Contains (Walk.inside k v) c v (c.push k) := by
  obtain ⟨ps, c', hadds⟩ := hv.adds (c.push k)
  refine ⟨[], ps, [], c'.pop, c', hadds, ?_⟩
  rw [List.nil_append, List.append_nil]
  exact hadds.inside

theorem contains_numbered {label : String} {v : Nat → Visit}
    (h : Contains (v (c.footnoteNumber label).1) (c.footnoteNumber label).2 w d) :
    Contains (Walk.numbered label v) c w d := by
  rw [Walk.numbered_eq]
  exact h

/-- A container between the tags of a frame. -/
theorem contains_box {f : Frame} (hflow : f.defaultFlow = .enter) (k : Container)
    (hv : Settled v) (c : Context) :
    Contains (Walk.framed (backend settings) f (Walk.inside k v)) c v (c.push k) :=
  (contains_framed hflow (hv.inside k) c).trans (contains_inside k hv c)

end

/-! ## Places -/

/-- Blocks that stand one after the other somewhere in the given blocks, and whether each of the two
lists is directly in an item of a tight list. Comments, which a page leaves out, have no places. -/
inductive Siblings : Bool → List Block → Bool → List Block → Prop
  | here {tight : Bool} {bs : List Block} : Siblings tight bs tight bs
  | quote {outer tight : Bool} {alert : Option Alert} {bs children xs : List Block} :
      .quote alert children ∈ bs → Siblings false children tight xs → Siblings outer bs tight xs
  | footnote {outer tight : Bool} {label : String} {bs children xs : List Block} :
      .footnote label children ∈ bs → Siblings false children tight xs → Siblings outer bs tight xs
  | directive {outer tight : Bool} {head : Directive} {bs children xs : List Block} :
      .directive head children ∈ bs → isCommentName head.name = false →
      Siblings false children tight xs → Siblings outer bs tight xs
  | item {outer inner tight : Bool} {start : Option UInt64} {items : List Item}
      {task : Option Bool} {bs children xs : List Block} : .list start inner items ∈ bs →
      ⟨task, children⟩ ∈ items → Siblings inner children tight xs → Siblings outer bs tight xs

section

variable {settings : Settings}

theorem settled_block (settings : Settings) (x : Block) :
    Settled (Walk.block (backend settings) x) :=
  (settled_uniform settings).congruence.block x (x.everyLeaf_of_forall fun _ => trivial)

theorem settled_items (settings : Settings) (tight : Bool) (number : Option UInt64)
    (is : List Item) : Settled (Walk.items (backend settings) tight number is) :=
  (settled_uniform settings).congruence.items tight number is
    (itemsEveryLeaf_of_forall (fun _ => trivial) is)

theorem Adds.kept {v : Visit} {c c' : Context} {ps : List Piece} (h : Adds v c ps c')
    (hv : ∀ s : Walk.State PageState, s.context.Kept (v s).context) : c.Kept c' := by
  have hkept := hv ⟨c, {}⟩
  rwa [h] at hkept

/-- Every block is walked in the containers that are open around it. -/
theorem contains_block {x : Block} {bs : List Block} (hx : x ∈ bs) (c : Context) :
    ∃ d, d.containers = c.containers ∧
      Contains (Walk.blocks (backend settings) bs) c (Walk.block (backend settings) x) d := by
  obtain ⟨front, back, rfl⟩ := List.append_of_mem hx
  obtain ⟨ps, d, hfront⟩ := (settled_blocks settings front).adds c
  refine ⟨d, (hfront.kept (Walk.kept_blocks front)).containers, ?_⟩
  rw [Walk.blocks_append]
  exact (contains_second hfront (settled_blocks settings (x :: back))).trans
    (contains_first (settled_block settings x) (settled_blocks settings back) d)

/-- Every item is walked in the containers that are open around it. -/
theorem contains_item {tight : Bool} {task : Option Bool} {children : List Block}
    {is : List Item} (hitem : ⟨task, children⟩ ∈ is) (number : Option UInt64) (c : Context) :
    ∃ d, d.containers = .item tight :: c.containers ∧
      Contains (Walk.items (backend settings) tight number is) c
        (Walk.blocks (backend settings) children) d := by
  induction is generalizing number c with
  | nil => cases hitem
  | cons i is ih =>
    obtain ⟨task', children'⟩ := i
    have hblocks := settled_blocks settings children'
    have hitems := settled_items settings tight (number.map Walk.nextNumber) is
    have hfirst : Settled (Walk.framed (backend settings) (.item (Walk.marker number) task')
        (Walk.inside (.item tight) (Walk.blocks (backend settings) children'))) :=
      (hblocks.inside (.item tight)).framed _
    rcases List.mem_cons.mp hitem with heq | hitem
    · obtain ⟨rfl, rfl⟩ := Item.mk.inj heq
      exact ⟨c.push (.item tight), rfl,
        (contains_first hfirst hitems c).trans (contains_box rfl (.item tight) hblocks c)⟩
    · obtain ⟨ps, c', hadds⟩ := hfirst.adds c
      have hkept := hadds.kept (Walk.kept_framed (Walk.kept_inside _ (Walk.kept_blocks children')))
      obtain ⟨d, hd, hcontains⟩ := ih hitem (number.map Walk.nextNumber) c'
      exact ⟨d, hkept.containers ▸ hd, (contains_second hadds hitems).trans hcontains⟩

/-! ### Containers -/

variable {children : List Block}

theorem contains_quote (alert : Option Alert) (c : Context) :
    Contains (Walk.block (backend settings) (.quote alert children)) c
      (Walk.blocks (backend settings) children) (c.push .quote) := by
  rw [Walk.block]
  exact contains_box rfl .quote (settled_blocks settings children) c

theorem contains_footnote (label : String) (c : Context) :
    Contains (Walk.block (backend settings) (.footnote label children)) c
      (Walk.blocks (backend settings) children) ((c.footnoteNumber label).2.push .footnote) := by
  rw [Walk.block]
  exact contains_numbered (contains_box rfl .footnote (settled_blocks settings children) _)

/-- The children of a directive are walked after its label. -/
theorem contains_directive {head : Directive} (hhead : isCommentName head.name = false)
    (c : Context) :
    ∃ d, d.containers = .directive :: c.containers ∧
      Contains (Walk.block (backend settings) (.directive head children)) c
        (Walk.blocks (backend settings) children) d := by
  have hflow : (Frame.directive head).defaultFlow = .enter := if_neg (by simp [hhead])
  have hlabel : Settled (Walk.leafLabel (backend settings) head) :=
    (settled_uniform settings).congruence.leafLabel head fun _ =>
      inlinesEveryLeaf_of_forall (fun _ => trivial) head.label
  have hkept := (Walk.kept (backend settings)).leafLabel head fun _ =>
    inlinesEveryLeaf_of_forall (fun _ => trivial) head.label
  have hchildren := settled_blocks settings children
  obtain ⟨ps, d, hadds⟩ := hlabel.adds (c.push .directive)
  refine ⟨d, (hadds.kept hkept).containers, ?_⟩
  rw [Walk.block]
  exact (contains_box hflow .directive (hlabel.seq hchildren) c).trans
    (contains_second hadds hchildren)

theorem contains_listItem (start : Option UInt64) (tight : Bool) {items : List Item}
    {task : Option Bool} (hitem : ⟨task, children⟩ ∈ items) (c : Context) :
    ∃ d, d.containers = .item tight :: .list tight start.isSome :: c.containers ∧
      Contains (Walk.block (backend settings) (.list start tight items)) c
        (Walk.blocks (backend settings) children) d := by
  obtain ⟨d, hd, hcontains⟩ := contains_item hitem start (c.push (.list tight start.isSome))
  refine ⟨d, hd, ?_⟩
  rw [Walk.block]
  exact (contains_box rfl _ (settled_items settings tight start items) c).trans hcontains

/-- **Siblings are walked in one stretch**, in a context that shows whether they are directly in an
item of a tight list. -/
theorem Siblings.contains (settings : Settings) {outer tight : Bool} {bs xs : List Block}
    (h : Siblings outer bs tight xs) {c : Context} (hc : c.inTightItem = outer) :
    ∃ d, d.inTightItem = tight ∧
      Contains (Walk.blocks (backend settings) bs) c (Walk.blocks (backend settings) xs) d := by
  induction h generalizing c with
  | here => exact ⟨c, hc, (settled_blocks settings _).contains c⟩
  | @quote _ _ alert _ _ _ hx _ ih =>
    obtain ⟨d, -, hblock⟩ := contains_block hx c
    obtain ⟨e, he, hinner⟩ := ih (c := d.push .quote) rfl
    exact ⟨e, he, (hblock.trans (contains_quote alert d)).trans hinner⟩
  | @footnote _ _ label _ _ _ hx _ ih =>
    obtain ⟨d, -, hblock⟩ := contains_block hx c
    obtain ⟨e, he, hinner⟩ := ih (c := (d.footnoteNumber label).2.push .footnote) rfl
    exact ⟨e, he, (hblock.trans (contains_footnote label d)).trans hinner⟩
  | directive hx hhead _ ih =>
    obtain ⟨d, -, hblock⟩ := contains_block hx c
    obtain ⟨d', hd', hchildren⟩ := contains_directive hhead d
    obtain ⟨e, he, hinner⟩ := ih (c := d') (by rw [Context.inTightItem, hd']; rfl)
    exact ⟨e, he, (hblock.trans hchildren).trans hinner⟩
  | @item _ inner _ start _ _ _ _ _ hx hitem _ ih =>
    obtain ⟨d, -, hblock⟩ := contains_block hx c
    obtain ⟨d', hd', hchildren⟩ := contains_listItem start inner hitem d
    obtain ⟨e, he, hinner⟩ := ih (c := d') (by rw [Context.inTightItem, hd']; cases inner <;> rfl)
    exact ⟨e, he, (hblock.trans hchildren).trans hinner⟩

end

end Html

end RichMarkdown
