import RichMarkdown.Proofs.Markdown.Assembly

/-!
# Levels of a document

The level of a block is what a reader of block directives sees of it: the block itself, or what a
list, a quote or a footnote holds. The inside of a directive is a level of its own. A document that
is assembled from events has no directives on its level, whatever the events are, since no event
gives any to an open element that has none (`OpenElement.invariant_bare`).

* `blocksLevel_ofEvents`: no directives in documents from events.
-/

set_option autoImplicit false

namespace RichMarkdown

def Block.isDirective : Block → Bool
  | .directive _ _ => true
  | _ => false

mutual

/-- The blocks on the level of a block, in order. -/
def Block.level : Block → List Block
  | .list _ _ items => itemsLevel items
  | .quote _ children => blocksLevel children
  | .footnote _ children => blocksLevel children
  | b => [b]

def blocksLevel : List Block → List Block
  | [] => []
  | b :: bs => b.level ++ blocksLevel bs

def itemsLevel : List Item → List Block
  | [] => []
  | ⟨_, children⟩ :: rest => blocksLevel children ++ itemsLevel rest

end

theorem blocksLevel_append (xs ys : List Block) :
    blocksLevel (xs ++ ys) = blocksLevel xs ++ blocksLevel ys := by
  induction xs with
  | nil => rfl
  | cons x xs ih => rw [List.cons_append, blocksLevel, blocksLevel, ih, List.append_assoc]

theorem mem_blocksLevel {c : Block} {bs : List Block} :
    c ∈ blocksLevel bs ↔ ∃ b ∈ bs, c ∈ b.level := by
  induction bs with
  | nil => simp [blocksLevel]
  | cons b bs ih => simp [blocksLevel, ih]

theorem mem_itemsLevel {c : Block} {is : List Item} :
    c ∈ itemsLevel is ↔ ∃ i ∈ is, c ∈ blocksLevel i.children := by
  induction is with
  | nil => simp [itemsLevel]
  | cons i is ih =>
    obtain ⟨task, children⟩ := i
    simp [itemsLevel, ih]

/-- A directive is a level of its own. -/
theorem level_of_isDirective {b : Block} (h : b.isDirective = true) : b.level = [b] := by
  cases b with
  | directive head children => rfl
  | _ => cases h

/-! ## Documents from events -/

namespace OpenElement

/-- An open element that has collected no directives. -/
structure Bare (e : OpenElement) : Prop where
  blocks : ∀ b ∈ blocksLevel e.blocks, b.isDirective = false
  items : ∀ b ∈ itemsLevel e.items, b.isDirective = false

theorem bare_new (element : Element) : Bare { element } where
  blocks := nofun
  items := nofun

variable {e parent : OpenElement}

theorem Bare.wrapInlines (h : e.Bare) : e.wrapInlines.Bare := by
  unfold OpenElement.wrapInlines
  split
  · exact h
  · exact { h with blocks := List.forall_mem_cons.mpr ⟨rfl, h.blocks⟩ }

theorem Bare.addBlock (h : e.Bare) {b : Block} (hb : ∀ c ∈ b.level, c.isDirective = false) :
    (e.addBlock b).Bare :=
  { h.wrapInlines with blocks := List.forall_mem_append.mpr ⟨hb, h.wrapInlines.blocks⟩ }

theorem Bare.addInline (h : e.Bare) (i : Inline) : (e.addInline i).Bare := by
  unfold OpenElement.addInline
  split
  · exact { h with }
  · exact { h with }

theorem Bare.addBlocks (h : e.Bare) {bs : List Block}
    (hb : ∀ b ∈ bs, ∀ c ∈ b.level, c.isDirective = false) :
    (bs.foldl OpenElement.addBlock e).Bare := by
  induction bs generalizing e with
  | nil => exact h
  | cons b bs ih =>
    obtain ⟨hhead, htail⟩ := List.forall_mem_cons.mp hb
    exact ih (h.addBlock hhead) htail

/-- An element that ends hands no directives to the element around it. -/
theorem Bare.handTo (hp : parent.Bare) (he : e.Bare) : (parent.handTo e).Bare := by
  unfold OpenElement.handTo
  have hw : (if e.wrapsInlines then e.wrapInlines else e).Bare := by
    split
    · exact he.wrapInlines
    · exact he
  generalize (if e.wrapsInlines then e.wrapInlines else e) = e at hw
  have leaf (b : Block) (hl : b.level = [b]) (hb : b.isDirective = false) :
      (parent.addBlock b).Bare := by
    refine hp.addBlock ?_
    rw [hl]
    exact List.forall_mem_singleton.mpr hb
  have hblocks : ∀ c ∈ blocksLevel e.blocks.reverse, c.isDirective = false := by
    intro c hc
    obtain ⟨b, hb, hc⟩ := mem_blocksLevel.mp hc
    exact hw.blocks c (mem_blocksLevel.mpr ⟨b, List.mem_reverse.mp hb, hc⟩)
  dsimp only
  split
  case h_1 => exact leaf _ rfl rfl
  case h_2 => exact leaf _ rfl rfl
  case h_3 => exact hp.addBlock hblocks
  case h_4 => exact leaf _ rfl rfl
  case h_5 => exact leaf _ rfl rfl
  case h_6 => exact leaf _ rfl rfl
  case h_7 =>
    refine hp.addBlock fun c hc => ?_
    obtain ⟨i, hi, hc⟩ := mem_itemsLevel.mp hc
    exact hw.items c (mem_itemsLevel.mpr ⟨i, List.mem_reverse.mp hi, hc⟩)
  case h_8 => exact { hp with items := List.forall_mem_append.mpr ⟨hblocks, hp.items⟩ }
  case h_9 => exact hp.addBlock hblocks
  case h_10 => exact leaf _ rfl rfl
  case h_11 => exact { hp with }
  case h_12 => exact { hp with }
  case h_13 => exact { hp with }
  case h_14 => exact hp.addInline _
  case h_15 => exact hp.addInline _
  case h_16 =>
    exact hp.addBlocks fun b hb c hc => hblocks c (mem_blocksLevel.mpr ⟨b, hb, hc⟩)

/-- No event is a directive. -/
theorem invariant_bare : Invariant Bare where
  new := bare_new
  loosen h := { h with }
  setTask _ h := { h with }
  addLiteral _ h := { h with }
  addInline _ h := h.addInline _
  addHtml s h := h.addBlock (b := .html s) (List.forall_mem_singleton.mpr rfl)
  addRule h := h.addBlock (b := .rule) (List.forall_mem_singleton.mpr rfl)
  wrapInlines h := h.wrapInlines
  handTo hp he := hp.handTo he

end OpenElement

/-- **Only placing makes directives**: there are none in a document from events. -/
theorem blocksLevel_ofEvents (events : List Event) :
    ∀ b ∈ blocksLevel (Document.ofEvents events), b.isDirective = false := by
  intro b hb
  obtain ⟨e, he, hroot⟩ := OpenElement.invariant_bare.exists_root events
  obtain ⟨c, hc, hb⟩ := mem_blocksLevel.mp (hroot ▸ hb)
  exact he.blocks b (mem_blocksLevel.mpr ⟨c, List.mem_reverse.mp hc, hb⟩)

end RichMarkdown
