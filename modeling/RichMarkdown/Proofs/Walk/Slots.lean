import RichMarkdown.Proofs.Walk.Outline

/-!
# Slots

A document around the place of one node, at any depth: `BlockSlot` is a document around a block, and
`InlineSlot` a label around a text or a code. A walk comes to every slot, since no node around it is
a comment. In an outline both are slots of one kind (`OutlineSlot`), so what a walk makes of all
that stands around a slot is one induction with two cases.

* `InlineSlot.exists_outline`, `BlockSlot.exists_outline`: the outline of a filled slot is an
  outline around that of the filling, whatever the filling is.
* `InlineSlot.plainText_fill`: the text of a filled label.
-/

set_option autoImplicit false

namespace RichMarkdown

/-! ## Outlines -/

theorem inlinesOutline_append (xs ys : List Inline) :
    inlinesOutline (xs ++ ys) = inlinesOutline xs ++ inlinesOutline ys := by
  induction xs with
  | nil => rfl
  | cons x xs ih => exact congrArg (x.outline :: ·) ih

theorem blocksOutline_append (xs ys : List Block) :
    blocksOutline (xs ++ ys) = blocksOutline xs ++ blocksOutline ys := by
  induction xs with
  | nil => rfl
  | cons x xs ih => exact congrArg (x.outline :: ·) ih

/-- The items after some others have their number from these. -/
theorem exists_itemsOutline_append (tight : Bool) (number : Option UInt64) (xs : List Item) :
    ∃ number', ∀ ys, itemsOutline tight number (xs ++ ys) =
      itemsOutline tight number xs ++ itemsOutline tight number' ys := by
  induction xs generalizing number with
  | nil => exact ⟨number, fun _ => rfl⟩
  | cons x xs ih =>
    obtain ⟨task, children⟩ := x
    obtain ⟨number', hxs⟩ := ih (number.map Walk.nextNumber)
    refine ⟨number', fun ys => ?_⟩
    rw [List.cons_append, itemsOutline, itemsOutline, hxs]
    rfl

/-- Outlines around one of them, in nodes that a walk enters. -/
inductive OutlineSlot where
  | here (before after : List Outline)
  | node (before : List Outline) (n : Node) (entered : ∀ c, (n.frame c).defaultFlow = .enter)
    (inside : OutlineSlot) (after : List Outline)

namespace OutlineSlot

/-- The outlines with this one in the slot. -/
def fill (o : Outline) : OutlineSlot → List Outline
  | here before after => before ++ o :: after
  | node before n _ inside after => before ++ .node n (inside.fill o) :: after

/-- The slot with further outlines before it. -/
def behind (os : List Outline) : OutlineSlot → OutlineSlot
  | here before after => here (os ++ before) after
  | node before n entered inside after => node (os ++ before) n entered inside after

theorem fill_behind (o : Outline) (os : List Outline) (s : OutlineSlot) :
    (s.behind os).fill o = os ++ s.fill o := by
  cases s <;> exact List.append_assoc os _ _

end OutlineSlot

/-! ## Labels -/

theorem plainText_append (xs ys : List Inline) :
    plainText (xs ++ ys) = plainText xs ++ plainText ys := by
  induction xs with
  | nil => exact (String.empty_append).symm
  | cons x xs ih => rw [List.cons_append, plainText, plainText, ih, String.append_assoc]

/-- Inlines around a text or a code that a walk visits. -/
inductive InlineSlot where
  | text (before after : List Inline)
  | code (before after : List Inline)
  | marked (before : List Inline) (mark : Mark) (inside : InlineSlot) (after : List Inline)
  | directive (before : List Inline) (name : String) (attributes : Attributes)
    (shown : isCommentName name = false) (inside : InlineSlot) (after : List Inline)

namespace InlineSlot

/-- The inlines with this text in the slot. -/
def fill (t : String) : InlineSlot → List Inline
  | text before after => before ++ .text t :: after
  | code before after => before ++ .code t :: after
  | marked before mark inside after => before ++ .marked mark (inside.fill t) :: after
  | directive before name attributes _ inside after =>
    before ++ .directive name attributes (inside.fill t) :: after

/-- The leaf that a walk visits at the slot. -/
def leaf (t : String) : InlineSlot → Leaf
  | text _ _ => .text t
  | code _ _ => .code t
  | marked _ _ inside _ => inside.leaf t
  | directive _ _ _ _ inside _ => inside.leaf t

/-- The text of all inlines before the slot, without marks. -/
def textBefore : InlineSlot → String
  | text before _ | code before _ => plainText before
  | marked before _ inside _ | directive before _ _ _ inside _ =>
    plainText before ++ inside.textBefore

/-- The text of all inlines after the slot, without marks. -/
def textAfter : InlineSlot → String
  | text _ after | code _ after => plainText after
  | marked _ _ inside after | directive _ _ _ _ inside after =>
    inside.textAfter ++ plainText after

theorem leaf_cases (p : InlineSlot) : (∀ t, p.leaf t = .text t) ∨ ∀ t, p.leaf t = .code t := by
  induction p with
  | text before after => exact .inl fun _ => rfl
  | code before after => exact .inr fun _ => rfl
  | marked before mark inside after ih => exact ih
  | directive before name attributes shown inside after ih => exact ih

theorem isEmpty_fill (p : InlineSlot) (t : String) : (p.fill t).isEmpty = false := by
  cases p <;> simp [fill]

theorem exists_outline (p : InlineSlot) :
    ∃ s : OutlineSlot, ∀ t, inlinesOutline (p.fill t) = s.fill (.leaf (p.leaf t)) := by
  induction p with
  | text before after | code before after =>
    exact ⟨.here (inlinesOutline before) (inlinesOutline after), fun t =>
      inlinesOutline_append before _⟩
  | marked before mark inside after ih =>
    obtain ⟨s, hs⟩ := ih
    refine ⟨.node (inlinesOutline before) (.marked mark) (fun _ => rfl) s
      (inlinesOutline after), fun t => ?_⟩
    rw [fill, inlinesOutline_append, inlinesOutline, Inline.outline, hs]
    rfl
  | directive before name attributes shown inside after ih =>
    obtain ⟨s, hs⟩ := ih
    refine ⟨.node (inlinesOutline before) (.inlineDirective name attributes)
      (fun _ => if_neg (by simp [shown])) s (inlinesOutline after), fun t => ?_⟩
    rw [fill, inlinesOutline_append, inlinesOutline, Inline.outline, hs]
    rfl

/-- **The text of a label** is that of its slot, between the texts before and after it. -/
theorem plainText_fill (p : InlineSlot) (t : String) :
    plainText (p.fill t) = p.textBefore ++ (t ++ p.textAfter) := by
  induction p with
  | text before after | code before after =>
    rw [fill, plainText_append, plainText]
    rfl
  | marked before mark inside after ih | directive before name attributes shown inside after ih =>
    rw [fill, plainText_append, plainText, Inline.plainText, ih, textBefore, textAfter]
    simp only [String.append_assoc]

end InlineSlot

/-! ## Documents -/

/-- Blocks around one of them that a walk visits. -/
inductive BlockSlot where
  | here (before after : List Block)
  | quote (before : List Block) (alert : Option Alert) (inside : BlockSlot) (after : List Block)
  | footnote (before : List Block) (label : String) (inside : BlockSlot) (after : List Block)
  | item (before : List Block) (start : Option UInt64) (tight : Bool) (itemsBefore : List Item)
    (task : Option Bool) (inside : BlockSlot) (itemsAfter : List Item) (after : List Block)
  | directive (before : List Block) (head : Directive) (shown : isCommentName head.name = false)
    (inside : BlockSlot) (after : List Block)

namespace BlockSlot

/-- The blocks with this one in the slot. -/
def fill (x : Block) : BlockSlot → List Block
  | here before after => before ++ x :: after
  | quote before alert inside after => before ++ .quote alert (inside.fill x) :: after
  | footnote before label inside after => before ++ .footnote label (inside.fill x) :: after
  | item before start tight itemsBefore task inside itemsAfter after =>
    before ++ .list start tight (itemsBefore ++ ⟨task, inside.fill x⟩ :: itemsAfter) :: after
  | directive before head _ inside after => before ++ .directive head (inside.fill x) :: after

theorem exists_outline (p : BlockSlot) :
    ∃ s : OutlineSlot, ∀ x, blocksOutline (p.fill x) = s.fill x.outline := by
  induction p with
  | here before after =>
    exact ⟨.here (blocksOutline before) (blocksOutline after), fun x =>
      blocksOutline_append before _⟩
  | quote before alert inside after ih =>
    obtain ⟨s, hs⟩ := ih
    refine ⟨.node (blocksOutline before) (.quote alert) (fun _ => rfl) s
      (blocksOutline after), fun x => ?_⟩
    rw [fill, blocksOutline_append, blocksOutline, Block.outline, hs]
    rfl
  | footnote before label inside after ih =>
    obtain ⟨s, hs⟩ := ih
    refine ⟨.node (blocksOutline before) (.footnote label) (fun _ => rfl) s
      (blocksOutline after), fun x => ?_⟩
    rw [fill, blocksOutline_append, blocksOutline, Block.outline, hs]
    rfl
  | item before start tight itemsBefore task inside itemsAfter after ih =>
    obtain ⟨s, hs⟩ := ih
    obtain ⟨number, hitems⟩ := exists_itemsOutline_append tight start itemsBefore
    refine ⟨.node (blocksOutline before) (.list start tight) (fun _ => rfl)
      (.node (itemsOutline tight start itemsBefore) (.item (Walk.marker number) task tight)
        (fun _ => rfl) s (itemsOutline tight (number.map Walk.nextNumber) itemsAfter))
      (blocksOutline after), fun x => ?_⟩
    rw [fill, blocksOutline_append, blocksOutline, Block.outline, hitems, itemsOutline, hs]
    rfl
  | directive before head shown inside after ih =>
    obtain ⟨s, hs⟩ := ih
    refine ⟨.node (blocksOutline before) (.directive head) (fun _ => if_neg (by simp [shown]))
      (s.behind head.labelOutline) (blocksOutline after), fun x => ?_⟩
    rw [fill, blocksOutline_append, blocksOutline, Block.outline, hs, ← s.fill_behind]
    rfl

end BlockSlot

end RichMarkdown
