import Mathlib.Data.List.Chain
import RichMarkdown.Proofs.Markdown.Assembly

/-!
# Merged text

`blocksMerged d`: nowhere in the document `d` do two texts stand side by side. A document that is
assembled from events is merged, whatever the events are: an open element that holds merged content
(`OpenElement.Merged`) still does after one more event (`OpenElement.invariant_merged`), and so does
the element around it when it ends (`OpenElement.Merged.handTo`).

* `blocksMerged_ofEvents`: documents from events are merged.
-/

set_option autoImplicit false

namespace RichMarkdown

def Inline.isText : Inline → Bool
  | .text _ => true
  | _ => false

/-- Not both of two neighbours are text. -/
def Inline.Apart (i j : Inline) : Prop := i.isText = false ∨ j.isText = false

mutual

/-- Nowhere in an inline do two texts stand side by side. -/
def Inline.Merged : Inline → Prop
  | .marked _ children => inlinesMerged children
  | .image _ _ alt => inlinesMerged alt
  | .directive _ _ content => inlinesMerged content
  | .text _ | .code _ | .softBreak | .lineBreak | .html _ | .footnote _ => True

/-- Nowhere in inlines do two texts stand side by side. -/
def inlinesMerged : List Inline → Prop
  | [] => True
  | i :: is => i.Merged ∧ (∀ j ∈ is.head?, i.Apart j) ∧ inlinesMerged is

end

/-- Nowhere in the cells of a row do two texts stand side by side. -/
def rowMerged (cells : List (List Inline)) : Prop := ∀ cell ∈ cells, inlinesMerged cell

mutual

/-- Nowhere in a block do two texts stand side by side. -/
def Block.Merged : Block → Prop
  | .paragraph content => inlinesMerged content
  | .heading _ content => inlinesMerged content
  | .list _ _ items => itemsMerged items
  | .quote _ children => blocksMerged children
  | .footnote _ children => blocksMerged children
  | .table t => rowMerged t.header ∧ ∀ row ∈ t.rows, rowMerged row
  | .directive head children => inlinesMerged head.label ∧ blocksMerged children
  | .command c => inlinesMerged c.content
  | .code _ _ | .rule | .html _ | .metadata _ => True

/-- Nowhere in blocks do two texts stand side by side. -/
def blocksMerged : List Block → Prop
  | [] => True
  | b :: bs => b.Merged ∧ blocksMerged bs

/-- Nowhere in list items do two texts stand side by side. -/
def itemsMerged : List Item → Prop
  | [] => True
  | ⟨_, children⟩ :: rest => blocksMerged children ∧ itemsMerged rest

end

/-! ## Lists -/

theorem Inline.Apart.symm {i j : Inline} (h : i.Apart j) : j.Apart i := Or.symm h

theorem inlinesMerged_iff (is : List Inline) :
    inlinesMerged is ↔ (∀ i ∈ is, i.Merged) ∧ is.IsChain Inline.Apart := by
  induction is with
  | nil => simp [inlinesMerged]
  | cons i is ih =>
    rw [inlinesMerged, ih, List.forall_mem_cons, List.isChain_cons]
    tauto

theorem inlinesMerged_reverse {is : List Inline} (h : inlinesMerged is) :
    inlinesMerged is.reverse := by
  obtain ⟨hm, hc⟩ := (inlinesMerged_iff is).mp h
  refine (inlinesMerged_iff _).mpr ⟨fun i hi => hm i (List.mem_reverse.mp hi), ?_⟩
  exact List.isChain_reverse.mpr (hc.imp fun _ _ => Inline.Apart.symm)

theorem blocksMerged_iff (bs : List Block) : blocksMerged bs ↔ ∀ b ∈ bs, b.Merged := by
  induction bs with
  | nil => simp [blocksMerged]
  | cons b bs ih => rw [blocksMerged, ih, List.forall_mem_cons]

theorem itemsMerged_iff (is : List Item) :
    itemsMerged is ↔ ∀ i ∈ is, blocksMerged i.children := by
  induction is with
  | nil => simp [itemsMerged]
  | cons i is ih =>
    obtain ⟨task, children⟩ := i
    rw [itemsMerged, ih, List.forall_mem_cons]

/-! ## Open elements -/

namespace OpenElement

/-- What an open element has collected is merged. -/
structure Merged (e : OpenElement) : Prop where
  blocks : blocksMerged e.blocks
  inlines : inlinesMerged e.inlines
  items : itemsMerged e.items
  header : rowMerged e.header
  rows : ∀ row ∈ e.rows, rowMerged row
  cells : rowMerged e.cells

theorem merged_new (element : Element) : Merged { element } where
  blocks := trivial
  inlines := trivial
  items := trivial
  header := fun _ h => absurd h List.not_mem_nil
  rows := fun _ h => absurd h List.not_mem_nil
  cells := fun _ h => absurd h List.not_mem_nil

variable {e parent : OpenElement}

theorem Merged.wrapInlines (h : e.Merged) : e.wrapInlines.Merged := by
  unfold OpenElement.wrapInlines
  split
  · exact h
  · exact { h with blocks := ⟨inlinesMerged_reverse h.inlines, h.blocks⟩, inlines := trivial }

theorem Merged.addBlock (h : e.Merged) {b : Block} (hb : b.Merged) : (e.addBlock b).Merged :=
  { h.wrapInlines with blocks := ⟨hb, h.wrapInlines.blocks⟩ }

/-- An inline that is not text, or comes after one that is not, is added as it is. -/
theorem addInline_of_apart {i : Inline} (h : ∀ j ∈ e.inlines.head?, i.Apart j) :
    e.addInline i = { e with inlines := i :: e.inlines } := by
  unfold OpenElement.addInline
  split
  · rename_i s t rest he
    rcases h (.text t) (by rw [he]; rfl) with h | h <;> cases h
  · rfl

/-- Text joins text, so a new inline is apart from the one before it. -/
theorem Merged.addInline (h : e.Merged) {i : Inline} (hi : i.Merged) : (e.addInline i).Merged := by
  by_cases ha : ∀ j ∈ e.inlines.head?, i.Apart j
  · rw [addInline_of_apart ha]
    exact { h with inlines := ⟨hi, ha, h.inlines⟩ }
  · obtain ⟨j, hj, hij⟩ : ∃ j ∈ e.inlines.head?, ¬ i.Apart j := by simpa using ha
    obtain ⟨rest, hes⟩ := List.head?_eq_some_iff.mp hj
    cases i with
    | text s =>
      cases j with
      | text t =>
        have hr := h.inlines
        rw [hes] at hr
        simp only [OpenElement.addInline, hes]
        exact { h with inlines := hr }
      | _ => exact absurd (.inr rfl) hij
    | _ => exact absurd (.inl rfl) hij

theorem Merged.addBlocks (h : e.Merged) {bs : List Block} (hb : blocksMerged bs) :
    (bs.foldl OpenElement.addBlock e).Merged := by
  induction bs generalizing e with
  | nil => exact h
  | cons b bs ih => exact ih (h.addBlock hb.1) hb.2

theorem blocksMerged_reverse {bs : List Block} (h : blocksMerged bs) : blocksMerged bs.reverse :=
  (blocksMerged_iff _).mpr fun b hb => (blocksMerged_iff bs).mp h b (List.mem_reverse.mp hb)

/-- **The node of an element that ends is merged**, and with it the element around it. -/
theorem Merged.handTo (hp : parent.Merged) (he : e.Merged) : (parent.handTo e).Merged := by
  unfold OpenElement.handTo
  have hw : (if e.wrapsInlines then e.wrapInlines else e).Merged := by
    split
    · exact he.wrapInlines
    · exact he
  generalize (if e.wrapsInlines then e.wrapInlines else e) = e at hw
  have hi := inlinesMerged_reverse hw.inlines
  have hb := blocksMerged_reverse hw.blocks
  dsimp only
  split
  case h_1 => exact hp.addBlock hi
  case h_2 => exact hp.addBlock hi
  case h_3 => exact hp.addBlock hb
  case h_4 => exact hp.addBlock trivial
  case h_5 => exact hp.addBlock trivial
  case h_6 => exact hp.addBlock trivial
  case h_7 =>
    refine hp.addBlock ((itemsMerged_iff _).mpr fun i him => ?_)
    exact (itemsMerged_iff _).mp hw.items i (List.mem_reverse.mp him)
  case h_8 => exact { hp with items := ⟨hb, hp.items⟩ }
  case h_9 => exact hp.addBlock hb
  case h_10 =>
    exact hp.addBlock ⟨hw.header, fun row hr => hw.rows row (List.mem_reverse.mp hr)⟩
  case h_11 => exact { hp with header := fun cell hc => hw.cells cell (List.mem_reverse.mp hc) }
  case h_12 =>
    refine { hp with rows := List.forall_mem_cons.mpr ⟨fun cell hc => ?_, hp.rows⟩ }
    exact hw.cells cell (List.mem_reverse.mp hc)
  case h_13 => exact { hp with cells := List.forall_mem_cons.mpr ⟨hi, hp.cells⟩ }
  case h_14 => exact hp.addInline hi
  case h_15 => exact hp.addInline hi
  case h_16 => exact hp.addBlocks hb

/-- **Every event keeps the texts merged.** -/
theorem invariant_merged : Invariant Merged where
  new := merged_new
  loosen h := { h with }
  setTask _ h := { h with }
  addLiteral _ h := { h with }
  addInline {_ i} hi h := by
    refine h.addInline ?_
    cases i with
    | marked | image | directive => cases hi
    | _ => trivial
  addHtml s h := h.addBlock (b := .html s) trivial
  addRule h := h.addBlock (b := .rule) trivial
  wrapInlines h := h.wrapInlines
  handTo hp he := hp.handTo he

end OpenElement

/-- Whatever the events are, no two texts stand side by side in the document made of them. -/
theorem blocksMerged_ofEvents (events : List Event) :
    blocksMerged (Document.ofEvents events) := by
  obtain ⟨e, he, hroot⟩ := OpenElement.invariant_merged.exists_root events
  rw [hroot]
  exact OpenElement.blocksMerged_reverse he.blocks

end RichMarkdown
