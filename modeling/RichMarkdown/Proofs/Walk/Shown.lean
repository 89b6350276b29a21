import RichMarkdown.Proofs.Document.Shown
import RichMarkdown.Proofs.Walk.Congruence

/-!
# What a walk shows

A walk meets the parts that a document shows in their order. `Walk.Showing b p P` lists what a
relation `P` between a visit and the parts it shows must be closed under, where every piece of text
comes with the leaf or the frame that shows it; then it holds of the walk of any document all of
whose leaves have the property `p` and the parts that the tree shows (`Walk.Showing.blocks`).
-/

set_option autoImplicit false

namespace RichMarkdown

/-- What is shown of a leaf, the numbers of footnotes apart. -/
def Leaf.shown : Leaf → List Shown
  | .text s | .code s => [.text s]
  | .softBreak => [.text "\n"]
  | .codeBlock language literal => [.code language literal]
  | .lineBreak | .inlineHtml _ | .image _ _ _ | .footnoteReference _ _ | .rule | .htmlBlock _
  | .metadata _ => []

/-- The texts shown at the start of a frame, the numbers of footnotes apart. -/
def Frame.texts : Frame → List String
  | .item _ task => taskTexts task
  | .quote alert => alertTexts alert
  | .directive head => titleTexts head.name head.label
  | _ => []

/-- Whether a leaf carries the number of a footnote. -/
def Leaf.isNumbered : Leaf → Bool
  | .footnoteReference _ _ => true
  | _ => false

/-- Whether a frame carries the number of a footnote. -/
def Frame.isNumbered : Frame → Bool
  | .footnote _ _ => true
  | _ => false

namespace Walk

variable {σ : Type}

/-- A relation between visits and what they show that is kept by all that walks are made of. -/
structure Showing (b : Backend σ) (p : Leaf → Prop)
    (P : (State σ → State σ) → List Shown → Prop) : Prop where
  idle : P id []
  seq {v w xs ys} : P v xs → P w ys → P (w ∘ v) (xs ++ ys)
  /-- The visit may depend on the context. -/
  choose {v : Context → State σ → State σ} {xs} :
    (∀ c, P (v c) xs) → P (fun s => v s.context s) xs
  inside (c : Container) {v xs} : P v xs → P (inside c v) xs
  leaf {l} : p l → l.isNumbered = false → P (leaf b l) l.shown
  /-- The space after the argument of a command. -/
  space : p (.text " ")
  reference {label} : (∀ n, p (.footnoteReference label n)) →
    P (numbered label fun n => Walk.leaf b (.footnoteReference label n)) [.footnote label]
  framed {f v xs} : f.defaultFlow = .enter → f.isNumbered = false → P v xs →
    P (framed b f v) (f.texts.map .text ++ xs)
  footnote (label : String) {v xs} : P v xs →
    P (numbered label fun n => Walk.framed b (.footnote label n) v) (.footnote label :: xs)
  headed (level : Nat) (text : String) {v xs} : P v xs → P (headed b level text v) xs
  /-- Nothing is shown of a frame that is skipped. -/
  comment {f : Frame} (v : State σ → State σ) : f.defaultFlow = .skip → P (Walk.framed b f v) []

namespace Showing

variable {b : Backend σ} {p : Leaf → Prop} {P : (State σ → State σ) → List Shown → Prop}
  (h : Showing b p P)
include h

/-- Most frames show nothing of their own. -/
theorem plainFramed {f : Frame} (hf : f.texts = []) (hn : f.isNumbered = false)
    (hflow : f.defaultFlow = .enter) {v : State σ → State σ} {xs : List Shown} (hv : P v xs) :
    P (Walk.framed b f v) xs := by
  have hshown := h.framed hflow hn hv
  rwa [hf, List.map_nil, List.nil_append] at hshown

theorem paragraph {v : State σ → State σ} {xs : List Shown} (hv : P v xs) :
    P (Walk.paragraph b v) xs := by
  rw [paragraph_eq]
  exact h.choose fun c => h.plainFramed (f := .paragraph c.inTightItem) rfl rfl rfl hv

/-! ### Inlines -/

mutual

theorem inline : ∀ i : Inline, i.EveryLeaf p → P (Walk.inline b i) i.shown
  | .text _, hi | .code _, hi | .softBreak, hi | .lineBreak, hi | .html _, hi
  | .image _ _ _, hi => h.leaf hi rfl
  | .footnote _, hi => h.reference hi
  | .marked _ children, hi => h.plainFramed rfl rfl rfl (inlines children hi)
  | .directive name attributes content, hi => by
    rw [Inline.shown]
    split
    · rename_i hn
      exact h.comment _ (if_pos hn)
    · rename_i hn
      have hflow : (Frame.inlineDirective name attributes).defaultFlow = .enter := if_neg hn
      exact h.plainFramed rfl rfl hflow (inlines content hi)

theorem inlines : ∀ is : List Inline, inlinesEveryLeaf p is →
    P (Walk.inlines b is) (inlinesShown is)
  | [], _ => h.idle
  | i :: is, hi => h.seq (inline i hi.1) (inlines is hi.2)

end

theorem cells (t : Table) (header : Bool) : ∀ (column : Nat) (cs : List (List Inline)),
    rowEveryLeaf p cs → P (Walk.cells b t header column cs) (rowShown cs)
  | _, [], _ => h.idle
  | column, cell :: rest, hc =>
    h.seq (h.plainFramed rfl rfl rfl (h.inlines cell (hc cell List.mem_cons_self)))
      (cells t header (column + 1) rest fun c hm => hc c (List.mem_cons_of_mem _ hm))

theorem rows (t : Table) : ∀ rs : List (List (List Inline)), (∀ r ∈ rs, rowEveryLeaf p r) →
    P (Walk.rows b t rs) (rs.flatMap rowShown)
  | [], _ => h.idle
  | r :: rs, hr =>
    h.seq (h.plainFramed rfl rfl rfl (h.cells t false 0 r (hr r List.mem_cons_self)))
      (rows t rs fun r' hm => hr r' (List.mem_cons_of_mem _ hm))

theorem commandArgument (c : Command) (hc : ∀ a, c.argument = some a → p (.code a)) :
    P (Walk.commandArgument b c) c.argumentShown := by
  unfold Walk.commandArgument Command.argumentShown
  cases ha : c.argument with
  | none => exact h.idle
  | some a =>
    refine h.seq (h.leaf (hc a ha) rfl) ?_
    cases c.content.isEmpty
    · exact h.leaf h.space rfl
    · exact h.idle

theorem leafLabel (head : Directive) (hl : head.kind = .leaf → inlinesEveryLeaf p head.label) :
    P (Walk.leafLabel b head) head.labelShown := by
  unfold Walk.leafLabel Directive.labelShown
  by_cases hk : head.kind = .leaf
  · have hlabel := h.inlines head.label (hl hk)
    cases he : head.label with
    | nil => simpa [hk, inlinesShown] using h.idle
    | cons i is =>
      rw [he] at hlabel
      simpa [hk] using h.paragraph hlabel
  · simpa [hk] using h.idle

/-! ### Blocks -/

mutual

theorem block : ∀ x : Block, x.EveryLeaf p → P (Walk.block b x) x.shown
  | .paragraph content, hx => h.paragraph (h.inlines content hx)
  | .heading level content, hx => h.headed level (plainText content) (h.inlines content hx)
  | .code _ _, hx | .rule, hx | .html _, hx | .metadata _, hx => h.leaf hx rfl
  | .list start tight children, hx =>
    h.plainFramed rfl rfl rfl (h.inside _ (items tight start children hx))
  | .quote _ children, hx => h.framed rfl rfl (h.inside _ (blocks children hx))
  | .table t, hx =>
    h.plainFramed rfl rfl rfl
      (h.seq (h.plainFramed rfl rfl rfl (h.cells t true 0 t.header hx.1)) (h.rows t t.rows hx.2))
  | .footnote label children, hx => h.footnote label (h.inside _ (blocks children hx))
  | .directive head children, hx => by
    rw [Block.shown]
    split
    · rename_i hn
      exact h.comment _ (if_pos hn)
    · rename_i hn
      exact h.framed (if_neg hn) rfl
        (h.inside _ (h.seq (h.leafLabel head hx.1) (blocks children hx.2)))
  | .command c, hx =>
    h.plainFramed rfl rfl rfl
      (h.paragraph (h.seq (h.commandArgument c hx.1) (h.inlines c.content hx.2)))

theorem blocks : ∀ xs : List Block, blocksEveryLeaf p xs → P (Walk.blocks b xs) (blocksShown xs)
  | [], _ => h.idle
  | x :: xs, hx => h.seq (block x hx.1) (blocks xs hx.2)

theorem items (tight : Bool) : ∀ (number : Option UInt64) (is : List Item), itemsEveryLeaf p is →
    P (Walk.items b tight number is) (itemsShown is)
  | _, [], _ => h.idle
  | number, ⟨_, children⟩ :: rest, hi =>
    h.seq (h.framed rfl rfl (h.inside _ (blocks children hi.1)))
      (items tight (number.map nextNumber) rest hi.2)

end

end Showing

end Walk

end RichMarkdown
