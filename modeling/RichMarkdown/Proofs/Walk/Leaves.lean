import RichMarkdown.Render.Walk

/-!
# The leaves of a tree

`blocksEveryLeaf p d`: every leaf that a walk can meet in the document `d` has the property `p`,
whatever the backend skips. The alternative text of an image counts as part of its leaf, and the
label of a directive only where the walk visits it.
-/

set_option autoImplicit false

namespace RichMarkdown

mutual

/-- All leaves that a walk can meet in an inline have a property. -/
def Inline.EveryLeaf (p : Leaf → Prop) : Inline → Prop
  | .text t => p (.text t)
  | .code t => p (.code t)
  | .softBreak => p .softBreak
  | .lineBreak => p .lineBreak
  | .html t => p (.inlineHtml t)
  | .footnote label => ∀ n, p (.footnoteReference label n)
  | .marked _ children => inlinesEveryLeaf p children
  | .image source title alt => p (.image source title (plainText alt))
  | .directive _ _ content => inlinesEveryLeaf p content

/-- All leaves that a walk can meet in inlines have a property. -/
def inlinesEveryLeaf (p : Leaf → Prop) : List Inline → Prop
  | [] => True
  | i :: is => i.EveryLeaf p ∧ inlinesEveryLeaf p is

end

/-- All leaves that a walk can meet in the cells of a row have a property. -/
def rowEveryLeaf (p : Leaf → Prop) (cells : List (List Inline)) : Prop :=
  ∀ cell ∈ cells, inlinesEveryLeaf p cell

mutual

/-- All leaves that a walk can meet in a block have a property. -/
def Block.EveryLeaf (p : Leaf → Prop) : Block → Prop
  | .paragraph content => inlinesEveryLeaf p content
  | .heading _ content => inlinesEveryLeaf p content
  | .code language literal => p (.codeBlock language literal)
  | .list _ _ items => itemsEveryLeaf p items
  | .quote _ children => blocksEveryLeaf p children
  | .rule => p .rule
  | .html t => p (.htmlBlock t)
  | .table t => rowEveryLeaf p t.header ∧ ∀ row ∈ t.rows, rowEveryLeaf p row
  | .footnote _ children => blocksEveryLeaf p children
  | .metadata t => p (.metadata t)
  | .directive head children =>
    (head.kind = .leaf → inlinesEveryLeaf p head.label) ∧ blocksEveryLeaf p children
  | .command c => (∀ a, c.argument = some a → p (.code a)) ∧ inlinesEveryLeaf p c.content

/-- All leaves that a walk can meet in blocks have a property. -/
def blocksEveryLeaf (p : Leaf → Prop) : List Block → Prop
  | [] => True
  | x :: xs => x.EveryLeaf p ∧ blocksEveryLeaf p xs

/-- All leaves that a walk can meet in list items have a property. -/
def itemsEveryLeaf (p : Leaf → Prop) : List Item → Prop
  | [] => True
  | ⟨_, children⟩ :: rest => blocksEveryLeaf p children ∧ itemsEveryLeaf p rest

end

mutual

theorem Inline.everyLeaf_of_forall {p : Leaf → Prop} (hp : ∀ l, p l) :
    ∀ i : Inline, i.EveryLeaf p
  | .text _ | .code _ | .softBreak | .lineBreak | .html _ | .image _ _ _ => hp _
  | .footnote _ => fun _ => hp _
  | .marked _ children => inlinesEveryLeaf_of_forall hp children
  | .directive _ _ content => inlinesEveryLeaf_of_forall hp content

theorem inlinesEveryLeaf_of_forall {p : Leaf → Prop} (hp : ∀ l, p l) :
    ∀ is : List Inline, inlinesEveryLeaf p is
  | [] => trivial
  | i :: is => ⟨i.everyLeaf_of_forall hp, inlinesEveryLeaf_of_forall hp is⟩

end

mutual

theorem Block.everyLeaf_of_forall {p : Leaf → Prop} (hp : ∀ l, p l) :
    ∀ x : Block, x.EveryLeaf p
  | .paragraph content | .heading _ content => inlinesEveryLeaf_of_forall hp content
  | .code _ _ | .rule | .html _ | .metadata _ => hp _
  | .list _ _ items => itemsEveryLeaf_of_forall hp items
  | .quote _ children | .footnote _ children => blocksEveryLeaf_of_forall hp children
  | .table _ => ⟨fun cell _ => inlinesEveryLeaf_of_forall hp cell,
      fun _ _ cell _ => inlinesEveryLeaf_of_forall hp cell⟩
  | .directive head children =>
    ⟨fun _ => inlinesEveryLeaf_of_forall hp head.label, blocksEveryLeaf_of_forall hp children⟩
  | .command c => ⟨fun _ _ => hp _, inlinesEveryLeaf_of_forall hp c.content⟩

theorem blocksEveryLeaf_of_forall {p : Leaf → Prop} (hp : ∀ l, p l) :
    ∀ xs : List Block, blocksEveryLeaf p xs
  | [] => trivial
  | x :: xs => ⟨x.everyLeaf_of_forall hp, blocksEveryLeaf_of_forall hp xs⟩

theorem itemsEveryLeaf_of_forall {p : Leaf → Prop} (hp : ∀ l, p l) :
    ∀ is : List Item, itemsEveryLeaf p is
  | [] => trivial
  | ⟨_, children⟩ :: rest =>
    ⟨blocksEveryLeaf_of_forall hp children, itemsEveryLeaf_of_forall hp rest⟩

end

end RichMarkdown
