import RichMarkdown.Proofs.Walk.Outline

/-!
# Blocks and inlines of an outline

An outline has one shape for all nodes of a document. That inlines do not hold blocks, and that
blocks stand only where blocks may stand, is a property of the outlines that documents have
(`Outline.Sorted`, `sorted_blocksOutline`).
-/

set_option autoImplicit false

namespace RichMarkdown

def Leaf.isBlock : Leaf → Bool
  | .codeBlock _ _ | .rule | .htmlBlock _ | .metadata _ => true
  | _ => false

/-- Rows count as blocks, and their cells as inlines. -/
def Node.isBlock : Node → Bool
  | .marked _ | .inlineDirective _ _ | .cell _ _ _ => false
  | _ => true

def Node.holdsBlocks : Node → Bool
  | .list _ _ | .item _ _ _ | .quote _ | .table _ | .footnote _ | .directive _ | .command _ => true
  | _ => false

mutual

/-- The outline of a block, or else of an inline, with blocks and inlines in their places. -/
def Outline.Sorted (block : Bool) : Outline → Prop
  | .leaf l => l.isBlock = block
  | .reference _ => block = false
  | .node n inside => n.isBlock = block ∧ outlinesSorted n.holdsBlocks inside

def outlinesSorted (block : Bool) : List Outline → Prop
  | [] => True
  | o :: os => o.Sorted block ∧ outlinesSorted block os

end

/-- The kinds of nodes that count as blocks. -/
def Kind.isBlock : Kind → Bool
  | .block | .item | .row => true
  | .inline | .cell => false

theorem Leaf.isBlock_eq {l : Leaf} {kind : Kind} (h : l.kind? = some kind) :
    l.isBlock = kind.isBlock := by
  cases l with
  | footnoteReference => cases h
  | _ =>
    obtain rfl := Option.some.inj h
    rfl

theorem Node.isBlock_eq (n : Node) : n.isBlock = n.kind.isBlock := by cases n <;> rfl

theorem Node.holdsBlocks_eq (n : Node) : n.holdsBlocks = n.holds.isBlock := by cases n <;> rfl

mutual

theorem sorted_outline {kind : Kind} : ∀ o : Outline, o.OfKind kind → o.Sorted kind.isBlock
  | .leaf _, h => Leaf.isBlock_eq h
  | .reference _, h => congrArg Kind.isBlock h
  | .node n inside, ⟨hkind, hinside⟩ => by
    rw [Outline.Sorted, n.isBlock_eq, n.holdsBlocks_eq, hkind]
    exact ⟨rfl, sorted_outlines inside hinside⟩

theorem sorted_outlines {kind : Kind} :
    ∀ os : List Outline, outlinesOfKind kind os → outlinesSorted kind.isBlock os
  | [], _ => trivial
  | o :: os, h => ⟨sorted_outline o h.1, sorted_outlines os h.2⟩

end

/-- **Blocks and inlines are in their places** in the outline of a document. -/
theorem sorted_blocksOutline (xs : List Block) : outlinesSorted true (blocksOutline xs) :=
  sorted_outlines _ (ofKind_blocksOutline xs)

end RichMarkdown
