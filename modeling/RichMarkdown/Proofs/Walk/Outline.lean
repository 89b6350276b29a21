import RichMarkdown.Render.Walk

/-!
# Outlines

The outline of a document is the tree of the nodes that a walk can meet, each node with the nodes in
it, read off the document without any walk (`blocksOutline`). It has one shape for all kinds of
nodes: leaves, and nodes around further nodes. The label of a directive belongs to it only when the
directive has no body, and an image is a leaf with its alternative text.

* `Walk.blocks_eq`: to walk a document is to walk its outline, so an induction over a walk needs
  three cases only.
* `ofKind_blocksOutline`: what a node holds is of the kind that it may hold, so items are nowhere
  but in lists (`itemsListed_blocksOutline`).
-/

set_option autoImplicit false

namespace RichMarkdown

/-! ## Nodes -/

/-- What a document says of a node around further nodes. Only the walk knows the tightness of a
paragraph, the anchor of a heading and the number of a footnote. -/
inductive Node where
  | marked (mark : Mark)
  | inlineDirective (name : String) (attributes : Attributes)
  | paragraph
  | heading (level : Nat) (text : String)
  | list (start : Option UInt64) (tight : Bool)
  /-- An item of a list that is tight or loose. -/
  | item (marker : Marker) (task : Option Bool) (tight : Bool)
  | quote (alert : Option Alert)
  | table (t : Table)
  | row (header : Bool)
  | cell (header : Bool) (column : Nat) (alignment : Alignment)
  | footnote (label : String)
  | directive (head : Directive)
  | command (c : Command)

namespace Node

/-- The container that is open inside a node. -/
def container? : Node → Option Container
  | list start tight => some (.list tight start.isSome)
  | item _ _ tight => some (.item tight)
  | quote _ => some .quote
  | footnote _ => some .footnote
  | directive _ => some .directive
  | _ => none

/-- The frame that is told of a node in a context. -/
def frame : Node → Context → Frame
  | marked mark, _ => .marked mark
  | inlineDirective name attributes, _ => .inlineDirective name attributes
  | paragraph, c => .paragraph c.inTightItem
  | heading level text, c => .heading level (c.registerHeading level text).1
  | list start tight, _ => .list start tight
  | item marker task _, _ => .item marker task
  | quote alert, _ => .quote alert
  | table t, _ => .table t
  | row header, _ => .row header
  | cell header column alignment, _ => .cell header column alignment
  | footnote label, c => .footnote label (c.footnoteNumber label).1
  | directive head, _ => .directive head
  | command c, _ => .command c

/-- The context that has noted a node. -/
def noted : Node → Context → Context
  | heading level text, c => (c.registerHeading level text).2
  | footnote label, c => (c.footnoteNumber label).2
  | _, c => c

end Node

/-! ## The outline of a document -/

inductive Outline where
  | leaf (l : Leaf)
  /-- A footnote reference, whose number only the walk knows. -/
  | reference (label : String)
  | node (n : Node) (inside : List Outline)

mutual

/-- The outline of an inline. -/
def Inline.outline : Inline → Outline
  | .text t => .leaf (.text t)
  | .code t => .leaf (.code t)
  | .softBreak => .leaf .softBreak
  | .lineBreak => .leaf .lineBreak
  | .html t => .leaf (.inlineHtml t)
  | .footnote label => .reference label
  | .marked mark children => .node (.marked mark) (inlinesOutline children)
  | .image source title alt => .leaf (.image source title (plainText alt))
  | .directive name attributes content =>
    .node (.inlineDirective name attributes) (inlinesOutline content)

/-- The outline of inlines, in order. -/
def inlinesOutline : List Inline → List Outline
  | [] => []
  | i :: is => i.outline :: inlinesOutline is

end

/-- The outline of the cells of a row, from the given column on. -/
def cellsOutline (t : Table) (header : Bool) : Nat → List (List Inline) → List Outline
  | _, [] => []
  | column, cell :: rest =>
    .node (.cell header column (t.alignment column)) (inlinesOutline cell) ::
      cellsOutline t header (column + 1) rest

def rowOutline (t : Table) (header : Bool) (cells : List (List Inline)) : Outline :=
  .node (.row header) (cellsOutline t header 0 cells)

/-- The argument of a command as code, with a space when text follows. -/
def Command.argumentOutline (c : Command) : List Outline :=
  match c.argument with
  | none => []
  | some argument =>
    .leaf (.code argument) :: if c.content.isEmpty then [] else [.leaf (.text " ")]

/-- The label of a directive without a body as a paragraph. -/
def Directive.labelOutline (head : Directive) : List Outline :=
  if head.kind = .leaf ∧ ! head.label.isEmpty then [.node .paragraph (inlinesOutline head.label)]
  else []

mutual

/-- The outline of a block. -/
def Block.outline : Block → Outline
  | .paragraph content => .node .paragraph (inlinesOutline content)
  | .heading level content => .node (.heading level (plainText content)) (inlinesOutline content)
  | .code language literal => .leaf (.codeBlock language literal)
  | .list start tight items => .node (.list start tight) (itemsOutline tight start items)
  | .quote alert children => .node (.quote alert) (blocksOutline children)
  | .rule => .leaf .rule
  | .html t => .leaf (.htmlBlock t)
  | .table t => .node (.table t) (rowOutline t true t.header :: t.rows.map (rowOutline t false))
  | .footnote label children => .node (.footnote label) (blocksOutline children)
  | .metadata t => .leaf (.metadata t)
  | .directive head children =>
    .node (.directive head) (head.labelOutline ++ blocksOutline children)
  | .command c =>
    .node (.command c) [.node .paragraph (c.argumentOutline ++ inlinesOutline c.content)]

/-- The outline of blocks, in order. -/
def blocksOutline : List Block → List Outline
  | [] => []
  | b :: bs => b.outline :: blocksOutline bs

/-- The outline of the items of a list, the first of which has the given number. -/
def itemsOutline (tight : Bool) : Option UInt64 → List Item → List Outline
  | _, [] => []
  | number, ⟨task, children⟩ :: rest =>
    .node (.item (Walk.marker number) task tight) (blocksOutline children) ::
      itemsOutline tight (number.map Walk.nextNumber) rest

end

/-! ## Walking an outline -/

namespace Walk

variable {σ : Type} (b : Backend σ)

/-- Visits in a container, if there is one. -/
def insideOf (container : Option Container) (inner : State σ → State σ) : State σ → State σ :=
  match container with
  | none => inner
  | some c => inside c inner

def node (n : Node) (inner : State σ → State σ) (s : State σ) : State σ :=
  framed b (n.frame s.context) (insideOf n.container? inner)
    { s with context := n.noted s.context }

mutual

def outline : Outline → State σ → State σ
  | .leaf l => leaf b l
  | .reference label => numbered label fun n => leaf b (.footnoteReference label n)
  | .node n inside => node b n (outlines inside)

def outlines : List Outline → State σ → State σ
  | [] => id
  | o :: os => outlines os ∘ outline o

end

theorem outlines_append (xs ys : List Outline) :
    outlines b (xs ++ ys) = outlines b ys ∘ outlines b xs := by
  induction xs with
  | nil => rfl
  | cons x xs ih =>
    rw [List.cons_append, outlines, outlines, ih]
    rfl

mutual

theorem inline_eq : ∀ i : Inline, inline b i = outline b i.outline
  | .text _ | .code _ | .softBreak | .lineBreak | .html _ | .footnote _ | .image _ _ _ => rfl
  | .marked mark children =>
    congrArg (framed b (.marked mark)) (inlines_eq children)
  | .directive name attributes content =>
    congrArg (framed b (.inlineDirective name attributes)) (inlines_eq content)

theorem inlines_eq : ∀ is : List Inline, inlines b is = outlines b (inlinesOutline is)
  | [] => rfl
  | i :: is => by
    rw [inlines, inline_eq i, inlines_eq is]
    rfl

end

theorem cells_eq (t : Table) (header : Bool) : ∀ (column : Nat) (cs : List (List Inline)),
    cells b t header column cs = outlines b (cellsOutline t header column cs)
  | _, [] => rfl
  | column, cell :: rest => by
    rw [cells, cellsOutline, outlines, inlines_eq, cells_eq t header (column + 1) rest]
    rfl

theorem row_eq (t : Table) (header : Bool) (cs : List (List Inline)) :
    row b t header cs = outline b (rowOutline t header cs) :=
  congrArg (framed b (.row header)) (cells_eq b t header 0 cs)

theorem rows_eq (t : Table) (rs : List (List (List Inline))) :
    rows b t rs = outlines b (rs.map (rowOutline t false)) := by
  induction rs with
  | nil => rfl
  | cons r rs ih => rw [rows, List.map_cons, outlines, ih, row_eq]

theorem commandArgument_eq (c : Command) :
    commandArgument b c = outlines b c.argumentOutline := by
  unfold commandArgument Command.argumentOutline
  cases c.argument with
  | none => rfl
  | some argument => cases c.content.isEmpty <;> rfl

theorem leafLabel_eq (head : Directive) : leafLabel b head = outlines b head.labelOutline := by
  unfold leafLabel Directive.labelOutline
  split
  · rw [inlines_eq]
    rfl
  · rfl

mutual

theorem block_eq : ∀ x : Block, block b x = outline b x.outline
  | .code _ _ | .rule | .html _ | .metadata _ => rfl
  | .paragraph content => by
    rw [block, inlines_eq]
    rfl
  | .heading level content => by
    have hnode : heading b level content =
        node b (.heading level (plainText content)) (inlines b content) := rfl
    rw [block, hnode, inlines_eq]
    rfl
  | .list start tight children => by
    rw [block, items_eq]
    rfl
  | .quote alert children => by
    rw [block, blocks_eq]
    rfl
  | .table t => by
    rw [block, table, row_eq, rows_eq]
    rfl
  | .footnote label children => by
    rw [block, blocks_eq]
    rfl
  | .directive head children => by
    rw [block, blocks_eq, leafLabel_eq, ← outlines_append]
    rfl
  | .command c => by
    rw [block, command, inlines_eq, commandArgument_eq, ← outlines_append]
    rfl

/-- **Walking a document is walking its outline.** -/
theorem blocks_eq : ∀ xs : List Block, blocks b xs = outlines b (blocksOutline xs)
  | [] => rfl
  | x :: xs => by
    rw [blocks, block_eq x, blocks_eq xs]
    rfl

theorem items_eq (tight : Bool) : ∀ (number : Option UInt64) (is : List Item),
    items b tight number is = outlines b (itemsOutline tight number is)
  | _, [] => rfl
  | number, ⟨_, children⟩ :: rest => by
    rw [items, blocks_eq children, items_eq tight (number.map nextNumber) rest]
    rfl

end

end Walk

/-! ## What stands in what -/

/-- What a node is for the nodes around it. -/
inductive Kind where
  | inline
  | block
  | item
  | row
  | cell
  deriving DecidableEq

/-- The kind of a leaf. A leaf with the number of a footnote has none: an outline does not say the
number. -/
def Leaf.kind? : Leaf → Option Kind
  | .text _ | .code _ | .softBreak | .lineBreak | .inlineHtml _ | .image _ _ _ => some .inline
  | .codeBlock _ _ | .rule | .htmlBlock _ | .metadata _ => some .block
  | .footnoteReference _ _ => none

namespace Node

def kind : Node → Kind
  | marked _ | inlineDirective _ _ => .inline
  | item _ _ _ => .item
  | row _ => .row
  | cell _ _ _ => .cell
  | paragraph | heading _ _ | list _ _ | quote _ | table _ | footnote _ | directive _
  | command _ => .block

/-- The kind of all that a node holds. -/
def holds : Node → Kind
  | marked _ | inlineDirective _ _ | paragraph | heading _ _ | cell _ _ _ => .inline
  | list _ _ => .item
  | table _ => .row
  | row _ => .cell
  | item _ _ _ | quote _ | footnote _ | directive _ | command _ => .block

end Node

mutual

/-- The outline is of a kind, and so is all that its nodes hold. -/
def Outline.OfKind (kind : Kind) : Outline → Prop
  | .leaf l => l.kind? = some kind
  | .reference _ => kind = .inline
  | .node n inside => n.kind = kind ∧ outlinesOfKind n.holds inside

def outlinesOfKind (kind : Kind) : List Outline → Prop
  | [] => True
  | o :: os => o.OfKind kind ∧ outlinesOfKind kind os

end

theorem outlinesOfKind_iff {kind : Kind} {os : List Outline} :
    outlinesOfKind kind os ↔ ∀ o ∈ os, o.OfKind kind := by
  induction os with
  | nil => simp [outlinesOfKind]
  | cons o os ih => simp [outlinesOfKind, ih]

theorem outlinesOfKind_append {kind : Kind} {xs ys : List Outline}
    (hx : outlinesOfKind kind xs) (hy : outlinesOfKind kind ys) :
    outlinesOfKind kind (xs ++ ys) := by
  rw [outlinesOfKind_iff] at hx hy ⊢
  intro o ho
  exact (List.mem_append.mp ho).elim (hx o) (hy o)

mutual

theorem ofKind_inline : ∀ i : Inline, i.outline.OfKind .inline
  | .text _ | .code _ | .softBreak | .lineBreak | .html _ | .footnote _ | .image _ _ _ => rfl
  | .marked _ children => ⟨rfl, ofKind_inlinesOutline children⟩
  | .directive _ _ content => ⟨rfl, ofKind_inlinesOutline content⟩

theorem ofKind_inlinesOutline : ∀ is : List Inline, outlinesOfKind .inline (inlinesOutline is)
  | [] => trivial
  | i :: is => ⟨ofKind_inline i, ofKind_inlinesOutline is⟩

end

theorem ofKind_cellsOutline (t : Table) (header : Bool) :
    ∀ (column : Nat) (cs : List (List Inline)),
      outlinesOfKind .cell (cellsOutline t header column cs)
  | _, [] => trivial
  | column, cell :: rest =>
    ⟨⟨rfl, ofKind_inlinesOutline cell⟩, ofKind_cellsOutline t header (column + 1) rest⟩

theorem ofKind_rowOutline (t : Table) (header : Bool) (cs : List (List Inline)) :
    (rowOutline t header cs).OfKind .row :=
  ⟨rfl, ofKind_cellsOutline t header 0 cs⟩

theorem ofKind_argumentOutline (c : Command) : outlinesOfKind .inline c.argumentOutline := by
  unfold Command.argumentOutline
  split
  · trivial
  · split
    · exact ⟨rfl, trivial⟩
    · exact ⟨rfl, rfl, trivial⟩

theorem ofKind_labelOutline (head : Directive) : outlinesOfKind .block head.labelOutline := by
  unfold Directive.labelOutline
  split
  · exact ⟨⟨rfl, ofKind_inlinesOutline head.label⟩, trivial⟩
  · trivial

mutual

theorem ofKind_block : ∀ x : Block, x.outline.OfKind .block
  | .code _ _ | .rule | .html _ | .metadata _ => rfl
  | .paragraph content | .heading _ content => ⟨rfl, ofKind_inlinesOutline content⟩
  | .list start tight items => ⟨rfl, ofKind_itemsOutline tight start items⟩
  | .quote _ children | .footnote _ children => ⟨rfl, ofKind_blocksOutline children⟩
  | .table t => by
    refine ⟨rfl, ofKind_rowOutline t true t.header, outlinesOfKind_iff.mpr ?_⟩
    intro o ho
    obtain ⟨r, -, rfl⟩ := List.mem_map.mp ho
    exact ofKind_rowOutline t false r
  | .directive head children =>
    ⟨rfl, outlinesOfKind_append (ofKind_labelOutline head) (ofKind_blocksOutline children)⟩
  | .command c =>
    ⟨rfl, ⟨rfl, outlinesOfKind_append (ofKind_argumentOutline c)
      (ofKind_inlinesOutline c.content)⟩, trivial⟩

/-- **All nodes of a document stand where nodes of their kind may stand.** -/
theorem ofKind_blocksOutline : ∀ xs : List Block, outlinesOfKind .block (blocksOutline xs)
  | [] => trivial
  | x :: xs => ⟨ofKind_block x, ofKind_blocksOutline xs⟩

theorem ofKind_itemsOutline (tight : Bool) : ∀ (number : Option UInt64) (is : List Item),
    outlinesOfKind .item (itemsOutline tight number is)
  | _, [] => trivial
  | number, ⟨_, children⟩ :: rest =>
    ⟨⟨rfl, ofKind_blocksOutline children⟩,
      ofKind_itemsOutline tight (number.map Walk.nextNumber) rest⟩

end

/-! ## Places of items -/

def Node.isItem : Node → Bool
  | .item _ _ _ => true
  | _ => false

def Node.isList : Node → Bool
  | .list _ _ => true
  | _ => false

theorem Node.isItem_eq (n : Node) : n.isItem = (n.kind == .item) := by cases n <;> rfl

theorem Node.isList_eq (n : Node) : n.isList = (n.holds == .item) := by cases n <;> rfl

mutual

/-- Items are directly in lists. The outline itself may be an item only if it is in a list. -/
def Outline.ItemsListed (inList : Bool) : Outline → Prop
  | .leaf _ => True
  | .reference _ => True
  | .node n inside => (n.isItem = true → inList = true) ∧ outlinesItemsListed n.isList inside

def outlinesItemsListed (inList : Bool) : List Outline → Prop
  | [] => True
  | o :: os => o.ItemsListed inList ∧ outlinesItemsListed inList os

end

mutual

theorem itemsListed_outline {kind : Kind} :
    ∀ o : Outline, o.OfKind kind → o.ItemsListed (kind == .item)
  | .leaf _, _ | .reference _, _ => trivial
  | .node n inside, ⟨hkind, hinside⟩ => by
    rw [Outline.ItemsListed, n.isItem_eq, n.isList_eq, hkind]
    exact ⟨id, itemsListed_outlines inside hinside⟩

theorem itemsListed_outlines {kind : Kind} :
    ∀ os : List Outline, outlinesOfKind kind os → outlinesItemsListed (kind == .item) os
  | [], _ => trivial
  | o :: os, h => ⟨itemsListed_outline o h.1, itemsListed_outlines os h.2⟩

end

/-- **Items are in lists**: nothing else of a document has items directly in it. -/
theorem itemsListed_blocksOutline (xs : List Block) :
    outlinesItemsListed false (blocksOutline xs) :=
  itemsListed_outlines _ (ofKind_blocksOutline xs)

end RichMarkdown
