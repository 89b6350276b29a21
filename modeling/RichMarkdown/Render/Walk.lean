import RichMarkdown.Document.Context
import RichMarkdown.Document.PlainText

/-!
# Walking a document

A walk visits the nodes of a document in order and tells a backend what it meets: a leaf, or the
start and the finish of a frame around further nodes. A backend may skip what a frame holds; then
the frame has no finish. The walk keeps the context: it opens and closes containers, numbers
footnotes and notes headings.
-/

set_option autoImplicit false

namespace RichMarkdown

inductive Marker where
  | bullet
  | number (n : UInt64)
  deriving DecidableEq, Repr

/-- A node that holds no further nodes. -/
inductive Leaf where
  | text (s : String)
  | code (s : String)
  | softBreak
  | lineBreak
  | inlineHtml (s : String)
  | image (source title alt : String)
  | footnoteReference (label : String) (number : Nat)
  | codeBlock (language : Option String) (literal : String)
  | rule
  | htmlBlock (s : String)
  | metadata (s : String)
  deriving DecidableEq, Repr

/-- A node around further nodes. -/
inductive Frame where
  | marked (mark : Mark)
  | inlineDirective (name : String) (attributes : Attributes)
  | paragraph (tight : Bool)
  | heading (level : Nat) (id : String)
  | list (start : Option UInt64) (tight : Bool)
  | item (marker : Marker) (task : Option Bool)
  | quote (alert : Option Alert)
  | table (t : Table)
  | row (header : Bool)
  | cell (header : Bool) (column : Nat) (alignment : Alignment)
  | footnote (label : String) (number : Nat)
  | directive (head : Directive)
  | command (c : Command)
  deriving Repr

/-- What a walk does after the start of a frame. -/
inductive Flow where
  /-- It visits what the frame holds and then tells its finish. -/
  | enter
  /-- It goes on after the frame. -/
  | skip
  deriving DecidableEq, Repr

/-- The flow that leaves out comments and nothing else. -/
def Frame.defaultFlow : Frame → Flow
  | .inlineDirective name _ => if isCommentName name then .skip else .enter
  | .directive head => if isCommentName head.name then .skip else .enter
  | _ => .enter

/-- What is told of each visit. Every function also sees the context of the visit. -/
structure Backend (σ : Type) where
  leaf : Context → Leaf → σ → σ
  start : Context → Frame → σ → Flow × σ
  finish : Context → Frame → σ → σ

namespace Walk

variable {σ : Type}

/-- A walk under way: the context, and what the backend made so far. -/
structure State (σ : Type) where
  context : Context
  out : σ

def leaf (b : Backend σ) (l : Leaf) (s : State σ) : State σ :=
  { s with out := b.leaf s.context l s.out }

/-- Visits what a frame holds between its start and its finish. -/
def framed (b : Backend σ) (f : Frame) (inner : State σ → State σ) (s : State σ) : State σ :=
  match b.start s.context f s.out with
  | (.skip, out) => { s with out := out }
  | (.enter, out) =>
    let s := inner { s with out := out }
    { s with out := b.finish s.context f s.out }

def inside (c : Container) (inner : State σ → State σ) (s : State σ) : State σ :=
  let s := inner { s with context := s.context.push c }
  { s with context := s.context.pop }

def numbered (label : String) (visit : Nat → State σ → State σ) (s : State σ) : State σ :=
  let (n, c) := s.context.footnoteNumber label
  visit n { s with context := c }

mutual

def inline (b : Backend σ) : Inline → State σ → State σ
  | .text t => leaf b (.text t)
  | .code t => leaf b (.code t)
  | .softBreak => leaf b .softBreak
  | .lineBreak => leaf b .lineBreak
  | .html t => leaf b (.inlineHtml t)
  | .footnote label => numbered label fun n => leaf b (.footnoteReference label n)
  | .marked mark children => framed b (.marked mark) (inlines b children)
  | .image source title alt => leaf b (.image source title (plainText alt))
  | .directive name attributes content =>
    framed b (.inlineDirective name attributes) (inlines b content)

def inlines (b : Backend σ) : List Inline → State σ → State σ
  | [] => id
  | i :: is => inlines b is ∘ inline b i

end

/-- Visits inlines as a paragraph, tight directly in an item of a tight list. -/
def paragraph (b : Backend σ) (content : State σ → State σ) (s : State σ) : State σ :=
  framed b (.paragraph s.context.inTightItem) content s

/-- Visits the cells of a row, from the given column on. -/
def cells (b : Backend σ) (t : Table) (header : Bool) :
    Nat → List (List Inline) → State σ → State σ
  | _, [] => id
  | column, cell :: rest =>
    cells b t header (column + 1) rest ∘
      framed b (.cell header column (t.alignment column)) (inlines b cell)

def row (b : Backend σ) (t : Table) (header : Bool) (content : List (List Inline)) :
    State σ → State σ :=
  framed b (.row header) (cells b t header 0 content)

def rows (b : Backend σ) (t : Table) : List (List (List Inline)) → State σ → State σ
  | [] => id
  | r :: rs => rows b t rs ∘ row b t false r

/-- Visits a table, its header first. -/
def table (b : Backend σ) (t : Table) : State σ → State σ :=
  framed b (.table t) (rows b t t.rows ∘ row b t true t.header)

def heading (b : Backend σ) (level : Nat) (content : List Inline) (s : State σ) : State σ :=
  let (id, c) := s.context.registerHeading level (plainText content)
  framed b (.heading level id) (inlines b content) { s with context := c }

/-- Visits the argument of a command, set apart by a space from any text that follows. -/
def commandArgument (b : Backend σ) (c : Command) : State σ → State σ :=
  match c.argument with
  | none => id
  | some argument =>
    (if c.content.isEmpty then id else leaf b (.text " ")) ∘ leaf b (.code argument)

/-- Visits a command: a paragraph that its argument leads as code. -/
def command (b : Backend σ) (c : Command) : State σ → State σ :=
  framed b (.command c) (paragraph b (inlines b c.content ∘ commandArgument b c))

/-- Visits the label of a directive without a body as a paragraph, if there is a label. -/
def leafLabel (b : Backend σ) (head : Directive) : State σ → State σ :=
  if head.kind = .leaf ∧ ! head.label.isEmpty then paragraph b (inlines b head.label) else id

/-- The number after a number, which stays at the greatest one. -/
def nextNumber (n : UInt64) : UInt64 := if n = UInt64.ofNat (UInt64.size - 1) then n else n + 1

/-- The marker of a list item with this number, if the list has numbers. -/
def marker : Option UInt64 → Marker
  | some n => .number n
  | none => .bullet

mutual

def block (b : Backend σ) : Block → State σ → State σ
  | .paragraph content => paragraph b (inlines b content)
  | .heading level content => heading b level content
  | .code language literal => leaf b (.codeBlock language literal)
  | .list start tight children =>
    framed b (.list start tight)
      (inside (.list tight start.isSome) (items b tight start children))
  | .quote alert children => framed b (.quote alert) (inside .quote (blocks b children))
  | .rule => leaf b .rule
  | .html t => leaf b (.htmlBlock t)
  | .table t => table b t
  | .footnote label children =>
    numbered label fun n => framed b (.footnote label n) (inside .footnote (blocks b children))
  | .metadata t => leaf b (.metadata t)
  | .directive head children =>
    framed b (.directive head) (inside .directive (blocks b children ∘ leafLabel b head))
  | .command c => command b c

def blocks (b : Backend σ) : List Block → State σ → State σ
  | [] => id
  | x :: xs => blocks b xs ∘ block b x

/-- Visits the items of a list, the first of which has the given number. -/
def items (b : Backend σ) (tight : Bool) (number : Option UInt64) :
    List Item → State σ → State σ
  | [] => id
  | ⟨task, children⟩ :: rest =>
    items b tight (number.map nextNumber) rest ∘
      framed b (.item (marker number) task) (inside (.item tight) (blocks b children))

end

/-- Visits a whole document and gives what the backend made, and the context. -/
def document (b : Backend σ) (d : Document) (c : Context) (out : σ) : σ × Context :=
  let s := blocks b d ⟨c, out⟩
  (s.out, s.context)

end Walk

end RichMarkdown
