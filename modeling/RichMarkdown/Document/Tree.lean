import RichMarkdown.Document.Attributes
import RichMarkdown.Text.Ascii

/-!
# Document trees

A document is a list of blocks; blocks hold other blocks or inlines. Inlines that only mark what
they hold (emphasis, links and the like) share one constructor and differ by their `Mark`.
-/

set_option autoImplicit false

namespace RichMarkdown

/-- What an inline does to the inlines it holds. -/
inductive Mark where
  | emphasis
  | strong
  | strikethrough
  | superscript
  | subscript
  /-- The title is empty when there is none. -/
  | link (destination title : String)
  deriving DecidableEq, Repr

inductive Inline where
  | text (s : String)
  | code (s : String)
  | softBreak
  | lineBreak
  | html (s : String)
  | footnote (label : String)
  | marked (mark : Mark) (children : List Inline)
  | image (source title : String) (alt : List Inline)
  | directive (name : String) (attributes : Attributes) (content : List Inline)
  deriving Repr, Inhabited

/-- The five kinds of call-outs. -/
inductive Alert where
  | note
  | tip
  | important
  | warning
  | caution
  deriving DecidableEq, Repr

inductive Alignment where
  | none
  | left
  | center
  | right
  deriving DecidableEq, Repr

/-- A table; its rows need not be as long as its header. -/
structure Table where
  alignments : List Alignment := []
  header : List (List Inline) := []
  rows : List (List (List Inline)) := []
  deriving Repr, Inhabited

/-- The alignment of a column; a column without one is not aligned. -/
def Table.alignment (t : Table) (column : Nat) : Alignment := t.alignments.getD column .none

/-- Whether a block directive has a body. -/
inductive DirectiveKind where
  | container
  | leaf
  deriving DecidableEq, Repr

/-- What a block directive says about itself. -/
structure Directive where
  name : String
  kind : DirectiveKind
  label : List Inline
  attributes : Attributes
  deriving Repr

/-- A documentation command with its argument and its text. -/
structure Command where
  name : String
  argument : Option String
  content : List Inline
  deriving Repr

mutual

inductive Block where
  | paragraph (content : List Inline)
  | heading (level : Nat) (content : List Inline)
  | code (language : Option String) (literal : String)
  /-- An ordered list has the number of its first item. -/
  | list (start : Option UInt64) (tight : Bool) (items : List Item)
  | quote (alert : Option Alert) (children : List Block)
  | rule
  | html (s : String)
  | table (t : Table)
  | footnote (label : String) (children : List Block)
  | metadata (s : String)
  | directive (head : Directive) (children : List Block)
  | command (c : Command)

/-- An item of a list. A task is checked or not; other items are no tasks. -/
structure Item where
  task : Option Bool
  children : List Block

end

/-- A document is its blocks in order. -/
abbrev Document := List Block

/-- The name that a directive must have, in any case, to be left out of all output. -/
def commentName : String := "comment"

/-- Whether a directive of this name is a comment, whose content never shows. -/
def isCommentName (name : String) : Bool := Text.sameIgnoringCase name commentName

namespace Alert

def all : List Alert := [note, tip, important, warning, caution]

def name : Alert → String
  | note => "note"
  | tip => "tip"
  | important => "important"
  | warning => "warning"
  | caution => "caution"

/-- The title of a call-out that has none of its own. -/
def title : Alert → String
  | note => "Note"
  | tip => "Tip"
  | important => "Important"
  | warning => "Warning"
  | caution => "Caution"

/-- The call-out of this name, in any case. -/
def ofName? (name : String) : Option Alert := all.find? fun a => a.name == Text.lower name

end Alert

end RichMarkdown
