import RichMarkdown.Markdown.Event
import RichMarkdown.Text.Blank

/-!
# Documents from events

`Document.ofEvents` puts a document together from the events of a reader. Every element that is open
collects what comes before its end; its end makes a node of that and hands it to the element around
it. Ends without a start are passed over, and elements without an end are ended at last, so any list
of events makes a document.
-/

set_option autoImplicit false

namespace RichMarkdown

/-- An open element and what it has collected, all lists from the latest to the first. -/
structure OpenElement where
  element : Element
  blocks : List Block := []
  inlines : List Inline := []
  /-- The text of code, HTML and metadata. -/
  literal : String := ""
  items : List Item := []
  header : List (List Inline) := []
  rows : List (List (List Inline)) := []
  cells : List (List Inline) := []
  task : Option Bool := none
  /-- Whether an item holds a paragraph that is marked as one, or a list such an item. -/
  loose : Bool := false

namespace OpenElement

/-- Makes a paragraph of the collected inlines, if there are any. -/
def wrapInlines (e : OpenElement) : OpenElement :=
  if e.inlines.isEmpty then e
  else { e with blocks := .paragraph e.inlines.reverse :: e.blocks, inlines := [] }

def addBlock (e : OpenElement) (b : Block) : OpenElement :=
  let e := e.wrapInlines
  { e with blocks := b :: e.blocks }

/-- Adds an inline after what was collected; text joins text. -/
def addInline (e : OpenElement) (i : Inline) : OpenElement :=
  match i, e.inlines with
  | .text s, .text t :: rest => { e with inlines := .text (t ++ s) :: rest }
  | _, _ => { e with inlines := i :: e.inlines }

/-- Whether text is kept as it is. -/
def isLiteral (e : OpenElement) : Bool :=
  match e.element with
  | .code _ | .html | .metadata => true
  | _ => false

def addLiteral (e : OpenElement) (s : String) : OpenElement :=
  { e with literal := e.literal ++ s }

/-- Whether inlines directly in an element are a paragraph. -/
def wrapsInlines (e : OpenElement) : Bool :=
  match e.element with
  | .quote _ | .item | .footnote _ | .group => true
  | _ => false

/-- A text without one line feed at its end. -/
def dropFinalNewline (s : String) : String :=
  String.ofList <|
    match s.toList.reverse with
    | '\n' :: cs => cs.reverse
    | _ => s.toList

/-- Hands the node of an element that has ended to the element around it. -/
def handTo (parent : OpenElement) (e : OpenElement) : OpenElement :=
  let e := if e.wrapsInlines then e.wrapInlines else e
  let inlines := e.inlines.reverse
  let blocks := e.blocks.reverse
  match e.element with
  | .paragraph => parent.addBlock (.paragraph inlines)
  | .heading level => parent.addBlock (.heading level inlines)
  | .quote alert => parent.addBlock (.quote alert blocks)
  | .code info =>
    parent.addBlock (.code (info.bind Text.firstWord?) (dropFinalNewline e.literal))
  | .html => parent.addBlock (.html e.literal)
  | .metadata => parent.addBlock (.metadata e.literal)
  | .list start => parent.addBlock (.list start (! e.loose) e.items.reverse)
  | .item =>
    { parent with
      loose := parent.loose || e.loose
      items := ⟨e.task, blocks⟩ :: parent.items }
  | .footnote label => parent.addBlock (.footnote label blocks)
  | .table alignments => parent.addBlock (.table ⟨alignments, e.header, e.rows.reverse⟩)
  | .row true => { parent with header := e.cells.reverse }
  | .row false => { parent with rows := e.cells.reverse :: parent.rows }
  | .cell => { parent with cells := inlines :: parent.cells }
  | .marked mark => parent.addInline (.marked mark inlines)
  | .image source title => parent.addInline (.image source title inlines)
  | .group => blocks.foldl addBlock parent

end OpenElement

/-- A document under way: the innermost open element and those around it, the outermost of which
is the document itself. -/
structure Assembly where
  top : OpenElement
  below : List OpenElement

namespace Assembly

/-- Nothing but the document itself. -/
def empty : Assembly := ⟨{ element := .group }, []⟩

def onTop (a : Assembly) (f : OpenElement → OpenElement) : Assembly := { a with top := f a.top }

/-- Marks an item that directly holds a paragraph as loose. -/
def noteParagraph (e : OpenElement) : OpenElement :=
  match e.element with
  | .item => { e with loose := true }
  | _ => e

def start (a : Assembly) (element : Element) : Assembly :=
  let top := if element = .paragraph then noteParagraph a.top else a.top
  ⟨{ element }, top :: a.below⟩

/-- Ends the innermost open element; the document itself stays open. -/
def finish (a : Assembly) : Assembly :=
  match a.below with
  | [] => a
  | parent :: below => ⟨parent.handTo a.top, below⟩

def setTask (checked : Bool) : List OpenElement → List OpenElement
  | [] => []
  | e :: es =>
    if e.element = .item then { e with task := some checked } :: es
    else e :: setTask checked es

def add (a : Assembly) : Event → Assembly
  | .start element => a.start element
  | .finish => a.finish
  | .text s =>
    a.onTop fun e => if e.isLiteral then e.addLiteral s else e.addInline (.text s)
  | .code s => a.onTop (·.addInline (.code s))
  | .html s => a.onTop fun e => if e.isLiteral then e.addLiteral s else e.addBlock (.html s)
  | .inlineHtml s => a.onTop (·.addInline (.html s))
  | .footnoteReference label => a.onTop (·.addInline (.footnote label))
  | .softBreak => a.onTop (·.addInline .softBreak)
  | .lineBreak => a.onTop (·.addInline .lineBreak)
  | .rule => a.onTop (·.addBlock .rule)
  | .task checked =>
    match setTask checked (a.top :: a.below) with
    | top :: below => ⟨top, below⟩
    | [] => a

/-- Ends all open elements, and gives the blocks of the document. -/
def blocks (a : Assembly) : List Block :=
  let root := a.below.foldl (fun e parent => parent.handTo e) a.top
  root.wrapInlines.blocks.reverse

end Assembly

/-- The document that events describe. -/
def Document.ofEvents (events : List Event) : Document :=
  (events.foldl Assembly.add .empty).blocks

end RichMarkdown
