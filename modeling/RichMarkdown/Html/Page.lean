import RichMarkdown.Highlight.Highlighter
import RichMarkdown.Html.Markup
import RichMarkdown.Render.Walk

/-!
# Pages

The rendering of a document as an HTML fragment. `leafPieces`, `startPieces` and `finishPieces` say
what each visit of a walk writes. Comments are left out; a directive named like a call-out is
written as one.
-/

set_option autoImplicit false

namespace RichMarkdown.Html

structure Settings where
  highlighter : Option Highlighter := none
  anchors : Bool := true

/-- A page under way. -/
structure PageState where
  pieces : Array Piece := #[]
  /-- For each open block directive, innermost first, whether it is written as a call-out. -/
  openAlerts : List Bool := []

def plainTag (tag : Tag) : Piece := .startTag tag []

def attr (name value : String) : Attribute := ⟨name, some value⟩

def classTag (tag : Tag) (value : String) : Piece := .startTag tag [attr "class" value]

/-- The title attribute, left out when the title is empty. -/
def titleAttr (title : String) : List Attribute :=
  if title.isEmpty then [] else [attr "title" title]

/-! ## Code blocks -/

/-- A segment of code, in a span when a token covers it. -/
def segmentPieces (s : Segment) : List Piece :=
  match s.category with
  | some category => [classTag .span category.cssClass, .text s.text, .endTag .span]
  | none => [.text s.text]

/-- The content of a code block. Without tokens that fit, the code is plain text. -/
def codePieces (settings : Settings) (language : Option String) (literal : String) :
    List Piece :=
  match settings.highlighter.bind (·.fittingTokens? literal language) with
  | some tokens => (segments literal tokens).flatMap segmentPieces
  | none => [.text literal]

/-- A code block with its language as a class. -/
def codeBlock (settings : Settings) (language : Option String) (literal : String) : List Piece :=
  [plainTag .pre,
    .startTag .code (language.toList.map fun l => attr "class" ("language-" ++ l))] ++
    codePieces settings language literal ++ [.endTag .code, .endTag .pre]

/-! ## Call-outs -/

/-- The start of a call-out, up to its content. -/
def alertStart (alert : Alert) (title : String) : List Piece :=
  [classTag .div ("alert alert-" ++ alert.name), classTag .div "alert-title", .text title,
    .endTag .div, classTag .div "alert-content"]

def alertFinish : List Piece := [.endTag .div, .endTag .div]

/-- The title of a directive written as a call-out: its label, unless that is blank. -/
def alertTitle (alert : Alert) (label : List Inline) : String :=
  let title := Text.trimmed (plainText label)
  if title.isEmpty then alert.title else title

/-! ## Visits -/

def markTag : Mark → Tag
  | .emphasis => .em
  | .strong => .strong
  | .strikethrough => .s
  | .superscript => .sup
  | .subscript => .sub
  | .link _ _ => .a

def markAttributes : Mark → List Attribute
  | .link destination title => attr "href" destination :: titleAttr title
  | _ => []

def leafPieces (settings : Settings) : Leaf → List Piece
  | .text s => [.text s]
  | .code s => [plainTag .code, .text s, .endTag .code]
  | .softBreak => [.text "\n"]
  | .lineBreak => [plainTag .br]
  | .inlineHtml s => [.raw s]
  | .image source title alt =>
    [.startTag .img (attr "src" source :: (titleAttr title ++ [attr "alt" alt]))]
  | .footnoteReference label n =>
    [classTag .sup "footnote-reference", .startTag .a [attr "href" ("#fn-" ++ label)],
      .text (toString n), .endTag .a, .endTag .sup]
  | .codeBlock language literal => codeBlock settings language literal
  | .rule => [plainTag .hr]
  | .htmlBlock s => [.raw s]
  | .metadata _ => []

/-- The checkbox of a task, with a space after it. -/
def taskPieces : Option Bool → List Piece
  | none => []
  | some checked =>
    [.startTag .input (attr "type" "checkbox" ::
      ((if checked then [⟨"checked", none⟩] else []) ++ [⟨"disabled", none⟩])), .text " "]

/-- The start tag of a list; a list that starts at one does not say so. -/
def listStart : Option UInt64 → Piece
  | none => plainTag .ul
  | some n => if n = 1 then plainTag .ol else .startTag .ol [attr "start" (toString n)]

def alignmentAttributes : Alignment → List Attribute
  | .none => []
  | .left => [attr "style" "text-align:left"]
  | .center => [attr "style" "text-align:center"]
  | .right => [attr "style" "text-align:right"]

def cellTag (header : Bool) : Tag := if header then .th else .td

def startPieces (settings : Settings) : Frame → List Piece
  | .marked mark => [.startTag (markTag mark) (markAttributes mark)]
  | .inlineDirective _ _ => []
  | .paragraph tight => if tight then [] else [plainTag .p]
  | .heading level id =>
    [.startTag (.ofLevel level) (if settings.anchors then [attr "id" id] else [])]
  | .list start _ => [listStart start]
  | .item _ task => plainTag .li :: taskPieces task
  | .quote none => [plainTag .blockquote]
  | .quote (some alert) => alertStart alert alert.title
  | .table _ => [plainTag .table]
  | .row header => if header then [plainTag .thead, plainTag .tr] else [plainTag .tr]
  | .cell header _ alignment => [.startTag (cellTag header) (alignmentAttributes alignment)]
  | .footnote label n =>
    [.startTag .div [attr "class" "footnote-definition", attr "id" ("fn-" ++ label)],
      classTag .sup "footnote-definition-label", .text (toString n), .endTag .sup]
  | .directive head =>
    match Alert.ofName? head.name with
    | some alert => alertStart alert (alertTitle alert head.label)
    | none => []
  | .command _ => []

/-- What the finish of a frame writes, apart from block directives. -/
def finishPieces : Frame → List Piece
  | .marked mark => [.endTag (markTag mark)]
  | .inlineDirective _ _ => []
  | .paragraph tight => if tight then [] else [.endTag .p]
  | .heading level _ => [.endTag (.ofLevel level)]
  | .list start _ => [.endTag (if start.isSome then .ol else .ul)]
  | .item _ _ => [.endTag .li]
  | .quote none => [.endTag .blockquote]
  | .quote (some _) => alertFinish
  | .table _ => [.endTag .tbody, .endTag .table]
  | .row header =>
    if header then [.endTag .tr, .endTag .thead, plainTag .tbody] else [.endTag .tr]
  | .cell header _ _ => [.endTag (cellTag header)]
  | .footnote _ _ => [.endTag .div]
  | .directive _ => []
  | .command _ => []

def PageState.write (s : PageState) (pieces : List Piece) : PageState :=
  { s with pieces := s.pieces ++ pieces }

/-- Notes whether a block directive that starts is written as a call-out. -/
def PageState.openDirective (s : PageState) : Frame → PageState
  | .directive head =>
    { s with openAlerts := (Alert.ofName? head.name).isSome :: s.openAlerts }
  | _ => s

/-- Writes the finish of the innermost block directive. -/
def PageState.closeDirective (s : PageState) : PageState :=
  let s' := { s with openAlerts := s.openAlerts.tail }
  if s.openAlerts.head? = some true then s'.write alertFinish else s'

def backend (settings : Settings) : Backend PageState where
  leaf _ l s := s.write (leafPieces settings l)
  start _ f s :=
    match f.defaultFlow with
    | .skip => (.skip, s)
    | .enter => (.enter, (s.openDirective f).write (startPieces settings f))
  finish _ f s :=
    match f with
    | .directive _ => s.closeDirective
    | _ => s.write (finishPieces f)

/-- The HTML of a document, and the context after it. -/
def renderIn (settings : Settings) (d : Document) (c : Context) : String × Context :=
  let (s, c) := Walk.document (backend settings) d c {}
  (render s.pieces.toList, c)

/-- A page with what was collected while it was rendered. -/
structure Page where
  html : String
  title : Option String
  toc : List TocEntry
  deriving DecidableEq, Repr

def page (settings : Settings) (d : Document) : Page :=
  let (html, c) := renderIn settings d {}
  ⟨html, c.title, c.toc⟩

end RichMarkdown.Html
