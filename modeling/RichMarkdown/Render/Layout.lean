import RichMarkdown.Highlight.Highlighter
import RichMarkdown.Render.Walk
import RichMarkdown.Styled.StyledText

/-!
# Layout of text

The layout of a document in lines, for plain and for styled text alike. Blocks are set apart by a
blank line, or in a tight list by a line end; list items hang behind their markers, quotes have a
mark on every line. Line ends and margins are written only when content follows: until then line
ends are owed, so a text never ends in one.

The layout writes through a `Sink`, which says what becomes of a piece of text and its style.
-/

set_option autoImplicit false

namespace RichMarkdown.Layout

/-- Where laid out text goes. -/
structure Sink (τ : Type) where
  append : τ → String → TextStyle → τ

structure CodeColors where
  highlighter : Highlighter
  theme : Theme

/-- What a container writes at the start of each of its lines. -/
structure Margin where
  first : String
  rest : String
  /-- Whether the first line has been started. -/
  used : Bool := false
  deriving DecidableEq, Repr

/-- A margin that indents all lines but the first by the width of the marker on the first. -/
def Margin.hanging (marker suffix : String) : Margin where
  first := marker ++ suffix
  rest := String.ofList (List.replicate marker.length ' ')

/-- The distance between two blocks. -/
inductive Gap where
  | line
  | blank
  deriving DecidableEq, Repr

def Gap.lines : Gap → Nat
  | line => 1
  | blank => 2

/-- A layout under way. -/
structure State (τ : Type) where
  out : τ
  /-- The margins of the open containers, innermost first. -/
  margins : List Margin := []
  /-- The line ends owed before the next content. -/
  owed : Nat := 0
  /-- The owed line ends that belong to code; a gap comes on top of them. -/
  owedByCode : Nat := 0
  /-- Whether the next content starts a line. -/
  atLineStart : Bool := true
  /-- Whether there was any content. -/
  started : Bool := false
  /-- Whether the next block goes on in the line that a marker or a title has opened. -/
  fresh : Bool := false
  /-- The tightness of the open lists, innermost first; quotes and footnotes count as loose. -/
  tightness : List Bool := []
  /-- The styles in force, innermost first. -/
  styles : List TextStyle := []

namespace State

variable {τ : Type}

/-! ## Styles -/

/-- The style in force. -/
def style (s : State τ) : TextStyle := s.styles.headD {}

/-- Changes the style in force until it is restored. -/
def pushStyle (s : State τ) (change : TextStyle → TextStyle) : State τ :=
  { s with styles := change s.style :: s.styles }

/-- Restores the style before the last change. -/
def popStyle (s : State τ) : State τ := { s with styles := s.styles.tail }

/-! ## Gaps and margins -/

/-- Asks for a gap before the next content; there is none before the first. -/
def request (s : State τ) (gap : Gap) : State τ :=
  if s.started then { s with owed := max s.owed (s.owedByCode + gap.lines) } else s

def blockStart (s : State τ) : State τ :=
  if s.fresh then s
  else s.request (if s.tightness.head? = some true then .line else .blank)

/-- The margin of an empty line: that of the lines already started, without blanks at its end. -/
def blankMargin (s : State τ) : String :=
  Text.trimmedEnd (String.join ((s.margins.reverse.filter (·.used)).map (·.rest)))

/-- The margin of the next line of content. -/
def nextMargin (s : State τ) : String :=
  String.join (s.margins.reverse.map fun m => if m.used then m.rest else m.first)

/-- Notes that a line has been started in all containers. -/
def useMargins (s : State τ) : State τ :=
  { s with margins := s.margins.map fun m => { m with used := true } }

def pushMargin (s : State τ) (m : Margin) : State τ := { s with margins := m :: s.margins }

def popMargin (s : State τ) : State τ := { s with margins := s.margins.tail }

/-! ## Writing -/

variable (k : Sink τ)

/-- Writes a piece of text as it is. -/
def append (s : State τ) (text : String) (style : TextStyle) : State τ :=
  { s with out := k.append s.out text style }

/-- Writes line ends, the margin of an empty line before each. -/
def emptyLines : Nat → State τ → State τ
  | 0, s => s
  | n + 1, s => emptyLines n ((s.append k s.blankMargin {}).append k "\n" {})

/-- Writes the line ends that are owed. -/
def flush (s : State τ) : State τ :=
  let n := s.owed
  let s := { s with owed := 0, owedByCode := 0 }
  match n with
  | 0 => s
  | n + 1 => { emptyLines k n (s.append k "\n" {}) with atLineStart := true }

def writeMargin (s : State τ) : State τ :=
  (if s.nextMargin.isEmpty then s else s.append k s.nextMargin {}).useMargins

/-- Writes text without line feeds. Empty text is no content. -/
def writeLine (s : State τ) (line : String) (style : TextStyle) : State τ :=
  if line.isEmpty then s
  else
    let s := s.flush k
    let s := if s.atLineStart then s.writeMargin k else s
    { s.append k line style with atLineStart := false, started := true, fresh := false }

/-- Ends the line; the line end is owed. -/
def newline (s : State τ) : State τ := { s with owed := s.owed + 1 }

/-- Writes the lines after the first, each after a line end. -/
def writeLines (s : State τ) (style : TextStyle) : List (List Char) → State τ
  | [] => s
  | l :: ls => writeLines (s.newline.writeLine k (String.ofList l) style) style ls

/-- Writes text in a style, its line feeds as line ends. -/
def writeStyled (s : State τ) (text : String) (style : TextStyle) : State τ :=
  match text.toList.splitOn '\n' with
  | [] => s
  | l :: ls => (s.writeLine k (String.ofList l) style).writeLines k style ls

/-- Writes text in the style in force. -/
def write (s : State τ) (text : String) : State τ := s.writeStyled k text s.style

/-! ## Code -/

def segmentStyle (theme : Theme) (mode : ColorMode) (base : TextStyle) (segment : Segment) :
    TextStyle :=
  match segment.category with
  | some category =>
    { base with
      foreground := some (theme.resolve mode category)
      italic := base.italic || category.isItalic }
  | none => base

def writeSegments (s : State τ) (theme : Theme) (mode : ColorMode) (base : TextStyle) :
    List Segment → State τ
  | [] => s
  | x :: xs =>
    writeSegments (s.writeStyled k x.text (segmentStyle theme mode base x)) theme mode base xs

/-- Writes a code text, coloured if there are tokens that fit. -/
def writeCode (s : State τ) (colors : Option CodeColors) (mode : ColorMode)
    (language : Option String) (literal : String) : State τ :=
  match colors with
  | none => s.write k literal
  | some colors =>
    match colors.highlighter.fittingTokens? literal language with
    | none => s.write k literal
    | some tokens => s.writeSegments k colors.theme mode s.style (segments literal tokens)

/-- Writes a code block. Line feeds at the end of its text belong to the code. -/
def codeBlock (s : State τ) (colors : Option CodeColors) (mode : ColorMode)
    (language : Option String) (literal : String) : State τ :=
  let s := s.blockStart.pushStyle ({ · with monospace := true })
  let s := (s.writeCode k colors mode language literal).popStyle
  if literal.toList.any (· ≠ '\n') then { s with owedByCode := s.owed } else s

/-! ## Containers -/

def openList (s : State τ) (tight : Bool) : State τ :=
  let s := s.blockStart
  { s with tightness := tight :: s.tightness }

def closeList (s : State τ) : State τ := { s with tightness := s.tightness.tail }

def markerText : Marker → String
  | .bullet => "- "
  | .number n => toString n ++ ". "

def taskText : Option Bool → String
  | none => ""
  | some true => "[x] "
  | some false => "[ ] "

def openItem (s : State τ) (marker : Marker) (task : Option Bool) : State τ :=
  let gap : Gap := if s.tightness.head? = some false then .blank else .line
  let s := if s.fresh then s else s.request gap
  { s.pushMargin (.hanging (markerText marker) (taskText task)) with fresh := true }

/-- Writes the margin of a container without content as a line of its own. -/
def writeUnused (s : State τ) : State τ :=
  match s.margins with
  | m :: _ =>
    if m.used then s
    else
      let s := s.flush k
      { (s.append k (Text.trimmedEnd s.nextMargin) {}).useMargins with
        atLineStart := false, started := true }
  | [] => s

/-- Closes a list item; the marker of an empty one gets its line. -/
def closeItem (s : State τ) : State τ := { (s.writeUnused k).popMargin with fresh := false }

/-- Opens a quote; the title of a call-out is its first line. -/
def openQuote (s : State τ) (alert : Option Alert) : State τ :=
  let s := (s.blockStart.pushMargin ⟨"> ", "> ", false⟩)
  let s := { s with tightness := false :: s.tightness }
  match alert with
  | none => s
  | some alert =>
    let s := ((s.pushStyle ({ · with bold := true })).write k alert.title).popStyle
    { s.request .line with fresh := true }

/-- Closes a quote or a footnote. -/
def closeLoose (s : State τ) : State τ :=
  { s.popMargin with tightness := s.tightness.tail, fresh := false }

def openFootnote (s : State τ) (number : Nat) : State τ :=
  let s := s.blockStart.pushMargin (.hanging s!"[{number}] " "")
  { s with tightness := false :: s.tightness, fresh := true }

def markStyle : Mark → TextStyle → TextStyle
  | .emphasis, style => { style with italic := true }
  | .strong, style => { style with bold := true }
  | .strikethrough, style => { style with strikethrough := true }
  | .superscript, style => { style with baseline := .superscript }
  | .subscript, style => { style with baseline := .subscript }
  | .link destination _, style => { style with underline := true, link := some destination }

def headingStyle (level : Nat) (style : TextStyle) : TextStyle :=
  { style with bold := true, scale := headingScale level }

end State

open State

variable {τ : Type}

def leaf (k : Sink τ) (colors : Option CodeColors) (c : Context) (l : Leaf) (s : State τ) :
    State τ :=
  match l with
  | .text t => s.write k t
  | .code t => ((s.pushStyle ({ · with monospace := true })).write k t).popStyle
  | .softBreak => s.write k " "
  | .lineBreak => s.newline
  | .inlineHtml _ => s
  | .image _ _ alt => s.write k alt
  | .footnoteReference _ n => s.write k s!"[{n}]"
  | .codeBlock language literal => s.codeBlock k colors c.mode language literal
  | .rule => s.blockStart.write k "---"
  | .htmlBlock _ => s
  | .metadata _ => s

def start (k : Sink τ) (f : Frame) (s : State τ) : State τ :=
  match f with
  | .marked mark => s.pushStyle (markStyle mark)
  | .inlineDirective _ _ => s
  | .paragraph _ => s.blockStart
  | .heading level _ => s.blockStart.pushStyle (headingStyle level)
  | .list _ tight => s.openList tight
  | .item marker task => s.openItem marker task
  | .quote alert => s.openQuote k alert
  | .table _ => s.blockStart
  | .row header =>
    let s := s.request .line
    if header then s.pushStyle ({ · with bold := true }) else s
  | .cell _ column _ => if column = 0 then s else s.write k "\t"
  | .footnote _ n => s.openFootnote n
  | .directive _ => s
  | .command _ => s

def finish (k : Sink τ) (f : Frame) (s : State τ) : State τ :=
  match f with
  | .marked _ => s.popStyle
  | .inlineDirective _ _ => s
  | .paragraph _ => s
  | .heading _ _ => s.popStyle
  | .list _ _ => s.closeList
  | .item _ _ => s.closeItem k
  | .quote _ => s.closeLoose
  | .table _ => s
  | .row header => if header then s.popStyle else s
  | .cell _ _ _ => s
  | .footnote _ _ => s.closeLoose
  | .directive _ => s
  | .command _ => s

def backend (k : Sink τ) (colors : Option CodeColors) : Backend (State τ) where
  leaf c l s := leaf k colors c l s
  start _ f s :=
    match f.defaultFlow with
    | .skip => (.skip, s)
    | .enter => (.enter, start k f s)
  finish _ f s := finish k f s

/-- Lays a document out after what the sink holds, and gives the context after it. -/
def renderIn (k : Sink τ) (colors : Option CodeColors) (d : Document) (c : Context) (out : τ) :
    τ × Context :=
  let (s, c) := Walk.document (backend k colors) d c { out }
  (s.out, c)

end RichMarkdown.Layout
