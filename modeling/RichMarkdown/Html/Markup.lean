/-!
# Markup

HTML as a sequence of pieces: tags, text and raw markup. Text and attribute values are escaped when
a piece is written, and only then; raw markup is written as it is.
-/

set_option autoImplicit false

namespace RichMarkdown.Html

/-- The entity or the character itself that stands for a character in escaped text. -/
def escapeChar (c : Char) : List Char :=
  if c == '&' then "&amp;".toList
  else if c == '<' then "&lt;".toList
  else if c == '>' then "&gt;".toList
  else if c == '\"' then "&quot;".toList
  else if c == '\'' then "&#x27;".toList
  else [c]

/-- A text with the characters that have a meaning in HTML replaced by entities. -/
def escape (s : String) : String := String.ofList (s.toList.flatMap escapeChar)

inductive Tag where
  | a
  | blockquote
  | br
  | code
  | div
  | em
  | h1
  | h2
  | h3
  | h4
  | h5
  | h6
  | hr
  | img
  | input
  | li
  | ol
  | p
  | pre
  | s
  | span
  | strong
  | sub
  | sup
  | table
  | tbody
  | td
  | th
  | thead
  | tr
  | ul
  deriving DecidableEq, Repr

namespace Tag

def name : Tag → String
  | a => "a"
  | blockquote => "blockquote"
  | br => "br"
  | code => "code"
  | div => "div"
  | em => "em"
  | h1 => "h1"
  | h2 => "h2"
  | h3 => "h3"
  | h4 => "h4"
  | h5 => "h5"
  | h6 => "h6"
  | hr => "hr"
  | img => "img"
  | input => "input"
  | li => "li"
  | ol => "ol"
  | p => "p"
  | pre => "pre"
  | s => "s"
  | span => "span"
  | strong => "strong"
  | sub => "sub"
  | sup => "sup"
  | table => "table"
  | tbody => "tbody"
  | td => "td"
  | th => "th"
  | thead => "thead"
  | tr => "tr"
  | ul => "ul"

/-- Whether an element has no content and no end tag. -/
def isVoid : Tag → Bool
  | br | hr | img | input => true
  | _ => false

/-- The element of a heading; a level below one or above six counts as one or six. -/
def ofLevel : Nat → Tag
  | 0 | 1 => h1
  | 2 => h2
  | 3 => h3
  | 4 => h4
  | 5 => h5
  | _ => h6

end Tag

/-- An attribute of a start tag, with or without a value. -/
structure Attribute where
  name : String
  value : Option String
  deriving DecidableEq, Repr

/-- An attribute as it is written, with a space before it. -/
def Attribute.render (a : Attribute) : String :=
  match a.value with
  | some v => " " ++ a.name ++ "=\"" ++ escape v ++ "\""
  | none => " " ++ a.name

/-- A piece of a page. -/
inductive Piece where
  | startTag (tag : Tag) (attributes : List Attribute)
  | endTag (tag : Tag)
  | text (s : String)
  | raw (s : String)
  deriving DecidableEq, Repr

def Piece.render : Piece → String
  | .startTag tag attributes =>
    "<" ++ tag.name ++ String.join (attributes.map Attribute.render) ++ ">"
  | .endTag tag => "</" ++ tag.name ++ ">"
  | .text s => escape s
  | .raw s => s

def render (pieces : List Piece) : String := String.join (pieces.map Piece.render)

end RichMarkdown.Html
