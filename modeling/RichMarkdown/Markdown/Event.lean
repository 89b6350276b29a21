import RichMarkdown.Document.Tree

/-!
# Markdown events

What a reader of the Markdown grammar reports about a text: the starts and ends of elements and the
content between them. An end always ends the innermost element that is still open.
-/

set_option autoImplicit false

namespace RichMarkdown

/-- An element with a start and an end. -/
inductive Element where
  | paragraph
  | heading (level : Nat)
  | quote (alert : Option Alert)
  /-- A code block, fenced with an info string or indented without one. -/
  | code (info : Option String)
  | html
  | metadata
  | list (start : Option UInt64)
  | item
  | footnote (label : String)
  | table (alignments : List Alignment)
  | row (header : Bool)
  | cell
  | marked (mark : Mark)
  | image (source title : String)
  /-- An element that stands for nothing but what it holds. -/
  | group
  deriving DecidableEq, Repr

/-- A report of the reader. -/
inductive Event where
  | start (element : Element)
  | finish
  | text (s : String)
  | code (s : String)
  | html (s : String)
  | inlineHtml (s : String)
  | footnoteReference (label : String)
  | softBreak
  | lineBreak
  | rule
  | task (checked : Bool)
  deriving DecidableEq, Repr

end RichMarkdown
