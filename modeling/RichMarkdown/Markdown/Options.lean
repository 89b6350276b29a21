/-!
# Options

Which extensions of Markdown are read, and which features of the Markdown grammar they need.
Directives and documentation commands need none: they are found outside the grammar.
-/

set_option autoImplicit false

namespace RichMarkdown

/-- The extensions that are read. -/
structure Options where
  /-- Tables, strikethrough, task lists and call-outs. -/
  gfm : Bool := true
  footnotes : Bool := true
  metadata : Bool := true
  blockDirectives : Bool := false
  inlineDirectives : Bool := false
  commands : Bool := false
  deriving DecidableEq, Repr, Inhabited

/-- A feature that a reader of the Markdown grammar can turn on. -/
inductive Feature where
  | tables
  | footnotes
  | strikethrough
  | taskLists
  | dashedMetadata
  | plusMetadata
  | gfm
  deriving DecidableEq, Repr

namespace Feature

def all : List Feature :=
  [tables, footnotes, strikethrough, taskLists, dashedMetadata, plusMetadata, gfm]

end Feature

namespace Options

def commonMark : Options := ⟨false, false, false, false, false, false⟩

def everything : Options := ⟨true, true, true, true, true, true⟩

def enables (o : Options) : Feature → Bool
  | .tables | .strikethrough | .taskLists | .gfm => o.gfm
  | .footnotes => o.footnotes
  | .dashedMetadata | .plusMetadata => o.metadata

def features (o : Options) : List Feature := Feature.all.filter o.enables

end Options

end RichMarkdown
