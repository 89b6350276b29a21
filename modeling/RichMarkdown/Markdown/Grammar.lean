import RichMarkdown.Markdown.Assembly
import RichMarkdown.Markdown.Options

/-!
# Readers of the Markdown grammar

The Markdown grammar itself is given from outside, as a function from a text to events. Labels are
read with the same grammar, without metadata, and only for their inlines.
-/

set_option autoImplicit false

namespace RichMarkdown

structure Grammar where
  /-- The events of a text with these features on. Links that the text does not define are looked
  up in the definitions of the outer text, if one is given. -/
  events : (features : List Feature) → (outer : Option String) → (text : String) → List Event

namespace Grammar

def blocks (g : Grammar) (o : Options) (outer : Option String) (text : String) : List Block :=
  Document.ofEvents (g.events o.features outer text)

/-- The inlines of a block that holds nothing else. -/
def inlinesOf : Block → List Inline
  | .paragraph content => content
  | .heading _ content => content
  | _ => []

/-- The inlines of a label. A label in which the grammar finds none is text as it stands. -/
def label (g : Grammar) (o : Options) (text : String) : List Inline :=
  if Text.allBlank text.toList then []
  else
    match (g.blocks { o with metadata := false } none text).flatMap inlinesOf with
    | [] => [.text text]
    | content => content

end Grammar

end RichMarkdown
