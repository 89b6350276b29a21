import RichMarkdown.Text.Ascii
import RichMarkdown.Text.Blank
import RichMarkdown.Theme.Error

/-!
# Token categories

The eleven kinds of words that highlighted code is made of. Each has a name, and its class and
custom property in a stylesheet are made from that name.
-/

set_option autoImplicit false

namespace RichMarkdown

inductive Category where
  | keyword
  | string
  | comment
  | number
  | function
  | typeName
  | varName
  | operator
  | punctuation
  | property
  | attrName
  deriving DecidableEq, Repr, Inhabited

namespace Category

def all : List Category :=
  [keyword, string, comment, number, function, typeName, varName, operator, punctuation, property,
    attrName]

theorem mem_all (c : Category) : c ∈ all := by cases c <;> decide

def name : Category → String
  | keyword => "keyword"
  | string => "string"
  | comment => "comment"
  | number => "number"
  | function => "function"
  | typeName => "type"
  | varName => "variable"
  | operator => "operator"
  | punctuation => "punctuation"
  | property => "property"
  | attrName => "attribute"

/-- The stylesheet class of words of this category. -/
def cssClass (c : Category) : String := "token-" ++ c.name

/-- The custom property that holds the colour of this category. -/
def cssProperty (c : Category) : String := "--syntax-" ++ c.name

/-- Whether words of this category are slanted. -/
def isItalic : Category → Bool
  | comment => true
  | _ => false

/-- The category with a name, in any case and with blanks around it. -/
def ofName (text : String) : Except ThemeError Category :=
  match all.find? fun c => Text.sameIgnoringCase c.name (Text.trimmed text) with
  | some c => .ok c
  | none => .error (.unknownCategory text)

end Category

end RichMarkdown
