import RichMarkdown.Highlight.Cache
import RichMarkdown.Highlight.Lexer
import RichMarkdown.Html.Page
import RichMarkdown.Markdown.Options
import RichMarkdown.Styled.Render

/-!
# Settings

What a settings file can choose: the extensions of Markdown, how documents are rendered, and colours
in place of those of the built-in theme. Colours are kept as they are written; `Settings.theme`
reads them, and fails at the first one that is none.
-/

set_option autoImplicit false

namespace RichMarkdown

/-- Colours in place of those of a built-in palette, as they are written. -/
structure ColorChoices where
  keyword : Option String := none
  string : Option String := none
  comment : Option String := none
  number : Option String := none
  function : Option String := none
  typeName : Option String := none
  varName : Option String := none
  operator : Option String := none
  punctuation : Option String := none
  property : Option String := none
  attrName : Option String := none
  deriving DecidableEq, Repr, Inhabited

/-- Settings, with the usual choices where nothing is chosen. -/
structure Settings where
  options : Options := {}
  mode : ColorMode := .light
  highlight : Bool := true
  anchors : Bool := true
  cacheTokens : Bool := true
  lightColors : ColorChoices := {}
  darkColors : ColorChoices := {}
  /-- The path of the file that the settings were read from, which is one from the root if the file
  was searched for. -/
  path : Option String := none
  deriving DecidableEq, Repr, Inhabited

/-- Choices made by a caller, which go before those of a file. -/
structure Overrides where
  mode : Option ColorMode := none
  highlight : Option Bool := none
  anchors : Option Bool := none
  cacheTokens : Option Bool := none
  deriving DecidableEq, Repr

/-- Why settings cannot be had. -/
inductive SettingsError where
  | notFound (path : String)
  | unreadable
  /-- The file is no TOML text or not one of settings. -/
  | malformed
  | color (field : String) (source : ThemeError)
  deriving DecidableEq, Repr

/-- The wording of an error, if it does not depend on the system. -/
def SettingsError.message? : SettingsError → Option String
  | .notFound path => some ("Configuration file not found: " ++ path)
  | .unreadable => none
  | .malformed => none
  | .color field source => some ("Invalid color in " ++ field ++ ": " ++ source.message)

namespace ColorChoices

/-- The choices in canonical order of categories. -/
def entries (x : ColorChoices) : List (Category × Option String) :=
  [(.keyword, x.keyword), (.string, x.string), (.comment, x.comment), (.number, x.number),
    (.function, x.function), (.typeName, x.typeName), (.varName, x.varName),
    (.operator, x.operator), (.punctuation, x.punctuation), (.property, x.property),
    (.attrName, x.attrName)]

/-- A palette with the colours that some entries choose in a section of the theme, in order. -/
def applyEntries (sectionName : String) (p : Palette) :
    List (Category × Option String) → Except SettingsError Palette
  | [] => .ok p
  | (_, none) :: rest => applyEntries sectionName p rest
  | (category, some text) :: rest =>
    match Color.ofHex text with
    | .ok color => applyEntries sectionName (p.set category color) rest
    | .error e => .error (.color ("theme." ++ sectionName ++ "." ++ category.name) e)

/-- A palette with the colours chosen in a section of the theme. -/
def apply (x : ColorChoices) (sectionName : String) (p : Palette) :
    Except SettingsError Palette :=
  applyEntries sectionName p x.entries

end ColorChoices

namespace Settings

/-- The theme with the colours chosen, the light ones read first. -/
def theme (s : Settings) : Except SettingsError Theme := do
  let light ← s.lightColors.apply "light" .light
  let dark ← s.darkColors.apply "dark" .dark
  return { light, dark }

/-- Checks the colours. -/
def validate (s : Settings) : Except SettingsError Unit := do
  let _ ← s.theme

def highlighter (s : Settings) : Option Highlighter :=
  if ! s.highlight then none
  else if s.cacheTokens then some Highlighter.lexical.cached
  else some .lexical

def html (s : Settings) : Html.Settings := { highlighter := s.highlighter, anchors := s.anchors }

def styled (s : Settings) : Except SettingsError Styled.Settings := do
  let theme ← s.theme
  return { theme, highlighter := s.highlighter, mode := s.mode }

def override (s : Settings) (o : Overrides) : Settings :=
  { s with
    mode := o.mode.getD s.mode
    highlight := o.highlight.getD s.highlight
    anchors := o.anchors.getD s.anchors
    cacheTokens := o.cacheTokens.getD s.cacheTokens }

end Settings

end RichMarkdown
