import RichMarkdown.Theme.Palette

/-!
# Themes and their stylesheet

A theme pairs a light and a dark palette. Its stylesheet declares the light colours as custom
properties, declares the dark ones again for readers who prefer them, and has one rule for each
category that refers to the property.
-/

set_option autoImplicit false

namespace RichMarkdown

/-- Which palette of a theme is in force. -/
inductive ColorMode where
  | light
  | dark
  deriving DecidableEq, Repr, Inhabited

namespace ColorMode

def name : ColorMode → String
  | light => "light"
  | dark => "dark"

/-- The mode with exactly this name. -/
def ofExactName? (text : String) : Option ColorMode :=
  if text = "light" then some light else if text = "dark" then some dark else none

/-- The mode with a name, in any case and with blanks around it. -/
def ofName (text : String) : Except ThemeError ColorMode :=
  match ofExactName? (Text.lower (Text.trimmed text)) with
  | some mode => .ok mode
  | none => .error (.unknownMode text)

end ColorMode

structure Theme where
  light : Palette := .light
  dark : Palette := .dark
  deriving DecidableEq, Repr, Inhabited

namespace Theme

def palette (t : Theme) : ColorMode → Palette
  | .light => t.light
  | .dark => t.dark

def resolve (t : Theme) (mode : ColorMode) (category : Category) : Color :=
  (t.palette mode).get category

/-- The line that declares the colour of one category. -/
def declaration (indent : String) (entry : Category × Color) : String :=
  indent ++ entry.1.cssProperty ++ ": " ++ entry.2.toHex ++ ";\n"

def declarations (indent : String) (p : Palette) : String :=
  String.join (p.toList.map (declaration indent))

def rule (category : Category) : String :=
  "." ++ category.cssClass ++ " \x7b color: var(" ++ category.cssProperty ++ ");" ++
    (if category.isItalic then " font-style: italic;" else "") ++ " \x7d\n"

def stylesheet (t : Theme) : String :=
  ":root \x7b\n" ++ declarations "  " t.light ++ "\x7d\n\n" ++
    "@media (prefers-color-scheme: dark) \x7b\n  :root \x7b\n" ++ declarations "    " t.dark ++
    "  \x7d\n\x7d\n\n" ++ String.join (Category.all.map rule)

end Theme

end RichMarkdown
