import RichMarkdown.Render.Layout

/-!
# Documents as styled text

The layout of a document with its styles. Code takes its colours from the palette of the mode of the
context.
-/

set_option autoImplicit false

namespace RichMarkdown.Styled

structure Settings where
  theme : Theme := {}
  highlighter : Option Highlighter := none
  /-- The mode of a rendering that is not given a context. -/
  mode : ColorMode := .light

/-- The sink that keeps text and style. -/
def sink : Layout.Sink StyledText where
  append := StyledText.push

/-- The colours of code, if there is a highlighter. -/
def Settings.codeColors (settings : Settings) : Option Layout.CodeColors :=
  settings.highlighter.map fun h => ⟨h, settings.theme⟩

def renderIn (settings : Settings) (d : Document) (c : Context) : StyledText × Context :=
  Layout.renderIn sink settings.codeColors d c {}

def render (settings : Settings) (d : Document) : StyledText :=
  (renderIn settings d { mode := settings.mode }).1

end RichMarkdown.Styled
