import RichMarkdown.Render.Layout

/-!
# Plain text

The layout of a document without its styles.
-/

set_option autoImplicit false

namespace RichMarkdown.PlainText

/-- The sink that keeps the text and drops its style. -/
def sink : Layout.Sink String where
  append out text _ := out ++ text

/-- The plain text of a document, and the context after it. -/
def renderIn (d : Document) (c : Context) : String × Context :=
  Layout.renderIn sink none d c ""

/-- The plain text of a document. -/
def render (d : Document) : String := (renderIn d {}).1

end RichMarkdown.PlainText
