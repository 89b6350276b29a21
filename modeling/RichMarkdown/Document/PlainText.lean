import RichMarkdown.Document.Tree

/-!
# The text of inlines

`plainText` reads inlines without their marks, as titles and alternative texts need them. Breaks
become spaces; raw HTML and footnote references have no text.
-/

set_option autoImplicit false

namespace RichMarkdown

mutual

/-- The text of one inline. -/
def Inline.plainText : Inline → String
  | .text s => s
  | .code s => s
  | .softBreak => " "
  | .lineBreak => " "
  | .html _ => ""
  | .footnote _ => ""
  | .marked _ children => plainText children
  | .image _ _ alt => plainText alt
  | .directive _ _ content => plainText content

/-- The text of inlines in order. -/
def plainText : List Inline → String
  | [] => ""
  | i :: is => i.plainText ++ plainText is

end

end RichMarkdown
