import RichMarkdown.Text.Blank
import RichMarkdown.Text.Lines

/-!
# Slugs

The slug of a text is made of its ASCII letters and digits, letters in lower case. Blanks, dashes
and underscores separate words, which are joined by single dashes; other characters are left out.
-/

set_option autoImplicit false

namespace RichMarkdown

namespace Slug

/-- The characters between the words of a slug. -/
def isSeparator (c : Char) : Bool := Text.isBlank c || c == '-' || c == '_'

/-- The words of a text, each of ASCII letters and digits. -/
def words (cs : List Char) : List (List Char) :=
  (cs.splitOnP isSeparator).map (fun w => (w.filter Char.isAlphanum).map Char.toLower)
    |>.filter (! ·.isEmpty)

end Slug

/-- The slug of a text; it is empty when the text has no ASCII letter or digit. -/
def slug (text : String) : String :=
  String.ofList (['-'].intercalate (Slug.words text.toList))

end RichMarkdown
