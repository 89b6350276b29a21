import RichMarkdown.Text.Hidden

/-!
# Quoted texts

How an error message shows a text it rejects: in double quotes, with a backslash before a quote or
a backslash, short escapes for NUL, tab, line feed and carriage return, and the code point in
lower-case hexadecimal for every other hidden character.
-/

set_option autoImplicit false

namespace RichMarkdown.Text

/-- One character inside a quoted text. -/
def quotedChar (c : Char) : List Char :=
  if c == '\"' || c == '\\' then ['\\', c]
  else if c == '\x00' then ['\\', '0']
  else if c == '\t' then ['\\', 't']
  else if c == '\n' then ['\\', 'n']
  else if c == '\r' then ['\\', 'r']
  else if isHidden c then ['\\', 'u', '\x7b'] ++ Nat.toDigits 16 c.toNat ++ ['\x7d']
  else [c]

/-- A text in double quotes, every character shown. -/
def quoted (s : String) : String :=
  String.ofList ('\"' :: s.toList.flatMap quotedChar ++ ['\"'])

end RichMarkdown.Text
