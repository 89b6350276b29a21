import RichMarkdown.Text.Ascii
import RichMarkdown.Text.Blank
import RichMarkdown.Theme.Error

/-!
# Colours

A colour has three channels of eight bits. `Color.ofHex` reads three or six hexadecimal digits after
an optional number sign; three digits stand for six, each one doubled. `Color.toHex` writes the six
digit form in capitals.
-/

set_option autoImplicit false

namespace RichMarkdown

/-- A colour by its red, green and blue channel. -/
structure Color where
  red : UInt8
  green : UInt8
  blue : UInt8
  deriving DecidableEq, Repr, Inhabited

namespace Color

/-- The channel with the given high and low hexadecimal digit. -/
def channel (high low : Nat) : UInt8 := UInt8.ofNat (16 * high + low)

/-- The colour that three or six hexadecimal digits stand for. -/
def ofDigits? : List Nat → Option Color
  | [r, g, b] => some ⟨channel r r, channel g g, channel b b⟩
  | [r₁, r₀, g₁, g₀, b₁, b₀] => some ⟨channel r₁ r₀, channel g₁ g₀, channel b₁ b₀⟩
  | _ => none

/-- The characters that should be digits: all but outer blanks and one leading number sign. -/
def digitChars (text : String) : List Char :=
  match Text.trim text.toList with
  | '#' :: cs => cs
  | cs => cs

/-- Reads a colour. A character that is no digit is reported before a wrong number of digits. -/
def ofHex (text : String) : Except ThemeError Color :=
  match (digitChars text).mapM Text.hexDigit? with
  | none => .error (.invalidColor text .notHexadecimal)
  | some digits =>
    match ofDigits? digits with
    | none => .error (.invalidColor text .wrongLength)
    | some color => .ok color

/-- The two upper-case hexadecimal digits of a channel. -/
def channelDigits (v : UInt8) : List Char :=
  [Text.upperHexDigit (v.toNat / 16), Text.upperHexDigit (v.toNat % 16)]

/-- The colour as a number sign and six upper-case hexadecimal digits. -/
def toHex (c : Color) : String :=
  String.ofList
    ('#' :: (channelDigits c.red ++ channelDigits c.green ++ channelDigits c.blue))

/-- A channel as a fraction of the greatest value. -/
def fraction (v : UInt8) : Float := v.toFloat / 255

end Color

end RichMarkdown
