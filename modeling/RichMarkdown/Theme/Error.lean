import RichMarkdown.Text.Quoted

/-!
# Errors of colours and themes

Why a text is refused as a colour, a category or a colour mode. An error keeps the refused text as
it was given; `ThemeError.message` shows it quoted.
-/

set_option autoImplicit false

namespace RichMarkdown

/-- Why a text is no colour. -/
inductive ColorFault where
  | notHexadecimal
  /-- The number of digits is neither three nor six. -/
  | wrongLength
  deriving DecidableEq, Repr

/-- A text that names no colour, no category or no mode. -/
inductive ThemeError where
  | invalidColor (text : String) (fault : ColorFault)
  | unknownCategory (text : String)
  | unknownMode (text : String)
  deriving DecidableEq, Repr

def ColorFault.message : ColorFault → String
  | .notHexadecimal => "expected hexadecimal digits"
  | .wrongLength => "expected 3 or 6 hex digits"

def ThemeError.message : ThemeError → String
  | .invalidColor text fault => "invalid color " ++ Text.quoted text ++ ": " ++ fault.message
  | .unknownCategory text => "unknown token category " ++ Text.quoted text
  | .unknownMode text =>
    "unknown color mode " ++ Text.quoted text ++ " (expected \"light\" or \"dark\")"

end RichMarkdown
