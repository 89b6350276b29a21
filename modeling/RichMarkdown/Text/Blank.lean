/-!
# Blank characters

Two classes of blank characters, and trimming by the wider one. `isBlank` is the Unicode property
White_Space; `isAsciiBlank` is its ASCII part without the line tabulation. Text is handled as a
list of characters, so that a cut is a prefix or a suffix of a list.
-/

set_option autoImplicit false

namespace RichMarkdown.Text

/-- The Unicode property White_Space. -/
def isBlank (c : Char) : Bool :=
  let n := c.toNat
  (9 ≤ n && n ≤ 13) || n == 0x20 || n == 0x85 || n == 0xA0 || n == 0x1680 ||
    (0x2000 ≤ n && n ≤ 0x200A) || n == 0x2028 || n == 0x2029 || n == 0x202F || n == 0x205F ||
    n == 0x3000

def isAsciiBlank (c : Char) : Bool :=
  c == ' ' || c == '\t' || c == '\n' || c == '\x0c' || c == '\r'

def trimStart (cs : List Char) : List Char := cs.dropWhile isBlank

def trimEnd (cs : List Char) : List Char := (cs.reverse.dropWhile isBlank).reverse

def trim (cs : List Char) : List Char := trimEnd (trimStart cs)

def allBlank (cs : List Char) : Bool := cs.all isBlank

/-- A text without its blank characters at both ends. -/
def trimmed (s : String) : String := String.ofList (trim s.toList)

/-- A text without the blank characters at its end. -/
def trimmedEnd (s : String) : String := String.ofList (trimEnd s.toList)

/-- The first word of a text: its first longest run of characters that are not blank. -/
def firstWord? (s : String) : Option String :=
  match (trimStart s.toList).takeWhile (! isBlank ·) with
  | [] => none
  | w => some (String.ofList w)

end RichMarkdown.Text
