import RichMarkdown.Text.Ascii

/-!
# Words of TOML

Blanks, comments, strings and keys at the start of a text. Each function gives what it read and the
text after it, or nothing if the text does not start so.
-/

set_option autoImplicit false

namespace RichMarkdown.Toml

def isBlank (c : Char) : Bool := c == ' ' || c == '\t'

/-- The control characters that may not occur in comments and strings. -/
def isControl (c : Char) : Bool := (c.toNat < 0x20 && c != '\t') || c.toNat == 0x7F

def skipBlanks (cs : List Char) : List Char := cs.dropWhile isBlank

/-- The text after blanks, line ends and comments; `inComment` says that a comment is under way. -/
def skipTrivia? (inComment : Bool) : List Char → Option (List Char)
  | [] => some []
  | '\n' :: cs => skipTrivia? false cs
  | '\r' :: '\n' :: cs => skipTrivia? false cs
  | c :: cs =>
    if inComment then if isControl c then none else skipTrivia? true cs
    else if isBlank c then skipTrivia? false cs
    else if c == '#' then skipTrivia? true cs
    else some (c :: cs)

/-- The text after the end of a line, before which blanks and a comment may stand. -/
def endLine? (inComment : Bool) : List Char → Option (List Char)
  | [] => some []
  | '\n' :: cs => some cs
  | '\r' :: '\n' :: cs => some cs
  | c :: cs =>
    if inComment then if isControl c then none else endLine? true cs
    else if isBlank c then endLine? false cs
    else if c == '#' then endLine? true cs
    else none

/-! ## Strings -/

/-- The character with the code point that so many hexadecimal digits stand for. -/
def codePoint? (digits : Nat) (cs : List Char) : Option (Char × List Char) := do
  let word := cs.take digits
  if word.length < digits then none
  let values ← word.mapM Text.hexDigit?
  let n := values.foldl (fun n d => 16 * n + d) 0
  if h : n.isValidChar then some (Char.ofNatAux n h, cs.drop digits) else none

/-- The character that stands after a backslash for another one. -/
def escape? : List Char → Option (Char × List Char)
  | 'b' :: cs => some ('\x08', cs)
  | 't' :: cs => some ('\t', cs)
  | 'n' :: cs => some ('\n', cs)
  | 'f' :: cs => some ('\x0c', cs)
  | 'r' :: cs => some ('\r', cs)
  | 'e' :: cs => some ('\x1b', cs)
  | '\"' :: cs => some ('\"', cs)
  | '\\' :: cs => some ('\\', cs)
  | 'x' :: cs => codePoint? 2 cs
  | 'u' :: cs => codePoint? 4 cs
  | 'U' :: cs => codePoint? 8 cs
  | _ => none

/-- The text after a backslash at the end of a line: the next character that is not blank. -/
def skipLineEnd? (cs : List Char) : Option (List Char) :=
  match skipBlanks cs with
  | '\n' :: rest => some (rest.dropWhile fun c => isBlank c || c == '\n' || c == '\r')
  | '\r' :: '\n' :: rest => some (rest.dropWhile fun c => isBlank c || c == '\n' || c == '\r')
  | _ => none

/-- The rest of a string in double quotes on one line. -/
def basicString? (fuel : Nat) (cs : List Char) : Option (List Char × List Char) :=
  match fuel, cs with
  | 0, _ => none
  | _, [] => none
  | fuel + 1, c :: cs =>
    if c == '\"' then some ([], cs)
    else if c == '\\' then do
      let (d, rest) ← escape? cs
      let (text, rest) ← basicString? fuel rest
      return (d :: text, rest)
    else if isControl c then none
    else (basicString? fuel cs).map fun p => (c :: p.1, p.2)

/-- The rest of a string in single quotes on one line. -/
def literalString? : List Char → Option (List Char × List Char)
  | [] => none
  | c :: cs =>
    if c == '\'' then some ([], cs)
    else if isControl c then none
    else (literalString? cs).map fun p => (c :: p.1, p.2)

/-- The text after three quotes and up to two more, which belong to the string. -/
def closeLong? (quote : Char) (cs : List Char) : Option (List Char × List Char) :=
  let n := (cs.takeWhile (· == quote)).length
  if n < 3 then none else
    let extra := min (n - 3) 2
    some (List.replicate extra quote, cs.drop (extra + 3))

/-- The rest of a string in three quotes. Only in double quotes the backslash is special. -/
def longString? (quote : Char) (fuel : Nat) (cs : List Char) :
    Option (List Char × List Char) :=
  match fuel, cs with
  | 0, _ => none
  | _, [] => none
  | fuel + 1, c :: cs =>
    match closeLong? quote (c :: cs) with
    | some closed => some closed
    | none =>
      if c == '\\' && quote == '\"' then
        match skipLineEnd? cs with
        | some rest => longString? quote fuel rest
        | none => do
          let (d, rest) ← escape? cs
          let (text, rest) ← longString? quote fuel rest
          return (d :: text, rest)
      else
        match c, cs with
        | '\r', '\n' :: rest =>
          (longString? quote fuel rest).map fun p => ('\r' :: '\n' :: p.1, p.2)
        | _, _ =>
          if isControl c && c != '\n' then none
          else (longString? quote fuel cs).map fun p => (c :: p.1, p.2)

def dropLineEnd : List Char → List Char
  | '\n' :: cs => cs
  | '\r' :: '\n' :: cs => cs
  | cs => cs

def string? (cs : List Char) : Option (List Char × List Char) :=
  match cs with
  | '\"' :: '\"' :: '\"' :: rest => longString? '\"' (cs.length) (dropLineEnd rest)
  | '\'' :: '\'' :: '\'' :: rest => longString? '\'' (cs.length) (dropLineEnd rest)
  | '\"' :: rest => basicString? cs.length rest
  | '\'' :: rest => literalString? rest
  | _ => none

/-! ## Keys -/

def isKeyChar (c : Char) : Bool := c.isAlphanum || c == '_' || c == '-'

/-- A part of a key: bare, or a string on one line. -/
def keyPart? (cs : List Char) : Option (String × List Char) :=
  match cs with
  | '\"' :: rest => (basicString? cs.length rest).map fun p => (String.ofList p.1, p.2)
  | '\'' :: rest => (literalString? rest).map fun p => (String.ofList p.1, p.2)
  | _ =>
    let word := cs.takeWhile isKeyChar
    if word.isEmpty then none else some (String.ofList word, cs.dropWhile isKeyChar)

/-- A key: the parts before its last point, the part after it, and the text after blanks. -/
def key? (fuel : Nat) (cs : List Char) : Option ((List String × String) × List Char) :=
  match fuel with
  | 0 => none
  | fuel + 1 => do
    let (part, rest) ← keyPart? (skipBlanks cs)
    match skipBlanks rest with
    | '.' :: rest =>
      let ((path, last), rest) ← key? fuel rest
      return ((part :: path, last), rest)
    | rest => return (([], part), rest)

end RichMarkdown.Toml
