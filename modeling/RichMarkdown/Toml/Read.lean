import RichMarkdown.Toml.Scan
import RichMarkdown.Toml.Value

/-!
# Reading TOML

`Toml.read?` reads a TOML text of tables, arrays, strings, booleans and integers as a table. Nothing
that is read here has other values, so a text with a date or a number that is no integer is refused.
Every function takes fuel, which bounds the depth of values and the number of lines; twice the
length of the text is always enough.
-/

set_option autoImplicit false

namespace RichMarkdown.Toml

/-! ## Integers -/

/-- The number that digits of a base stand for; single underscores may stand between digits. -/
def digits? (base : Nat) (value : Char → Option Nat) (cs : List Char) : Option Nat :=
  let rec go : Bool → Nat → List Char → Option Nat
    | afterDigit, n, [] => if afterDigit then some n else none
    | afterDigit, n, c :: cs =>
      if c == '_' then if afterDigit then go false n cs else none
      else
        match value c with
        | some d => if d < base then go true (base * n + d) cs else none
        | none => none
  go false 0 cs

/-- A decimal number without superfluous zeros. -/
def decimal? (cs : List Char) : Option Nat :=
  match cs with
  | '0' :: _ :: _ => none
  | _ => digits? 10 Text.hexDigit? cs

/-- An integer of at most 64 bits with its sign. -/
def integer? (cs : List Char) : Option Int := do
  let n : Int ←
    match cs with
    | '+' :: rest => (decimal? rest).map Int.ofNat
    | '-' :: rest => (decimal? rest).map fun n => - Int.ofNat n
    | '0' :: 'x' :: rest => (digits? 16 Text.hexDigit? rest).map Int.ofNat
    | '0' :: 'o' :: rest => (digits? 8 Text.hexDigit? rest).map Int.ofNat
    | '0' :: 'b' :: rest => (digits? 2 Text.hexDigit? rest).map Int.ofNat
    | _ => (decimal? cs).map Int.ofNat
  if Int64.minValue.toInt ≤ n ∧ n ≤ Int64.maxValue.toInt then some n else none

/-! ## Values -/

def isWordChar (c : Char) : Bool := c.isAlphanum || "+-_.:".toList.contains c

def word? (cs : List Char) : Option Value :=
  if cs = "true".toList then some (.boolean true)
  else if cs = "false".toList then some (.boolean false)
  else (integer? cs).map .integer

mutual

/-- A value at the start of a text. -/
def value? (fuel : Nat) (cs : List Char) : Option (Value × List Char) :=
  match fuel, cs with
  | 0, _ => none
  | _, [] => none
  | fuel + 1, c :: cs =>
    if c == '\"' || c == '\'' then
      (string? (c :: cs)).map fun p => (.string (String.ofList p.1), p.2)
    else if c == '[' then (elements? fuel cs).map fun p => (.array false p.1, p.2)
    else if c == '\x7b' then (members? fuel [] cs).map fun p => (.table .braces p.1, p.2)
    else (word? ((c :: cs).takeWhile isWordChar)).map fun v => (v, (c :: cs).dropWhile isWordChar)

def elements? (fuel : Nat) (cs : List Char) : Option (List Value × List Char) :=
  match fuel with
  | 0 => none
  | fuel + 1 => do
    match ← skipTrivia? false cs with
    | ']' :: rest => return ([], rest)
    | rest =>
      let (v, rest) ← value? fuel rest
      match ← skipTrivia? false rest with
      | ']' :: rest => return ([v], rest)
      | ',' :: rest =>
        let (vs, rest) ← elements? fuel rest
        return (v :: vs, rest)
      | _ => none

/-- The entries of a table in braces, after those already read. -/
def members? (fuel : Nat) (entries : Entries) (cs : List Char) : Option (Entries × List Char) :=
  match fuel with
  | 0 => none
  | fuel + 1 => do
    match ← skipTrivia? false cs with
    | '\x7d' :: rest => return (entries, rest)
    | rest =>
      let ((path, key), v, rest) ← pair? fuel rest
      let (_, entries) ← insert path key v .braces entries
      match ← skipTrivia? false rest with
      | '\x7d' :: rest => return (entries, rest)
      | ',' :: rest => members? fuel entries rest
      | _ => none

def pair? (fuel : Nat) (cs : List Char) :
    Option ((List String × String) × Value × List Char) :=
  match fuel with
  | 0 => none
  | fuel + 1 => do
    let (key, rest) ← key? fuel cs
    match rest with
    | '=' :: rest =>
      let (v, rest) ← value? fuel (skipBlanks rest)
      return (key, v, rest)
    | _ => none

end

/-! ## Texts -/

/-- A header up to its closing brackets. -/
def headerKey? (fuel brackets : Nat) (cs : List Char) :
    Option ((List String × String) × List Char) := do
  let (key, rest) ← key? fuel cs
  if rest.take brackets = List.replicate brackets ']' then some (key, rest.drop brackets)
  else none

/-- The table of a text that is left, given the entries so far and the path of the header in
force. -/
def lines? (fuel : Nat) (entries : Entries) (current : List String) (cs : List Char) :
    Option Entries :=
  match fuel with
  | 0 => none
  | fuel + 1 => do
    match ← skipTrivia? false cs with
    | [] => return entries
    | '[' :: '[' :: rest =>
      let ((path, key), rest) ← headerKey? fuel 2 rest
      let (_, entries) ← changeAt .implied (openElement key) path .header entries
      lines? fuel entries (path ++ [key]) (← endLine? false rest)
    | '[' :: rest =>
      let ((path, key), rest) ← headerKey? fuel 1 rest
      let (_, entries) ← changeAt .implied (openTable key) path .header entries
      lines? fuel entries (path ++ [key]) (← endLine? false rest)
    | rest =>
      let ((path, key), v, rest) ← pair? fuel rest
      let (_, entries) ← changeAt .implied (insert path key v) current .header entries
      lines? fuel entries current (← endLine? false rest)

def read? (text : String) : Option Entries :=
  let cs := match text.toList with
    | '\ufeff' :: rest => rest
    | cs => cs
  lines? (2 * cs.length + 2) [] [] cs

end RichMarkdown.Toml
