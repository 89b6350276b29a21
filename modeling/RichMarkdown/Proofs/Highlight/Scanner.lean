import RichMarkdown.Highlight.Lexer
import RichMarkdown.Proofs.Text.Bytes

/-!
# The scanner

The lexer as a loop over the bytes of the code. The scanner stands at a byte, perhaps inside a
character; each rule looks at bytes and says where its word stops. It takes slices of the bytes and
of the text, which can fail (`Fault`). Nothing but its rules moves the scanner on, so a loop need
not end; `Ends` says that it does, and how.
-/

set_option autoImplicit false

namespace RichMarkdown

open Text (utf8 asciiClass byteLength)

namespace Scanner

/-- Why a scan can break off. -/
inductive Fault where
  /-- A slice of the bytes, or an index into them, is out of range. -/
  | range (offset : Nat)
  /-- A slice of the text is out of range or cuts a character. -/
  | boundary (start stop : Nat)
  /-- A bracket is closed that is not open. -/
  | depth
  deriving DecidableEq, Repr

abbrev Stop := Nat × Category

section

variable (language : Language) (code : List Char)

/-! ## Looking at the code -/

/-- The byte at a position, if the code goes on to there. -/
def peek? (pos : Nat) : Option UInt8 := (utf8 code)[pos]?

def bytesFrom (pos : Nat) : Except Fault (List UInt8) :=
  if pos ≤ byteLength code then .ok ((utf8 code).drop pos) else .error (.range pos)

/-- The bytes before a position, latest byte first. -/
def bytesBefore (pos : Nat) : Except Fault (List UInt8) :=
  if pos ≤ byteLength code then .ok ((utf8 code).take pos).reverse else .error (.range pos)

def textBetween (start stop : Nat) : Except Fault (List Char) :=
  match Text.slice? start stop code with
  | some text => .ok text
  | none => .error (.boundary start stop)

def startsWith (pos : Nat) (mark : List Char) : Except Fault Bool := do
  return (utf8 mark).isPrefixOf (← bytesFrom code pos)

/-- The first place of a text from a position on. Inside a character there is none. -/
def findFrom? (pos : Nat) (needle : List Char) : Option Nat := do
  let (_, rest) ← Text.splitAt? pos code
  let n ← Text.indexOf? needle rest
  return pos + byteLength (rest.take n)

/-- The position after the next place of a text, or else the end of the code. -/
def stopAfter (pos : Nat) (needle : List Char) : Nat :=
  match findFrom? code pos needle with
  | some place => place + byteLength needle
  | none => byteLength code

def lineEnd (pos : Nat) : Nat := (findFrom? code pos ['\n']).getD (byteLength code)

def skipWhile (p : Char → Bool) (pos : Nat) : Nat :=
  pos + (((utf8 code).drop pos).takeWhile (asciiClass p)).length

/-- The first byte from a position on that is no space and no tab. -/
def nextSignificant? (pos : Nat) : Except Fault (Option UInt8) := do
  return ((← bytesFrom code pos).dropWhile (asciiClass Lexer.isInlineBlank)).head?

/-- Whether the code goes on with the separator that makes a key of what stands before it. -/
def isKeyBefore (pos : Nat) : Except Fault Bool :=
  match language.keySeparator with
  | some separator => do return (← nextSignificant? code pos) == some separator.toUInt8
  | none => .ok false

/-- Whether the last byte before a position that is not blank is a point without a point before
it. -/
def followsPoint (pos : Nat) : Except Fault Bool := do
  let before := (← bytesBefore code pos).dropWhile (asciiClass Text.isAsciiBlank)
  return before.head? == some '.'.toUInt8 && before.tail.head? != some '.'.toUInt8

/-! ## Rules -/

/-- A comment to the end of the line, or one that is closed by a mark or the end of the code. -/
def comment? (pos : Nat) : Except Fault (Option Stop) := do
  if ← language.lineComments.anyM (startsWith code pos ·.toList) then
    return some (lineEnd code pos, .comment)
  else
    match language.blockComment with
    | some (opener, closer) =>
      if ← startsWith code pos opener.toList then
        return some (stopAfter code (pos + byteLength opener.toList) closer.toList, .comment)
      else return none
    | none => return none

/-- The position after the bracket that closes the brackets open at `depth`. -/
def closeBracket : Nat → Nat → List UInt8 → Except Fault Nat
  | _, pos, [] => .ok pos
  | depth, pos, b :: rest =>
    if b == '['.toUInt8 then closeBracket (depth + 1) (pos + 1) rest
    else if b == ']'.toUInt8 then
      if depth = 0 then .error .depth
      else if depth - 1 = 0 then .ok (pos + 1)
      else closeBracket (depth - 1) (pos + 1) rest
    else closeBracket depth (pos + 1) rest

def attribute? (lineStart : Bool) (pos : Nat) : Except Fault (Option Stop) :=
  match language.attributes with
  | .decorator =>
    if peek? code pos == some '@'.toUInt8 &&
        (peek? code (pos + 1)).any (asciiClass Lexer.isWordStart)
    then .ok (some (skipWhile code (fun d => Lexer.isWordPart d || d == '.') (pos + 1), .attrName))
    else .ok none
  | .brackets => do
    if (← startsWith code pos ['#', '[']) || (← startsWith code pos ['#', '!', '[']) then
      return some (← closeBracket 0 pos (← bytesFrom code pos), .attrName)
    else return none
  | .directive =>
    if peek? code pos == some '#'.toUInt8 && lineStart then
      .ok (some (skipWhile code Lexer.isWordPart (skipWhile code Lexer.isInlineBlank (pos + 1)),
        .attrName))
    else .ok none
  | .absent => .ok none

/-- The position after the quote that closes a string. A backslash takes the next byte with it. -/
def closeQuote (quote : UInt8) : Nat → List UInt8 → Nat
  | pos, [] => pos
  | pos, b :: rest =>
    if b == '\\'.toUInt8 then
      match rest with
      | [] => pos + 1
      | _ :: rest => closeQuote quote (pos + 2) rest
    else if b == quote then pos + 1
    else if b == '\n'.toUInt8 && quote != '\x60'.toUInt8 then pos
    else closeQuote quote (pos + 1) rest

/-- The position after a string, in triple quotes where the language has them. -/
def stringStop (quote : UInt8) (pos : Nat) : Except Fault Nat := do
  if language.tripleQuotes && [quote, quote, quote].isPrefixOf (← bytesFrom code pos) then
    return stopAfter code (pos + 3) (← textBetween code pos (pos + 3))
  else return closeQuote quote (pos + 1) ((utf8 code).drop (pos + 1))

/-- A string, or a quoted key. -/
def string? (pos : Nat) : Except Fault (Option Stop) := do
  match peek? code pos with
  | none => return none
  | some quote =>
    if (language.quotes.map Char.toUInt8).contains quote then
      let stop ← stringStop language code quote pos
      return some (stop, if ← isKeyBefore language code stop then .property else .string)
    else return none

/-- The position after letters, digits, underscores, and points followed by a digit. -/
def numberStop : Nat → List UInt8 → Nat
  | pos, [] => pos
  | pos, b :: rest =>
    if asciiClass Lexer.isWordPart b ||
        (b == '.'.toUInt8 && rest.head?.any (asciiClass Char.isDigit)) then
      numberStop (pos + 1) rest
    else pos

def number? (pos : Nat) : Except Fault (Option Stop) :=
  if (peek? code pos).any (asciiClass Char.isDigit) then
    .ok (some (numberStop pos ((utf8 code).drop pos), .number))
  else .ok none

/-- The position after the next closing brace, or else the end of the line. -/
def braceStop (pos : Nat) : Nat :=
  match findFrom? code pos ['\x7d'] with
  | some place => place + 1
  | none => lineEnd code pos

/-- The position after what follows the sigil of a variable: braces, a word, or one byte. -/
def variableStop (pos : Nat) : Nat :=
  match peek? code pos with
  | none => pos
  | some b =>
    if b == '\x7b'.toUInt8 then braceStop code pos
    else if asciiClass Lexer.isWordStart b then skipWhile code Lexer.isWordPart pos
    else if asciiClass (fun c => c.isDigit || "#?@*!$-".toList.contains c) b then pos + 1
    else pos

def variableName? (pos : Nat) : Except Fault (Option Stop) :=
  match language.sigil with
  | some sigil =>
    if peek? code pos == some sigil.toUInt8 then
      .ok (some (variableStop code (pos + 1), .varName))
    else .ok none
  | none => .ok none

/-- Whether a word starts with a capital; a word without a byte has no start to look at. -/
def isCapitalized (pos : Nat) (word : List Char) : Except Fault Bool :=
  match utf8 word with
  | b :: _ => .ok (asciiClass Char.isUpper b)
  | [] => .error (.range pos)

/-- A word, with the category that its spelling and its surroundings give it. -/
def word? (pos : Nat) : Except Fault (Option Stop) := do
  if (peek? code pos).any (asciiClass Lexer.isWordStart) then
    let stop := skipWhile code (fun d => Lexer.isWordPart d || language.wordChars.contains d) pos
    let spelling ← textBetween code pos stop
    let word := String.ofList spelling
    if language.keywords.contains word then return some (stop, .keyword)
    else if (← nextSignificant? code stop) == some '('.toUInt8 then return some (stop, .function)
    else if language.bangCalls && peek? code stop == some '!'.toUInt8 &&
        (peek? code (stop + 1)).any (asciiClass Lexer.isCallBracket) then
      return some (stop + 1, .function)
    else if ← followsPoint code pos then return some (stop, .property)
    else if language.types.contains word ||
        (language.capitalizedTypes && (← isCapitalized pos spelling)) then
      return some (stop, .typeName)
    else if ← isKeyBefore language code stop then return some (stop, .property)
    else return some (stop, .varName)
  else return none

def operator? (pos : Nat) : Except Fault (Option Stop) :=
  if (peek? code pos).any (asciiClass Lexer.isOperator) then
    .ok (some (skipWhile code Lexer.isOperator pos, .operator))
  else .ok none

def punctuation? (pos : Nat) : Except Fault (Option Stop) :=
  if (peek? code pos).any (asciiClass Lexer.isPunctuation) then
    .ok (some (pos + 1, .punctuation))
  else .ok none

/-- The answer of the first rule that applies. Rules after it are not tried. -/
def firstOf : List (Except Fault (Option Stop)) → Except Fault (Option Stop)
  | [] => .ok none
  | .ok none :: rules => firstOf rules
  | rule :: _ => rule

def find? (lineStart : Bool) (pos : Nat) : Except Fault (Option Stop) :=
  firstOf [comment? language code pos, attribute? language code lineStart pos,
    string? language code pos, number? code pos, variableName? language code pos,
    word? language code pos, operator? code pos, punctuation? code pos]

/-! ## The loop -/

/-- Where the loop stands, and the tokens found so far. -/
structure State where
  pos : Nat := 0
  /-- Whether only blanks were read since the last line feed. -/
  lineStart : Bool := true
  tokens : List Token := []
  deriving DecidableEq, Repr

inductive Round where
  | finished (answer : Except Fault (List Token))
  | goesOn (s : State)

/-- One round. Where no rule applies, the scanner moves on by a byte, into the middle of a character
if need be. -/
def round (s : State) : Round :=
  match peek? code s.pos with
  | none => .finished (.ok s.tokens)
  | some b =>
    if b == '\n'.toUInt8 then .goesOn { s with pos := s.pos + 1, lineStart := true }
    else if asciiClass Text.isAsciiBlank b then .goesOn { s with pos := s.pos + 1 }
    else
      match find? language code s.lineStart s.pos with
      | .error fault => .finished (.error fault)
      | .ok none => .goesOn { s with pos := s.pos + 1, lineStart := false }
      | .ok (some (stop, category)) =>
        .goesOn ⟨stop, false, s.tokens ++ [⟨s.pos, stop, category⟩]⟩

/-- The loop ends with an answer, after finitely many rounds. -/
inductive Ends : State → Except Fault (List Token) → Prop
  | finished {s : State} {answer : Except Fault (List Token)} :
      round language code s = .finished answer → Ends s answer
  | goesOn {s t : State} {answer : Except Fault (List Token)} :
      round language code s = .goesOn t → Ends t answer → Ends s answer

end

/-- A scan of a code text by the rules of the language with the given tag ends with an answer. -/
def Scans (code : String) (tag : Option String) (answer : Except Fault (List Token)) : Prop :=
  match tag.bind Language.find? with
  | some language => Ends language code.toList {} answer
  | none => answer = .ok []

end Scanner

end RichMarkdown
