import RichMarkdown.Highlight.Highlighter
import RichMarkdown.Highlight.Language
import RichMarkdown.Text.Lines

/-!
# The lexer

`lexemes` cuts a code text into lexemes by the rules of a language; a lexeme that is a word of some
category becomes a token. Each rule looks at the code that is left, and at what was read before it
where that matters, and says how many characters it takes. `lexemes_flatten` says that the lexemes
make up the code, so tokens never overlap and never cut a character.
-/

set_option autoImplicit false

namespace RichMarkdown

open Text (isAsciiBlank)

/-- A piece of code; words have a category, blanks and stray characters have none. -/
structure Lexeme where
  text : List Char
  category : Option Category
  deriving DecidableEq, Repr

namespace Lexer

/-! ## Character classes -/

def isOperator (c : Char) : Bool := "+-*/%=<>!&|^~?:".toList.contains c

/-- Brackets and separators, each a lexeme of its own. -/
def isPunctuation (c : Char) : Bool := "()\x7b\x7d[];,.".toList.contains c

def isWordStart (c : Char) : Bool := c.isAlpha || c == '_'

def isWordPart (c : Char) : Bool := c.isAlphanum || c == '_'

def isInlineBlank (c : Char) : Bool := c == ' ' || c == '\t'

/-! ## Lengths -/

/-- The number of leading characters of a class. -/
def runLength (p : Char → Bool) (cs : List Char) : Nat := (cs.takeWhile p).length

def lineLength (cs : List Char) : Nat := runLength (· ≠ '\n') cs

/-- The number of characters up to the end of the first `needle`, or of all characters. -/
def lengthThrough (needle cs : List Char) : Nat :=
  match Text.indexOf? needle cs with
  | some n => n + needle.length
  | none => cs.length

/-- The first character after spaces and tabs. -/
def nextSignificant? (cs : List Char) : Option Char := (cs.dropWhile isInlineBlank).head?

/-! ## Rules -/

/-- What a rule found: how many characters it takes, and their category. -/
structure Found where
  length : Nat
  category : Category
  deriving DecidableEq, Repr

/-- A comment to the end of the line, or one that is closed by a mark or the end of the code. -/
def comment? (language : Language) (rest : List Char) : Option Found :=
  if language.lineComments.any (·.toList.isPrefixOf rest) then
    some ⟨lineLength rest, .comment⟩
  else
    match language.blockComment with
    | some (opener, closer) =>
      let mark := opener.toList
      if mark.isPrefixOf rest then
        some ⟨mark.length + lengthThrough closer.toList (rest.drop mark.length), .comment⟩
      else none
    | none => none

/-- The number of characters up to the bracket that closes the brackets open at `depth`. -/
def bracketLength : Nat → List Char → Nat
  | _, [] => 0
  | depth, c :: cs =>
    if c == '[' then bracketLength (depth + 1) cs + 1
    else if c == ']' then if depth ≤ 1 then 1 else bracketLength (depth - 1) cs + 1
    else bracketLength depth cs + 1

def attribute? (language : Language) (lineStart : Bool) (rest : List Char) : Option Found :=
  match language.attributes, rest with
  | .decorator, '@' :: c :: cs =>
    if isWordStart c then
      some ⟨1 + runLength (fun d => isWordPart d || d == '.') (c :: cs), .attrName⟩
    else none
  | .brackets, '#' :: '[' :: cs => some ⟨1 + bracketLength 0 ('[' :: cs), .attrName⟩
  | .brackets, '#' :: '!' :: '[' :: cs => some ⟨2 + bracketLength 0 ('[' :: cs), .attrName⟩
  | .directive, '#' :: cs =>
    if lineStart then
      let blanks := runLength isInlineBlank cs
      some ⟨1 + blanks + runLength isWordPart (cs.drop blanks), .attrName⟩
    else none
  | _, _ => none

/-- The number of characters of a string after its opening quote. A backslash takes the next
character with it; only a string in back quotes goes on past the end of a line. -/
def quotedLength (quote : Char) : List Char → Nat
  | [] => 0
  | ['\\'] => 1
  | '\\' :: _ :: cs => quotedLength quote cs + 2
  | c :: cs =>
    if c == quote then 1
    else if c == '\n' && quote ≠ '\x60' then 0
    else quotedLength quote cs + 1

/-- Whether the code goes on with the separator that makes a key of what stands before it. -/
def isKeyBefore (language : Language) (rest : List Char) : Bool :=
  match language.keySeparator with
  | some separator => nextSignificant? rest == some separator
  | none => false

/-- A string, or a quoted key. -/
def string? (language : Language) : List Char → Option Found
  | [] => none
  | quote :: cs =>
    if language.quotes.contains quote then
      let fence := [quote, quote, quote]
      let length :=
        if language.tripleQuotes && fence.isPrefixOf (quote :: cs) then
          3 + lengthThrough fence (cs.drop 2)
        else 1 + quotedLength quote cs
      some ⟨length, if isKeyBefore language ((quote :: cs).drop length) then .property
        else .string⟩
    else none

/-- The number of leading letters, digits, underscores, and points followed by a digit. -/
def numberLength : List Char → Nat
  | [] => 0
  | c :: cs =>
    if isWordPart c || (c == '.' && cs.head?.any Char.isDigit) then numberLength cs + 1 else 0

def number? : List Char → Option Found
  | [] => none
  | c :: cs => if c.isDigit then some ⟨numberLength (c :: cs), .number⟩ else none

/-- The length of what follows the sigil of a variable: braces, a word, or one character. -/
def variableLength : List Char → Nat
  | [] => 0
  | c :: cs =>
    if c == '\x7b' then
      match Text.indexOf? ['\x7d'] (c :: cs) with
      | some n => n + 1
      | none => lineLength (c :: cs)
    else if isWordStart c then runLength isWordPart (c :: cs)
    else if c.isDigit || "#?@*!$-".toList.contains c then 1
    else 0

def variableName? (language : Language) : List Char → Option Found
  | [] => none
  | c :: cs =>
    if language.sigil = some c then some ⟨1 + variableLength cs, .varName⟩ else none

/-- Whether what was read before, latest character first, ends in a single point and blanks. -/
def followsPoint (before : List Char) : Bool :=
  match before.dropWhile isAsciiBlank with
  | '.' :: '.' :: _ => false
  | '.' :: _ => true
  | _ => false

/-- The brackets that make a call of a word and an exclamation mark. -/
def isCallBracket (c : Char) : Bool := c == '(' || c == '[' || c == '\x7b'

/-- Whether the code goes on with an exclamation mark and an opening bracket. -/
def isBangCall : List Char → Bool
  | '!' :: c :: _ => isCallBracket c
  | _ => false

/-- A word, with the category that its spelling and its surroundings give it. -/
def word? (language : Language) (before : List Char) : List Char → Option Found
  | [] => none
  | c :: cs =>
    if isWordStart c then
      let spelling := (c :: cs).takeWhile fun d => isWordPart d || language.wordChars.contains d
      let length := spelling.length
      let rest := (c :: cs).drop length
      let word := String.ofList spelling
      some <|
        if language.keywords.contains word then ⟨length, .keyword⟩
        else if nextSignificant? rest == some '(' then ⟨length, .function⟩
        else if language.bangCalls && isBangCall rest then ⟨length + 1, .function⟩
        else if followsPoint before then ⟨length, .property⟩
        else if language.types.contains word || (language.capitalizedTypes && c.isUpper) then
          ⟨length, .typeName⟩
        else if isKeyBefore language rest then ⟨length, .property⟩
        else ⟨length, .varName⟩
    else none

def operator? : List Char → Option Found
  | [] => none
  | c :: cs => if isOperator c then some ⟨runLength isOperator (c :: cs), .operator⟩ else none

def punctuation? : List Char → Option Found
  | [] => none
  | c :: _ => if isPunctuation c then some ⟨1, .punctuation⟩ else none

/-- The first rule that applies to the code that is left. -/
def find? (language : Language) (before : List Char) (lineStart : Bool) (rest : List Char) :
    Option Found :=
  comment? language rest <|> attribute? language lineStart rest <|> string? language rest <|>
    number? rest <|> variableName? language rest <|> word? language before rest <|>
    operator? rest <|> punctuation? rest

/-! ## Lexemes and tokens -/

/-- The lexemes of the code that is left. `before` is the code already read, latest character
first, and `lineStart` says whether only blanks were read since the last line feed. -/
def lexemes (language : Language) (before : List Char) (lineStart : Bool) :
    List Char → List Lexeme
  | [] => []
  | c :: cs =>
    if c == '\n' then ⟨[c], none⟩ :: lexemes language (c :: before) true cs
    else if isAsciiBlank c then ⟨[c], none⟩ :: lexemes language (c :: before) lineStart cs
    else
      match find? language before lineStart (c :: cs) with
      | none => ⟨[c], none⟩ :: lexemes language (c :: before) false cs
      | some found =>
        let text := c :: cs.take (found.length - 1)
        ⟨text, some found.category⟩ ::
          lexemes language (text.reverse ++ before) false (cs.drop (found.length - 1))
termination_by rest => rest.length
decreasing_by all_goals simp +arith

theorem lexemes_flatten (language : Language) (before : List Char) (lineStart : Bool)
    (rest : List Char) :
    (lexemes language before lineStart rest).flatMap Lexeme.text = rest := by
  fun_induction lexemes language before lineStart rest with
  | case1 => rfl
  | case2 => simp_all
  | case3 => simp_all
  | case4 => simp_all
  | case5 before lineStart c cs _ _ found _ text ih => rw [List.flatMap_cons, ih]; simp [text]

/-- The tokens among lexemes, the first of which starts at the given byte offset. -/
def tokensFrom : Nat → List Lexeme → List Token
  | _, [] => []
  | offset, l :: ls =>
    let stop := offset + Text.byteLength l.text
    match l.category with
    | some category => ⟨offset, stop, category⟩ :: tokensFrom stop ls
    | none => tokensFrom stop ls

def tokenize (language : Language) (code : String) : List Token :=
  tokensFrom 0 (lexemes language [] true code.toList)

end Lexer

/-- The highlighter that applies the lexical rules of the language with the given tag. -/
def Highlighter.lexical : Highlighter where
  tokenize code tag :=
    match tag.bind Language.find? with
    | some language => Lexer.tokenize language code
    | none => []
  supports tag := (Language.find? tag).isSome

end RichMarkdown
