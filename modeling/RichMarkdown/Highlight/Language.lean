import RichMarkdown.Text.Ascii
import RichMarkdown.Text.Blank

/-!
# Languages

What the lexer has to know about a language: its reserved words, its comments and quotes, and how it
writes attributes, variables and keys. `Language.find?` looks a language up by the tag of a code
block.
-/

set_option autoImplicit false

namespace RichMarkdown

/-- How a language writes attributes. -/
inductive AttributeForm where
  | absent
  /-- An at sign and a dotted name. -/
  | decorator
  /-- A number sign, perhaps an exclamation mark, and balanced square brackets. -/
  | brackets
  /-- A number sign and a name at the start of a line. -/
  | directive
  deriving DecidableEq, Repr

structure Language where
  name : String
  aliases : List String := []
  keywords : List String := []
  types : List String := []
  lineComments : List String := []
  /-- The marks that open and close a comment that may span lines. -/
  blockComment : Option (String × String) := none
  quotes : List Char := ['\"']
  /-- Whether three quotes open a string that may span lines. -/
  tripleQuotes : Bool := false
  attributes : AttributeForm := .absent
  /-- Whether a word with a capital first letter is a type. -/
  capitalizedTypes : Bool := false
  /-- Whether a word, an exclamation mark and an opening bracket are a call. -/
  bangCalls : Bool := false
  /-- The character before the name of a variable. -/
  sigil : Option Char := none
  keySeparator : Option Char := none
  /-- Characters of words besides letters, digits and underscores. -/
  wordChars : List Char := []
  deriving DecidableEq, Repr

namespace Language

def rust : Language where
  name := "rust"
  aliases := ["rs"]
  keywords :=
    ["as", "async", "await", "break", "const", "continue", "crate", "dyn", "else", "enum",
     "extern", "false", "fn", "for", "if", "impl", "in", "let", "loop", "match", "mod", "move",
     "mut", "pub", "ref", "return", "self", "Self", "static", "struct", "super", "trait", "true",
     "type", "union", "unsafe", "use", "where", "while", "yield"]
  types :=
    ["bool", "char", "str", "u8", "u16", "u32", "u64", "u128", "usize", "i8", "i16", "i32", "i64",
     "i128", "isize", "f32", "f64"]
  lineComments := ["//"]
  blockComment := some ("/*", "*/")
  attributes := .brackets
  capitalizedTypes := true
  bangCalls := true

def swift : Language where
  name := "swift"
  keywords :=
    ["any", "associatedtype", "async", "await", "break", "case", "catch", "class", "continue",
     "default", "defer", "deinit", "do", "else", "enum", "extension", "fallthrough", "false",
     "fileprivate", "for", "func", "guard", "if", "import", "in", "init", "inout", "internal",
     "is", "let", "nil", "open", "operator", "private", "protocol", "public", "repeat",
     "rethrows", "return", "self", "Self", "some", "static", "struct", "subscript", "super",
     "switch", "throw", "throws", "true", "try", "typealias", "var", "where", "while"]
  lineComments := ["//"]
  blockComment := some ("/*", "*/")
  tripleQuotes := true
  attributes := .decorator
  capitalizedTypes := true

def python : Language where
  name := "python"
  aliases := ["py", "python3"]
  keywords :=
    ["False", "None", "True", "and", "as", "assert", "async", "await", "break", "case", "class",
     "continue", "def", "del", "elif", "else", "except", "finally", "for", "from", "global", "if",
     "import", "in", "is", "lambda", "match", "nonlocal", "not", "or", "pass", "raise", "return",
     "self", "try", "while", "with", "yield"]
  types := ["bool", "bytes", "dict", "float", "int", "list", "object", "set", "str", "tuple"]
  lineComments := ["#"]
  quotes := ['\"', '\'']
  tripleQuotes := true
  attributes := .decorator
  capitalizedTypes := true

def javascript : Language where
  name := "javascript"
  aliases := ["js", "jsx", "mjs", "cjs"]
  keywords :=
    ["async", "await", "break", "case", "catch", "class", "const", "continue", "debugger",
     "default", "delete", "do", "else", "export", "extends", "false", "finally", "for", "from",
     "function", "if", "import", "in", "instanceof", "let", "new", "null", "of", "return",
     "static", "super", "switch", "this", "throw", "true", "try", "typeof", "undefined", "var",
     "void", "while", "with", "yield"]
  lineComments := ["//"]
  blockComment := some ("/*", "*/")
  quotes := ['\"', '\'', '\x60']
  attributes := .decorator
  capitalizedTypes := true

def typescript : Language where
  name := "typescript"
  aliases := ["ts", "tsx"]
  keywords :=
    ["abstract", "as", "async", "await", "break", "case", "catch", "class", "const", "continue",
     "declare", "default", "delete", "do", "else", "enum", "export", "extends", "false",
     "finally", "for", "from", "function", "if", "implements", "import", "in", "instanceof",
     "interface", "keyof", "let", "namespace", "new", "null", "of", "private", "protected",
     "public", "readonly", "return", "static", "super", "switch", "this", "throw", "true", "try",
     "type", "typeof", "undefined", "var", "void", "while", "yield"]
  types :=
    ["any", "bigint", "boolean", "never", "number", "object", "string", "symbol", "unknown"]
  lineComments := ["//"]
  blockComment := some ("/*", "*/")
  quotes := ['\"', '\'', '\x60']
  attributes := .decorator
  capitalizedTypes := true

def c : Language where
  name := "c"
  aliases := ["h"]
  keywords :=
    ["NULL", "auto", "break", "case", "const", "continue", "default", "do", "else", "enum",
     "extern", "false", "for", "goto", "if", "inline", "register", "restrict", "return", "sizeof",
     "static", "struct", "switch", "true", "typedef", "union", "volatile", "while"]
  types :=
    ["bool", "char", "double", "float", "int", "int16_t", "int32_t", "int64_t", "int8_t", "long",
     "short", "signed", "size_t", "uint16_t", "uint32_t", "uint64_t", "uint8_t", "unsigned",
     "void"]
  lineComments := ["//"]
  blockComment := some ("/*", "*/")
  quotes := ['\"', '\'']
  attributes := .directive

def go : Language where
  name := "go"
  aliases := ["golang"]
  keywords :=
    ["break", "case", "chan", "const", "continue", "default", "defer", "else", "fallthrough",
     "false", "for", "func", "go", "goto", "if", "import", "interface", "iota", "map", "nil",
     "package", "range", "return", "select", "struct", "switch", "true", "type", "var"]
  types :=
    ["any", "bool", "byte", "complex128", "complex64", "error", "float32", "float64", "int",
     "int16", "int32", "int64", "int8", "rune", "string", "uint", "uint16", "uint32", "uint64",
     "uint8", "uintptr"]
  lineComments := ["//"]
  blockComment := some ("/*", "*/")
  quotes := ['\"', '\'', '\x60']

def json : Language where
  name := "json"
  aliases := ["jsonc", "json5"]
  keywords := ["false", "null", "true"]
  lineComments := ["//"]
  blockComment := some ("/*", "*/")
  keySeparator := some ':'

def shell : Language where
  name := "shell"
  aliases := ["sh", "bash", "zsh", "console", "shell-session"]
  keywords :=
    ["break", "case", "continue", "do", "done", "elif", "else", "esac", "export", "fi", "for",
     "function", "if", "in", "local", "readonly", "return", "then", "unset", "until", "while"]
  lineComments := ["#"]
  quotes := ['\"', '\'']
  sigil := some '$'

def toml : Language where
  name := "toml"
  keywords := ["false", "true"]
  lineComments := ["#"]
  quotes := ['\"', '\'']
  tripleQuotes := true
  keySeparator := some '='
  wordChars := ['-']

/-- All languages the lexer knows. -/
def all : List Language :=
  [rust, swift, python, javascript, typescript, c, go, json, shell, toml]

/-- Whether a tag is the name of a language or one of its other names, in any case. -/
def isNamed (language : Language) (tag : String) : Bool :=
  (language.name :: language.aliases).any (Text.sameIgnoringCase · tag)

/-- The language of a tag, blanks around the tag aside. -/
def find? (tag : String) : Option Language := all.find? (·.isNamed (Text.trimmed tag))

end Language

end RichMarkdown
