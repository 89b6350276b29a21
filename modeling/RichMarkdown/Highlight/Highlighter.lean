import RichMarkdown.Highlight.Token

/-!
# Highlighters

A highlighter finds the tokens of a code text in a language. Renderers use its answer only when
there are tokens and they fit the code (`Highlighter.fittingTokens?`).
-/

set_option autoImplicit false

namespace RichMarkdown

structure Highlighter where
  /-- The tokens of a code text, given the tag of its language if it has one. -/
  tokenize : String → Option String → List Token
  supports : String → Bool

namespace Highlighter

/-- The highlighter that knows no language. -/
def plain : Highlighter where
  tokenize _ _ := []
  supports _ := false

/-- The tokens to render a code text with: none when there are no tokens or they do not fit. -/
def fittingTokens? (h : Highlighter) (code : String) (language : Option String) :
    Option (List Token) :=
  match h.tokenize code language with
  | [] => none
  | tokens =>
    match Token.check code tokens with
    | .ok _ => some tokens
    | .error _ => none

end Highlighter

end RichMarkdown
