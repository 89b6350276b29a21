import RichMarkdown.Text.Offset
import RichMarkdown.Theme.Category

/-!
# Tokens

A token gives a category to a range of bytes of a code text. `Token.check` says whether a list of
tokens fits a code text; `segments` cuts the code along its tokens, passing over those that do not
fit, so that nothing of the code is lost or repeated.
-/

set_option autoImplicit false

namespace RichMarkdown

/-- A category for the bytes from `start` up to but without `stop`. -/
structure Token where
  start : Nat
  stop : Nat
  category : Category
  deriving DecidableEq, Repr

/-- Why a list of tokens does not fit a code text. -/
inductive TokenFault where
  /-- A token ends before it starts or past the end of the code. -/
  | outOfBounds (start stop length : Nat)
  /-- A token starts before the one before it ends. -/
  | overlap (previousStop start : Nat)
  /-- An end of a token lies inside a character. -/
  | notBoundary (offset : Nat)
  deriving DecidableEq, Repr

def TokenFault.message : TokenFault → String
  | .outOfBounds start stop length =>
    s!"token {start}..{stop} is outside code of length {length}"
  | .overlap previousStop start =>
    s!"token starting at {start} overlaps previous token ending at {previousStop}"
  | .notBoundary offset => s!"token boundary {offset} is not on a character boundary"

namespace Token

def text? (t : Token) (code : String) : Option String :=
  (Text.slice? t.start t.stop code.toList).map String.ofList

/-- The first fault among tokens that follow one ending at `previousStop`. -/
def firstFault? (code : List Char) : Nat → List Token → Option TokenFault
  | _, [] => none
  | previousStop, t :: ts =>
    if t.stop < t.start || Text.byteLength code < t.stop then
      some (.outOfBounds t.start t.stop (Text.byteLength code))
    else if t.start < previousStop then some (.overlap previousStop t.start)
    else if ! Text.isBoundary t.start code then some (.notBoundary t.start)
    else if ! Text.isBoundary t.stop code then some (.notBoundary t.stop)
    else firstFault? code t.stop ts

/-- Checks that tokens are in bounds, in order, apart and on character boundaries. -/
def check (code : String) (tokens : List Token) : Except TokenFault Unit :=
  match firstFault? code.toList 0 tokens with
  | some fault => .error fault
  | none => .ok ()

end Token

/-- A piece of code, with the category of the token that covers it. -/
structure Segment where
  text : String
  category : Option Category
  deriving DecidableEq, Repr

/-- The segment of code outside all tokens, if there is any. -/
def Segment.gap : List Char → List Segment
  | [] => []
  | cs => [⟨String.ofList cs, none⟩]

/-- The segments of `rest`, the code from byte `pos` on, along the tokens still to come. -/
def segmentsFrom : Nat → List Char → List Token → List Segment
  | _, rest, [] => Segment.gap rest
  | pos, rest, t :: ts =>
    if t.start < pos || t.stop ≤ t.start then segmentsFrom pos rest ts
    else
      match Text.splitAt? (t.start - pos) rest with
      | none => segmentsFrom pos rest ts
      | some (before, fromStart) =>
        Segment.gap before ++
          match Text.splitAt? (t.stop - t.start) fromStart with
          | none => segmentsFrom t.start fromStart ts
          | some (text, after) =>
            ⟨String.ofList text, some t.category⟩ :: segmentsFrom t.stop after ts

/-- The code cut along its tokens. -/
def segments (code : String) (tokens : List Token) : List Segment :=
  segmentsFrom 0 code.toList tokens

end RichMarkdown
