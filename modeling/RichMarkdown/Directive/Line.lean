import RichMarkdown.Directive.Head

/-!
# Directive lines

A line that starts with two colons and a head is a directive without a body. Three or more colons
start a directive with a body when a head follows, and end one when they stand alone.
-/

set_option autoImplicit false

namespace RichMarkdown

/-- A line that is directive syntax. -/
inductive DirectiveLine where
  | containerStart (colons : Nat) (head : Head)
  | containerEnd (colons : Nat)
  | leaf (head : Head)
  deriving DecidableEq, Repr

namespace DirectiveLine

/-- What three or more colons and the text after them are. -/
def ofContainer? (colons : Nat) (after : List Char) : Option DirectiveLine :=
  if after.isEmpty then some (.containerEnd colons)
  else (Head.read? after).map fun p => .containerStart colons p.1

/-- What two colons and the text after them are; nothing may follow the head. -/
def ofLeaf? (after : List Char) : Option DirectiveLine :=
  match Head.read? after with
  | some (head, rest) => if Text.allBlank rest then some (.leaf head) else none
  | none => none

/-- What a line is; blanks at its end do not count. -/
def read? (line : List Char) : Option DirectiveLine :=
  let line := Text.trimEnd line
  let colons := (line.takeWhile (· == ':')).length
  let after := line.dropWhile (· == ':')
  if colons = 2 then ofLeaf? after
  else if 3 ≤ colons then ofContainer? colons (Text.trimStart after)
  else none

end DirectiveLine

end RichMarkdown
