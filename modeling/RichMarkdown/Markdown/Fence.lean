import RichMarkdown.Text.Blank

/-!
# Code fences

Whether a line of Markdown lies in a fenced code block, decided line by line. A fence is a run of at
least three back quotes or tildes after blanks; it is closed by a run of the same character that is
at least as long and stands alone.
-/

set_option autoImplicit false

namespace RichMarkdown

structure Fence where
  mark : Char
  length : Nat
  deriving DecidableEq, Repr

namespace Fence

/-- The length of the run of a character at the start of a text. -/
def runLength (mark : Char) (cs : List Char) : Nat := (cs.takeWhile (· == mark)).length

def opening? (line : List Char) : Option Fence :=
  match Text.trimStart line with
  | [] => none
  | c :: cs =>
    let length := runLength c (c :: cs)
    if (c == '\x60' || c == '~') && 3 ≤ length then some ⟨c, length⟩ else none

def isClosedBy (f : Fence) (line : List Char) : Bool :=
  let cs := Text.trimStart line
  f.length ≤ runLength f.mark cs && Text.allBlank (cs.dropWhile (· == f.mark))

/-- The fence that is open after a line, given the one before it. -/
def after (fence : Option Fence) (line : List Char) : Option Fence :=
  match fence with
  | none => opening? line
  | some f => if f.isClosedBy line then none else some f

/-- Whether a line opens or closes a fence. -/
def changes (fence : Option Fence) (line : List Char) : Bool :=
  match fence with
  | none => (opening? line).isSome
  | some f => f.isClosedBy line

/-- Whether a line is a fence or lies between two. -/
def covers (fence : Option Fence) (line : List Char) : Bool :=
  changes fence line || (after fence line).isSome

end Fence

end RichMarkdown
