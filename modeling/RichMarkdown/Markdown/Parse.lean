import RichMarkdown.Command.Split
import RichMarkdown.Directive.Inline
import RichMarkdown.Directive.Piece

/-!
# Reading Markdown

`Document.parse` reads a Markdown text with all its extensions. Block directives are cut out first
and leave placeholders, raw HTML that the grammar keeps in its place; when the rest has been read,
each directive takes the place of its placeholder (`Placement.blocks`). Directives whose placeholder
is lost come last.
-/

set_option autoImplicit false

namespace RichMarkdown

namespace Placeholder

def opener : String := "<!--prism-directive-"

def closer : String := "-->"

/-- The placeholder of the directive with an index, set apart by blank lines. -/
def block (index : Nat) : String := "\n" ++ opener ++ toString index ++ closer ++ "\n\n"

/-- The number that digits stand for, which may follow a plus sign. -/
def number? (cs : List Char) : Option Nat :=
  let digits := match cs with
    | '+' :: rest => rest
    | _ => cs
  if digits.isEmpty || ! digits.all Char.isDigit then none
  else some (digits.foldl (fun n d => 10 * n + (d.toNat - '0'.toNat)) 0)

/-- What remains of a text without the given start. -/
def dropStart? : List Char → List Char → Option (List Char)
  | [], cs => some cs
  | _ :: _, [] => none
  | p :: ps, c :: cs => if p = c then dropStart? ps cs else none

def dropEnd? (ending cs : List Char) : Option (List Char) :=
  (dropStart? ending.reverse cs.reverse).map List.reverse

/-- The index of a placeholder, blanks around it aside. -/
def index? (html : String) : Option Nat := do
  let rest ← dropStart? opener.toList (Text.trim html.toList)
  let digits ← dropEnd? closer.toList rest
  number? digits

end Placeholder

/-- Directives on their way to their places; those already placed are gone from the list. -/
abbrev Placement := List (Option Block)

namespace Placement

/-- Takes the directive with an index, if it has not been placed. -/
def take? (p : Placement) (index : Nat) : Option (Block × Placement) :=
  (p[index]?.join).map fun b => (b, p.set index none)

/-- What stands in the place of raw HTML, and the directives left. -/
def html (p : Placement) (s : String) : Block × Placement :=
  match (Placeholder.index? s).bind p.take? with
  | some placed => placed
  | none => (.html s, p)

mutual

/-- A block with placeholders replaced by their directives, and the directives left. -/
def block (p : Placement) : Block → Block × Placement
  | .html s => p.html s
  | .list start tight children =>
    let (children, p) := items p children
    (.list start tight children, p)
  | .quote alert children =>
    let (children, p) := blocks p children
    (.quote alert children, p)
  | .footnote label children =>
    let (children, p) := blocks p children
    (.footnote label children, p)
  | b => (b, p)

def blocks (p : Placement) : List Block → List Block × Placement
  | [] => ([], p)
  | b :: bs =>
    let (b, p) := block p b
    let (bs, p) := blocks p bs
    (b :: bs, p)

def items (p : Placement) : List Item → List Item × Placement
  | [] => ([], p)
  | ⟨task, children⟩ :: rest =>
    let (children, p) := blocks p children
    let (rest, p) := items p rest
    (⟨task, children⟩ :: rest, p)

end

/-- Blocks with all directives placed; those without a placeholder come last. -/
def place (directives : List Block) (bs : List Block) : List Block :=
  let (bs, left) := blocks (directives.map some) bs
  bs ++ left.reduceOption

end Placement

namespace Piece

/-- The text for the grammar: plain Markdown, and placeholders numbered from the given index. -/
def source : Nat → List Piece → String
  | _, [] => ""
  | n, .markdown text :: rest => text ++ source n rest
  | n, _ :: rest => Placeholder.block n ++ source (n + 1) rest

end Piece

set_option linter.unusedVariables false in
/-- The blocks of a text with block directives. Links are looked up in the outer text as well. -/
def parseBlocks (g : Grammar) (o : Options) (outer text : String) : List Block :=
  let pieces := Piece.split text
  let directives := pieces.attach.filterMap fun
    | ⟨.markdown _, _⟩ => none
    | ⟨.leaf head, _⟩ =>
      some (.directive ⟨head.name, .leaf, g.label o (head.label.getD ""), head.attributes⟩ [])
    | ⟨.container head body, h⟩ =>
      some (.directive ⟨head.name, .container, g.label o (head.label.getD ""), head.attributes⟩
        (parseBlocks g o outer body))
  Placement.place directives (g.blocks o (some outer) (Piece.source 0 pieces))
termination_by text.toList.length
decreasing_by exact Piece.length_body_lt h

/-- The document that a Markdown text describes. -/
def Document.parse (g : Grammar) (o : Options) (text : String) : Document :=
  let bs := if o.blockDirectives then parseBlocks g o text text else g.blocks o none text
  let bs := if o.inlineDirectives then expandBlocks g o bs else bs
  if o.commands then splitCommands bs else bs

end RichMarkdown
