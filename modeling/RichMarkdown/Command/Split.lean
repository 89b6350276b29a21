import RichMarkdown.Document.Tree
import RichMarkdown.Text.Blank

/-!
# Documentation commands

A line of a paragraph that starts with a backslash or an at sign and the name of a command starts a
command, which runs to the next such line or the end of the paragraph. `Block.splitCommands` puts
the commands of a paragraph in its place, after a paragraph of the lines before the first.
-/

set_option autoImplicit false

namespace RichMarkdown

open Text (isBlank trimStart)

namespace Command

def names : List String := ["param", "returns", "return", "note", "discussion", "abstract"]

/-- The name that a command goes by in a document. -/
def canonicalName (name : String) : String := if name = "return" then "returns" else name

/-- The name of the command that a text starts with, and the text after the name. -/
def atStart? : List Char → Option (String × List Char)
  | [] => none
  | c :: cs =>
    let word := String.ofList (cs.takeWhile (! isBlank ·))
    if (c == '\\' || c == '@') && names.contains word then
      some (word, cs.dropWhile (! isBlank ·))
    else none

/-- The argument at the start of a text, and what follows it. Only some commands have one. -/
def takeArgument (name : String) (cs : List Char) : Option String × List Char :=
  let cs := trimStart cs
  if name = "param" then
    let word := cs.takeWhile (! isBlank ·)
    (if word.isEmpty then none else some (String.ofList word),
      trimStart (cs.dropWhile (! isBlank ·)))
  else (none, cs)

/-- The command that a line starts, with the rest of the line as its text. -/
def ofLine? : List Inline → Option Command
  | .text s :: rest =>
    (atStart? s.toList).map fun (name, after) =>
      let (argument, text) := takeArgument name after
      ⟨canonicalName name, argument,
        if text.isEmpty then rest else .text (String.ofList text) :: rest⟩
  | _ => none

/-- The lines of a paragraph: what stands between its soft breaks. -/
def lines : List Inline → List (List Inline)
  | [] => [[]]
  | .softBreak :: is => [] :: lines is
  | i :: is =>
    match lines is with
    | [] => [[i]]
    | l :: ls => (i :: l) :: ls

/-- Adds a line to inlines, with a soft break between the two. -/
def joinLine (content line : List Inline) : List Inline :=
  if content.isEmpty then line else content ++ .softBreak :: line

/-- The commands in lines, the first of which goes on a command. -/
def continued (c : Command) : List (List Inline) → List Block
  | [] => [.command c]
  | l :: ls =>
    match ofLine? l with
    | some next => .command c :: continued next ls
    | none => continued { c with content := joinLine c.content l } ls

/-- A paragraph of the given inlines, unless there are none. -/
def paragraphOf (content : List Inline) : List Block :=
  if content.isEmpty then [] else [.paragraph content]

/-- The paragraph and the commands in lines, the first of which goes on a paragraph. -/
def splitLines (content : List Inline) : List (List Inline) → List Block
  | [] => paragraphOf content
  | l :: ls =>
    match ofLine? l with
    | some c => paragraphOf content ++ continued c ls
    | none => splitLines (joinLine content l) ls

/-- The blocks that stand for a paragraph; one without commands stays as it is. -/
def splitParagraph (content : List Inline) : List Block :=
  if (lines content).any fun l => (ofLine? l).isSome then splitLines [] (lines content)
  else [.paragraph content]

end Command

mutual

/-- The blocks that stand for a block when its commands are set apart. -/
def Block.splitCommands : Block → List Block
  | .paragraph content => Command.splitParagraph content
  | .list start tight items => [.list start tight (splitCommandsInItems items)]
  | .quote alert children => [.quote alert (splitCommands children)]
  | .footnote label children => [.footnote label (splitCommands children)]
  | .directive head children => [.directive head (splitCommands children)]
  | .heading level content => [.heading level content]
  | .code language literal => [.code language literal]
  | .rule => [.rule]
  | .html s => [.html s]
  | .table t => [.table t]
  | .metadata s => [.metadata s]
  | .command c => [.command c]

def splitCommands : List Block → List Block
  | [] => []
  | b :: bs => b.splitCommands ++ splitCommands bs

def splitCommandsInItems : List Item → List Item
  | [] => []
  | ⟨task, children⟩ :: rest => ⟨task, splitCommands children⟩ :: splitCommandsInItems rest

end

end RichMarkdown
