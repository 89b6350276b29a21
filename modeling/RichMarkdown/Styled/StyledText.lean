import RichMarkdown.Theme.Color

/-!
# Styled text

Text in runs of one style each. `StyledText.push` adds text at the end: it joins the last run when
the styles agree, so neighbouring runs always differ, and empty text adds nothing.
-/

set_option autoImplicit false

namespace RichMarkdown

/-- The height of a run in its line. -/
inductive Baseline where
  | normal
  | superscript
  | subscript
  deriving DecidableEq, Repr, Inhabited

structure TextStyle where
  bold : Bool := false
  italic : Bool := false
  underline : Bool := false
  strikethrough : Bool := false
  monospace : Bool := false
  baseline : Baseline := .normal
  /-- The size of the font relative to running text. -/
  scale : Rat := 1
  /-- The colour, unless it is the usual one. -/
  foreground : Option Color := none
  link : Option String := none
  deriving DecidableEq, Repr, Inhabited

/-- The scale of a heading; a level below one or above six counts as one or six. -/
def headingScale : Nat → Rat
  | 0 | 1 => 2
  | 2 => ⟨3, 2, by decide, by decide⟩
  | 3 => ⟨5, 4, by decide, by decide⟩
  | 4 => ⟨11, 10, by decide, by decide⟩
  | 5 => 1
  | _ => ⟨9, 10, by decide, by decide⟩

structure StyledRun where
  text : String
  style : TextStyle
  deriving DecidableEq, Repr

structure StyledText where
  /-- The runs from the last to the first. -/
  latestFirst : List StyledRun := []
  deriving DecidableEq, Repr, Inhabited

namespace StyledText

def runs (t : StyledText) : List StyledRun := t.latestFirst.reverse

def isEmpty (t : StyledText) : Bool := t.latestFirst.isEmpty

def text (t : StyledText) : String := String.join (t.runs.map (·.text))

def push (t : StyledText) (text : String) (style : TextStyle) : StyledText :=
  if text.isEmpty then t
  else
    match t.latestFirst with
    | last :: earlier =>
      if last.style = style then ⟨{ last with text := last.text ++ text } :: earlier⟩
      else ⟨⟨text, style⟩ :: last :: earlier⟩
    | [] => ⟨[⟨text, style⟩]⟩

end StyledText

end RichMarkdown
