import RichMarkdown.Proofs.Document.Comments

/-!
# What a page shows

The parts of a document that a page shows as text, in order (`blocksShown`), read off the tree
without any walk, and the text they make up (`shownText`). Only the numbers of footnotes depend on
what came before: a label has the number of its first use, so the text is made from the labels seen
so far.

* `shownText_append`: the text of parts put together, the second from the labels of the first.
-/

set_option autoImplicit false

namespace RichMarkdown

/-! ## Parts -/

/-- A part of what a page shows. -/
inductive Shown where
  | text (s : String)
  | code (language : Option String) (literal : String)
  /-- The number of a footnote, at a reference or at the definition. -/
  | footnote (label : String)
  deriving DecidableEq, Repr

mutual

/-- What is shown of an inline. -/
def Inline.shown : Inline → List Shown
  | .text s | .code s => [.text s]
  | .softBreak => [.text "\n"]
  | .footnote label => [.footnote label]
  | .marked _ children => inlinesShown children
  | .directive name _ content => if isCommentName name then [] else inlinesShown content
  | .lineBreak | .html _ | .image _ _ _ => []

/-- What is shown of inlines, in order. -/
def inlinesShown : List Inline → List Shown
  | [] => []
  | i :: is => i.shown ++ inlinesShown is

end

/-- What is shown of the cells of a row. -/
def rowShown (cells : List (List Inline)) : List Shown := cells.flatMap inlinesShown

/-- What is shown of the argument of a command. -/
def Command.argumentShown (c : Command) : List Shown :=
  match c.argument with
  | none => []
  | some argument => .text argument :: if c.content.isEmpty then [] else [.text " "]

/-- What is shown of the label of a directive, other than as a title. -/
def Directive.labelShown (head : Directive) : List Shown :=
  if head.kind = .leaf then inlinesShown head.label else []

/-- The title of a quote that is a call-out. -/
def alertTexts (alert : Option Alert) : List String := alert.toList.map Alert.title

/-- The space after the checkbox of a task. -/
def taskTexts (task : Option Bool) : List String := task.toList.map fun _ => " "

mutual

/-- What is shown of a block. -/
def Block.shown : Block → List Shown
  | .paragraph content | .heading _ content => inlinesShown content
  | .code language literal => [.code language literal]
  | .list _ _ items => itemsShown items
  | .quote alert children => (alertTexts alert).map .text ++ blocksShown children
  | .table t => rowShown t.header ++ t.rows.flatMap rowShown
  | .footnote label children => .footnote label :: blocksShown children
  | .directive head children =>
    if isCommentName head.name then []
    else
      (titleTexts head.name head.label).map .text ++ (head.labelShown ++ blocksShown children)
  | .command c => c.argumentShown ++ inlinesShown c.content
  | .rule | .html _ | .metadata _ => []

/-- What is shown of blocks, in order. -/
def blocksShown : List Block → List Shown
  | [] => []
  | b :: bs => b.shown ++ blocksShown bs

/-- What is shown of list items, in order. -/
def itemsShown : List Item → List Shown
  | [] => []
  | ⟨task, children⟩ :: rest =>
    (taskTexts task).map .text ++ blocksShown children ++ itemsShown rest

end

/-! ## Code blocks -/

def Shown.code? : Shown → Option (Option String × String)
  | .code language literal => some (language, literal)
  | .text _ | .footnote _ => none

/-- The code blocks that a document shows, each with its language. -/
def shownCode (d : Document) : List (Option String × String) :=
  (blocksShown d).filterMap Shown.code?

/-! ## Text -/

/-- The labels seen after one more use of a label. -/
def seeLabel (seen : List String) (label : String) : List String :=
  if label ∈ seen then seen else seen ++ [label]

/-- The labels seen after some parts. -/
def seenAfter (seen : List String) : List Shown → List String
  | [] => seen
  | .footnote label :: rest => seenAfter (seeLabel seen label) rest
  | .text _ :: rest | .code _ _ :: rest => seenAfter seen rest

/-- The number of a label that was seen. -/
def labelNumber (seen : List String) (label : String) : Nat := seen.idxOf label + 1

/-- The text of some parts, after the labels seen before. -/
def shownText (seen : List String) : List Shown → List Char
  | [] => []
  | .text s :: rest => s.toList ++ shownText seen rest
  | .code _ literal :: rest => literal.toList ++ shownText seen rest
  | .footnote label :: rest =>
    (toString (labelNumber (seeLabel seen label) label)).toList ++
      shownText (seeLabel seen label) rest

theorem seenAfter_append (xs ys : List Shown) (seen : List String) :
    seenAfter seen (xs ++ ys) = seenAfter (seenAfter seen xs) ys := by
  induction xs generalizing seen with
  | nil => rfl
  | cons x xs ih => cases x <;> exact ih _

/-- **The text of parts put together.** -/
theorem shownText_append (xs ys : List Shown) (seen : List String) :
    shownText seen (xs ++ ys) = shownText seen xs ++ shownText (seenAfter seen xs) ys := by
  induction xs generalizing seen with
  | nil => rfl
  | cons x xs ih => cases x <;> simp [shownText, seenAfter, ih]

theorem seenAfter_texts (texts : List String) (seen : List String) :
    seenAfter seen (texts.map .text) = seen := by
  induction texts with
  | nil => rfl
  | cons t ts ih => exact ih

theorem shownText_texts (texts : List String) (seen : List String) :
    shownText seen (texts.map .text) = texts.flatMap String.toList := by
  induction texts with
  | nil => rfl
  | cons t ts ih => rw [List.map_cons, shownText, ih, List.flatMap_cons]

/-- The number that a context gives to a footnote is that of its label among those seen. -/
theorem Context.footnoteNumber_eq (c : Context) (label : String) :
    c.footnoteNumber label = (labelNumber (seeLabel c.footnotes label) label,
      { c with footnotes := seeLabel c.footnotes label }) := by
  unfold footnoteNumber seeLabel labelNumber
  cases h : c.footnotes.idxOf? label with
  | none =>
    have hm : label ∉ c.footnotes := List.idxOf?_eq_none_iff.mp h
    simp [hm, List.idxOf_append]
  | some i =>
    have hm : label ∈ c.footnotes := by
      rw [← List.isSome_idxOf?, h]
      rfl
    have hi : c.footnotes.idxOf label = i := by
      rw [List.idxOf_eq_getD_idxOf?, h]
      rfl
    simp [hm, hi]

end RichMarkdown
