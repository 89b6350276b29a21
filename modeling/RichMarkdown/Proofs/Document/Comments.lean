import Mathlib.Data.List.Forall2
import RichMarkdown.Html.Page

/-!
# Documents apart from their comments

`BlocksAlike d d'`: the documents `d` and `d'` differ at most inside comments. No rendering visits
what a comment holds, but some inlines are not only visited: their text is read flat, for the titles
and anchors of headings, for the alternative texts of images and for the titles of call-outs.
`blocksFlatTexts d` lists these texts in the order of the document.
-/

set_option autoImplicit false

namespace RichMarkdown

/-! ## Differences inside comments -/

mutual

/-- Two inlines that differ at most inside comments. -/
inductive Inline.Alike : Inline → Inline → Prop
  | text (s : String) : Inline.Alike (.text s) (.text s)
  | code (s : String) : Inline.Alike (.code s) (.code s)
  | softBreak : Inline.Alike .softBreak .softBreak
  | lineBreak : Inline.Alike .lineBreak .lineBreak
  | html (s : String) : Inline.Alike (.html s) (.html s)
  | footnote (label : String) : Inline.Alike (.footnote label) (.footnote label)
  | marked (mark : Mark) {is js : List Inline} : InlinesAlike is js →
      Inline.Alike (.marked mark is) (.marked mark js)
  | image (source title : String) {is js : List Inline} : InlinesAlike is js →
      Inline.Alike (.image source title is) (.image source title js)
  | directive (name : String) (attributes : Attributes) {is js : List Inline} :
      InlinesAlike is js →
      Inline.Alike (.directive name attributes is) (.directive name attributes js)
  /-- Comments of one name may differ in all that they hold. -/
  | comment {name : String} (attributes attributes' : Attributes) (is js : List Inline) :
      isCommentName name = true →
      Inline.Alike (.directive name attributes is) (.directive name attributes' js)

/-- Inlines that pairwise differ at most inside comments. -/
inductive InlinesAlike : List Inline → List Inline → Prop
  | nil : InlinesAlike [] []
  | cons {i j : Inline} {is js : List Inline} : i.Alike j → InlinesAlike is js →
      InlinesAlike (i :: is) (j :: js)

end

/-- Rows of cells that differ at most inside comments. -/
abbrev RowAlike : List (List Inline) → List (List Inline) → Prop := List.Forall₂ InlinesAlike

mutual

/-- Two blocks that differ at most inside comments. -/
inductive Block.Alike : Block → Block → Prop
  | paragraph {is js : List Inline} : InlinesAlike is js →
      Block.Alike (.paragraph is) (.paragraph js)
  | heading (level : Nat) {is js : List Inline} : InlinesAlike is js →
      Block.Alike (.heading level is) (.heading level js)
  | code (language : Option String) (literal : String) :
      Block.Alike (.code language literal) (.code language literal)
  | list (start : Option UInt64) (tight : Bool) {is js : List Item} : ItemsAlike is js →
      Block.Alike (.list start tight is) (.list start tight js)
  | quote (alert : Option Alert) {bs cs : List Block} : BlocksAlike bs cs →
      Block.Alike (.quote alert bs) (.quote alert cs)
  | rule : Block.Alike .rule .rule
  | html (s : String) : Block.Alike (.html s) (.html s)
  | table (alignments : List Alignment) {header header' : List (List Inline)}
      {rows rows' : List (List (List Inline))} : RowAlike header header' →
      List.Forall₂ RowAlike rows rows' →
      Block.Alike (.table ⟨alignments, header, rows⟩) (.table ⟨alignments, header', rows'⟩)
  | footnote (label : String) {bs cs : List Block} : BlocksAlike bs cs →
      Block.Alike (.footnote label bs) (.footnote label cs)
  | metadata (s : String) : Block.Alike (.metadata s) (.metadata s)
  | directive (name : String) (kind : DirectiveKind) (attributes : Attributes)
      {label label' : List Inline} {bs cs : List Block} : InlinesAlike label label' →
      BlocksAlike bs cs →
      Block.Alike (.directive ⟨name, kind, label, attributes⟩ bs)
        (.directive ⟨name, kind, label', attributes⟩ cs)
  | command (name : String) (argument : Option String) {is js : List Inline} :
      InlinesAlike is js →
      Block.Alike (.command ⟨name, argument, is⟩) (.command ⟨name, argument, js⟩)
  /-- Comments of one name and kind may differ in their labels and attributes and in all that they
  hold. -/
  | comment {name : String} (kind : DirectiveKind) (label label' : List Inline)
      (attributes attributes' : Attributes) (bs cs : List Block) : isCommentName name = true →
      Block.Alike (.directive ⟨name, kind, label, attributes⟩ bs)
        (.directive ⟨name, kind, label', attributes'⟩ cs)

/-- Blocks that pairwise differ at most inside comments. -/
inductive BlocksAlike : List Block → List Block → Prop
  | nil : BlocksAlike [] []
  | cons {b c : Block} {bs cs : List Block} : b.Alike c → BlocksAlike bs cs →
      BlocksAlike (b :: bs) (c :: cs)

/-- List items that pairwise differ at most inside comments. -/
inductive ItemsAlike : List Item → List Item → Prop
  | nil : ItemsAlike [] []
  | cons (task : Option Bool) {bs cs : List Block} {is js : List Item} : BlocksAlike bs cs →
      ItemsAlike is js → ItemsAlike (⟨task, bs⟩ :: is) (⟨task, cs⟩ :: js)

end

theorem InlinesAlike.isEmpty_eq {is js : List Inline} (h : InlinesAlike is js) :
    is.isEmpty = js.isEmpty := by
  cases h <;> rfl

/-! ## Texts that are read flat -/

/-- The title of a directive that is written as a call-out. -/
def titleTexts (name : String) (label : List Inline) : List String :=
  (Alert.ofName? name).toList.map (Html.alertTitle · label)

mutual

/-- The texts in an inline that are read flat. -/
def Inline.flatTexts : Inline → List String
  | .marked _ children => inlinesFlatTexts children
  | .image _ _ alt => [plainText alt]
  | .directive name _ content => if isCommentName name then [] else inlinesFlatTexts content
  | .text _ | .code _ | .softBreak | .lineBreak | .html _ | .footnote _ => []

/-- The texts in inlines that are read flat, in order. -/
def inlinesFlatTexts : List Inline → List String
  | [] => []
  | i :: is => i.flatTexts ++ inlinesFlatTexts is

end

/-- The texts in the cells of a row that are read flat. -/
def rowFlatTexts (cells : List (List Inline)) : List String := cells.flatMap inlinesFlatTexts

/-- The texts in a directive apart from the blocks in it. Only a directive without a body shows its
label, other than as a title. -/
def Directive.flatTexts (head : Directive) : List String :=
  titleTexts head.name head.label ++
    if head.kind = .leaf then inlinesFlatTexts head.label else []

mutual

/-- The texts in a block that are read flat. -/
def Block.flatTexts : Block → List String
  | .paragraph content => inlinesFlatTexts content
  | .heading _ content => Text.trimmed (plainText content) :: inlinesFlatTexts content
  | .list _ _ items => itemsFlatTexts items
  | .quote _ children => blocksFlatTexts children
  | .table t => rowFlatTexts t.header ++ t.rows.flatMap rowFlatTexts
  | .footnote _ children => blocksFlatTexts children
  | .directive head children =>
    if isCommentName head.name then [] else head.flatTexts ++ blocksFlatTexts children
  | .command c => inlinesFlatTexts c.content
  | .code _ _ | .rule | .html _ | .metadata _ => []

/-- The texts in blocks that are read flat, in order. -/
def blocksFlatTexts : List Block → List String
  | [] => []
  | b :: bs => b.flatTexts ++ blocksFlatTexts bs

/-- The texts in list items that are read flat, in order. -/
def itemsFlatTexts : List Item → List String
  | [] => []
  | ⟨_, children⟩ :: rest => blocksFlatTexts children ++ itemsFlatTexts rest

end

end RichMarkdown
