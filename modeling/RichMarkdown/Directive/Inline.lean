import RichMarkdown.Directive.Head
import RichMarkdown.Markdown.Grammar
import RichMarkdown.Text.Offset

/-!
# Inline directives

A colon, a head and a label inside a text are a directive. `InlineMatch.find?` finds the first one
in a text; `Block.expandDirectives` puts directives in the place of all of them, in the text of
paragraphs, headings, cells, labels and commands. Code, raw HTML and images stay as they are.

The label of a directive is read with the grammar, and directives in it are expanded in turn. A
label is shorter than the text around it, so the size of the text bounds the depth.
-/

set_option autoImplicit false

namespace RichMarkdown

/-- An inline directive found in a text, between the text before it and the text after it. -/
structure InlineMatch where
  before : List Char
  head : Head
  after : List Char
  deriving DecidableEq, Repr

namespace InlineMatch

def start (m : InlineMatch) : Nat := Text.byteLength m.before

/-- The byte offset of the end of the directive in the text it was found in. -/
def stop (m : InlineMatch) (text : List Char) : Nat :=
  Text.byteLength text - Text.byteLength m.after

/-- Whether a colon after this character is part of a word, a time or a run of colons. -/
def blocksColon (previous : Option Char) : Bool :=
  previous.any fun c => Text.isAlphanumeric c || c == ':'

/-- The directive whose colon stands before this text, if there is one. -/
def atColon? (cs : List Char) : Option (Head × List Char) :=
  if cs.head? = some ':' then none
  else (Head.read? cs).filter fun p => p.1.label.isSome

/-- The first directive in a text, after the characters read so far, latest first. -/
def findAfter? (read : List Char) : List Char → Option InlineMatch
  | [] => none
  | c :: cs =>
    if c == ':' && ! blocksColon read.head? then
      match atColon? cs with
      | some (head, rest) => some ⟨read.reverse, head, rest⟩
      | none => findAfter? (c :: read) cs
    else findAfter? (c :: read) cs

def find? (cs : List Char) : Option InlineMatch := findAfter? [] cs

theorem length_atColon? {cs rest : List Char} {head : Head}
    (h : atColon? cs = some (head, rest)) : rest.length < cs.length := by
  unfold atColon? at h
  split at h
  · simp at h
  · exact Head.length_read? (Option.filter_eq_some_iff.mp h).1

theorem length_findAfter? {read cs : List Char} {m : InlineMatch}
    (h : findAfter? read cs = some m) : m.after.length < cs.length := by
  induction cs generalizing read with
  | nil => simp [findAfter?] at h
  | cons c cs ih =>
    simp only [findAfter?] at h
    split at h
    · split at h
      · rename_i hc
        have := length_atColon? hc
        simp only [Option.some.injEq] at h
        subst h
        simp only [List.length_cons]
        omega
      · exact Nat.lt_succ_of_lt (ih h)
    · exact Nat.lt_succ_of_lt (ih h)

/-- The text after a directive is shorter than the text the directive was found in. -/
theorem length_after {cs : List Char} {m : InlineMatch} (h : find? cs = some m) :
    m.after.length < cs.length := length_findAfter? h

end InlineMatch

/-- A text node, unless it would be empty. -/
def textNode : List Char → List Inline
  | [] => []
  | cs => [.text (String.ofList cs)]

set_option linter.unusedVariables false in
/-- The inlines that stand for a text, given how labels are read. -/
def expandText (readLabel : String → List Inline) (cs : List Char) : List Inline :=
  match h : InlineMatch.find? cs with
  | none => textNode cs
  | some m =>
    textNode m.before ++
      .directive m.head.name m.head.attributes (readLabel (m.head.label.getD "")) ::
        expandText readLabel m.after
termination_by cs.length
decreasing_by exact InlineMatch.length_after h

/-- Whether an inline is a text with a directive in it. -/
def Inline.hasDirective : Inline → Bool
  | .text s => (InlineMatch.find? s.toList).isSome
  | _ => false

/-- The inlines that stand for an inline among others in which a directive was found. -/
def Inline.expandHere (readLabel : String → List Inline) : Inline → List Inline
  | .text s => expandText readLabel s.toList
  | i => [i]

/-- Inlines with the directives among them expanded. Inlines without any directive of their own stay
as they are, empty texts included. -/
def expandHere (readLabel : String → List Inline) (is : List Inline) : List Inline :=
  if is.any Inline.hasDirective then is.flatMap (Inline.expandHere readLabel) else is

mutual

/-- An inline with the directives in what it marks expanded. -/
def Inline.expandWithin (readLabel : String → List Inline) : Inline → Inline
  | .marked mark children => .marked mark (expandHere readLabel (expandEach readLabel children))
  | i => i

/-- Inlines, each with the directives in what it marks expanded. -/
def expandEach (readLabel : String → List Inline) : List Inline → List Inline
  | [] => []
  | i :: is => i.expandWithin readLabel :: expandEach readLabel is

end

/-- Inlines with their directives expanded at all depths, given how labels are read. -/
def expandInlinesWith (readLabel : String → List Inline) (is : List Inline) : List Inline :=
  expandHere readLabel (expandEach readLabel is)

/-- The inlines of a label with its directives expanded, down to the given depth. -/
def readLabelTo (g : Grammar) (o : Options) : Nat → String → List Inline
  | 0, s => g.label o s
  | depth + 1, s => expandInlinesWith (readLabelTo g o depth) (g.label o s)

mutual

/-- The number of characters in the texts of an inline that may hold directives. -/
def Inline.textSize : Inline → Nat
  | .text s => s.length
  | .marked _ children => textSize children
  | _ => 0

def textSize : List Inline → Nat
  | [] => 0
  | i :: is => i.textSize + textSize is

end

def expandInlines (g : Grammar) (o : Options) (is : List Inline) : List Inline :=
  expandInlinesWith (readLabelTo g o (textSize is)) is

mutual

/-- A block with the directives in its text expanded. -/
def Block.expandDirectives (g : Grammar) (o : Options) : Block → Block
  | .paragraph content => .paragraph (expandInlines g o content)
  | .heading level content => .heading level (expandInlines g o content)
  | .list start tight items => .list start tight (expandItems g o items)
  | .quote alert children => .quote alert (expandBlocks g o children)
  | .footnote label children => .footnote label (expandBlocks g o children)
  | .table t =>
    .table { t with
      header := t.header.map (expandInlines g o)
      rows := t.rows.map (·.map (expandInlines g o)) }
  | .directive head children =>
    .directive { head with label := expandInlines g o head.label } (expandBlocks g o children)
  | .command c => .command { c with content := expandInlines g o c.content }
  | .code language literal => .code language literal
  | .rule => .rule
  | .html s => .html s
  | .metadata s => .metadata s

def expandBlocks (g : Grammar) (o : Options) : List Block → List Block
  | [] => []
  | b :: bs => b.expandDirectives g o :: expandBlocks g o bs

def expandItems (g : Grammar) (o : Options) : List Item → List Item
  | [] => []
  | ⟨task, children⟩ :: rest => ⟨task, expandBlocks g o children⟩ :: expandItems g o rest

end

end RichMarkdown
