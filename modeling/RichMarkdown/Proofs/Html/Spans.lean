import RichMarkdown.Proofs.Highlight.Covered
import RichMarkdown.Proofs.Html.CodeBlocks

/-!
# Reading spans

`stretches` cuts markup at its tags into stretches of text, each with the class of the span that it
stands in; `spans` keeps those in spans and `letters` gives every character that is shown its class.
Segments of code are read back from what is written for them: a covered one as one span
(`stretchesFrom_covered`), the others as text outside of spans, together with the text around them
(`stretchesFrom_plain`).

* `spans_segments`: the spans are the covered segments, escaped.
* `letters_segments`: every character has the class of its segment.
-/

set_option autoImplicit false

namespace RichMarkdown.Html

/-! ## Stretches of text -/

/-- A text between two tags, with the class of the span around it. -/
structure Stretch where
  spanClass : Option String
  text : List Char
  deriving DecidableEq, Repr

/-- What the start tag of a span with a class starts with, up to the class. -/
def spanStart : List Char := "span class=\"".toList

/-- The start tag of another element does not start like that of a span. -/
theorem isPrefixOf_startInner {tag : Tag} (ht : tag ≠ .span) (attributes : List Attribute) :
    spanStart.isPrefixOf (startInner tag attributes) = false := by
  rw [Bool.eq_false_iff]
  intro h
  obtain ⟨rest, hrest⟩ := List.isPrefixOf_iff_prefix.mp h
  have hname := tagName_startInner tag attributes
  rw [← hrest] at hname
  exact ht (eq_of_name (by decide) hname.symm)

/-- The class of the span that a tag starts. -/
def spanClass? (inner : List Char) : Option String :=
  if spanStart.isPrefixOf inner then
    some (String.ofList ((inner.drop spanStart.length).takeWhile (· ≠ '\"')))
  else none

/-- The class of the text after a tag. -/
def classAfter (current : Option String) (inner : List Char) : Option String :=
  if inner = endInner .span then none else (spanClass? inner).or current

/-- The stretches of markup, the first of which has a class and goes on from some text. -/
def stretchesFrom (current : Option String) (text : List Char) : List Lexeme → List Stretch
  | [] => [⟨current, text⟩]
  | .char c :: rest => stretchesFrom current (text ++ [c]) rest
  | .tag inner :: rest => ⟨current, text⟩ :: stretchesFrom (classAfter current inner) [] rest

def Stretch.span? (s : Stretch) : Option (String × String) :=
  s.spanClass.map fun c => (c, String.ofList s.text)

/-- The spans in markup, each with its class and the text in it as it is written. -/
def spans (ls : List Lexeme) : List (String × String) :=
  (stretchesFrom none [] ls).filterMap Stretch.span?

def Stretch.letters (s : Stretch) : List (Char × Option String) :=
  (decode s.text).map (·, s.spanClass)

/-- The characters that markup shows, each with the class of the span around it. -/
def letters (ls : List Lexeme) : List (Char × Option String) :=
  (stretchesFrom none [] ls).flatMap Stretch.letters

theorem stretchesFrom_char (cs : List Char) (current : Option String) (text : List Char)
    (rest : List Lexeme) :
    stretchesFrom current text (cs.map .char ++ rest) =
      stretchesFrom current (text ++ cs) rest := by
  induction cs generalizing text with
  | nil => simp
  | cons c cs ih => simp [stretchesFrom, ih]

/-! ## Segments -/

/-- The class of a segment that a token covers. -/
def segmentClass? (x : Segment) : Option String := x.category.map Category.cssClass

/-- What the start tag of a span for a token starts with. -/
def tokenStart : List Char := "span class=\"token-".toList

theorem startInner_span (category : Category) :
    startInner .span [attr "class" category.cssClass] =
      tokenStart ++ (category.name.toList ++ ['\"']) := by
  cases category <;> decide

theorem classAfter_span (category : Category) (current : Option String) :
    classAfter current (startInner .span [attr "class" category.cssClass]) =
      some category.cssClass := by
  have hclass : spanClass? (tokenStart ++ (category.name.toList ++ ['\"'])) =
      some category.cssClass := by
    cases category <;> decide
  rw [classAfter, if_neg (startInner_ne_endInner .span .span _), startInner_span, hclass]
  rfl

theorem stretchesFrom_plain {x : Segment} (hx : x.category = none) (text : List Char)
    (rest : List Lexeme) :
    stretchesFrom none text ((segmentPieces x).flatMap Piece.lexemes ++ rest) =
      stretchesFrom none (text ++ escapeChars x.text.toList) rest := by
  have hpieces : (segmentPieces x).flatMap Piece.lexemes =
      (escapeChars x.text.toList).map .char := by
    simp [segmentPieces, hx, Piece.lexemes]
  rw [hpieces, stretchesFrom_char]

theorem stretchesFrom_covered {x : Segment} {category : Category}
    (hx : x.category = some category) (text : List Char) (rest : List Lexeme) :
    stretchesFrom none text ((segmentPieces x).flatMap Piece.lexemes ++ rest) =
      ⟨none, text⟩ :: ⟨some category.cssClass, escapeChars x.text.toList⟩ ::
        stretchesFrom none [] rest := by
  have hpieces : (segmentPieces x).flatMap Piece.lexemes ++ rest =
      .tag (startInner .span [attr "class" category.cssClass]) ::
        ((escapeChars x.text.toList).map .char ++ .tag (endInner .span) :: rest) := by
    simp [segmentPieces, hx, Piece.lexemes, classTag]
  rw [hpieces, stretchesFrom, classAfter_span, stretchesFrom_char, stretchesFrom, List.nil_append]
  rfl

/-- The lexemes of segments. -/
def segmentLexemes (xs : List Segment) : List Lexeme :=
  xs.flatMap fun x => (segmentPieces x).flatMap Piece.lexemes

/-- **The spans are the covered segments, escaped.** A tag ends the segments. -/
theorem spans_segments (xs : List Segment) (text inner : List Char) (rest : List Lexeme) :
    (stretchesFrom none text (segmentLexemes xs ++ .tag inner :: rest)).filterMap Stretch.span? =
      (xs.filterMap Segment.covered?).map (fun x => (x.1.cssClass, escape x.2)) ++
        (stretchesFrom (classAfter none inner) [] rest).filterMap Stretch.span? := by
  induction xs generalizing text with
  | nil => exact List.filterMap_cons_none rfl
  | cons x xs ih =>
    rw [segmentLexemes, List.flatMap_cons, List.append_assoc, ← segmentLexemes]
    cases hx : x.category with
    | none =>
      have hcovered : x.covered? = none := by rw [Segment.covered?, hx, Option.map_none]
      rw [stretchesFrom_plain hx, ih, List.filterMap_cons_none hcovered]
    | some category =>
      have hcovered : x.covered? = some (category, x.text) := by
        rw [Segment.covered?, hx, Option.map_some]
      have hspan : Stretch.span? ⟨some category.cssClass, escapeChars x.text.toList⟩ =
          some (category.cssClass, escape x.text) := rfl
      rw [stretchesFrom_covered hx, List.filterMap_cons_none rfl,
        List.filterMap_cons_some hspan, ih, List.filterMap_cons_some hcovered, List.map_cons,
        List.cons_append]

/-- **Every character has the class of its segment.** A tag ends the segments. -/
theorem letters_segments (xs : List Segment) (before inner : List Char) (rest : List Lexeme) :
    (stretchesFrom none (escapeChars before) (segmentLexemes xs ++ .tag inner :: rest)).flatMap
        Stretch.letters =
      before.map (·, none) ++ (xs.flatMap fun x => x.text.toList.map (·, segmentClass? x)) ++
        (stretchesFrom (classAfter none inner) [] rest).flatMap Stretch.letters := by
  induction xs generalizing before with
  | nil => simp [segmentLexemes, stretchesFrom, Stretch.letters, decode_escapeChars]
  | cons x xs ih =>
    rw [segmentLexemes, List.flatMap_cons, List.append_assoc, ← segmentLexemes]
    cases hx : x.category with
    | none =>
      rw [stretchesFrom_plain hx, ← escapeChars_append, ih]
      simp [segmentClass?, hx]
    | some category =>
      have hrest := ih []
      rw [stretchesFrom_covered hx, List.flatMap_cons, List.flatMap_cons]
      simp only [escapeChars, List.flatMap_nil] at hrest
      simp [Stretch.letters, decode_escapeChars, segmentClass?, hx, hrest]

/-! ## Code -/

theorem codePieces_eq (settings : Settings) (language : Option String) (literal : String) :
    codePieces settings language literal =
      (codeSegments settings.highlighter language literal).flatMap segmentPieces := by
  unfold codePieces codeSegments
  cases settings.highlighter.bind (·.fittingTokens? literal language) with
  | some tokens => rfl
  | none => rfl

/-- What stands in a code block: its start tag, the segments and its end tag. -/
theorem lexemes_codeContent (settings : Settings) (language : Option String) (literal : String) :
    (codeContent settings language literal).flatMap Piece.lexemes =
      .tag (startInner .code (language.toList.map fun l => attr "class" ("language-" ++ l))) ::
        (segmentLexemes (codeSegments settings.highlighter language literal) ++
          [.tag (endInner .code)]) := by
  rw [codeContent, codePieces_eq, List.flatMap_cons, List.flatMap_append, List.flatMap_assoc]
  rfl

theorem classAfter_other {tag : Tag} (ht : tag ≠ .span) (attributes : List Attribute)
    (current : Option String) : classAfter current (startInner tag attributes) = current := by
  have hclass : spanClass? (startInner tag attributes) = none := by
    rw [spanClass?, isPrefixOf_startInner ht]
    rfl
  rw [classAfter, if_neg (startInner_ne_endInner tag .span attributes), hclass, Option.none_or]

/-- The spans in a code block. -/
theorem spans_codeContent (settings : Settings) (language : Option String) (literal : String) :
    spans ((codeContent settings language literal).flatMap Piece.lexemes) =
      ((codeSegments settings.highlighter language literal).filterMap Segment.covered?).map
        fun x => (x.1.cssClass, escape x.2) := by
  rw [lexemes_codeContent, spans, stretchesFrom, classAfter_other (by decide),
    List.filterMap_cons_none rfl, spans_segments]
  exact List.append_nil _

end RichMarkdown.Html
