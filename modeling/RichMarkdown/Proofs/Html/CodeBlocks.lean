import RichMarkdown.Html.Page
import RichMarkdown.Proofs.Html.Reading

/-!
# Reading code blocks

`codeBlocks` finds the code blocks of a page by their tags. Only code blocks write these tags, and
only highlighted words in them write the tags of spans: all other pieces avoid both
(`Piece.avoids`), so a reader passes over them (`codeBlocks_avoiding`).

* `codeBlocks_codeBlock`: a code block is read back as what was written in it.
-/

set_option autoImplicit false

namespace RichMarkdown.Html

/-! ## Names of tags -/

/-- The name at the start of a tag. -/
def tagName (inner : List Char) : List Char := inner.takeWhile (· ≠ ' ')

/-- Attributes do not go on with the name that they stand behind. -/
theorem takeWhile_attributes (attributes : List Attribute) :
    (String.join (attributes.map Attribute.render)).toList.takeWhile (· ≠ ' ') = [] := by
  cases attributes with
  | nil => rfl
  | cons a as =>
    rw [List.map_cons, String.join_cons, String.toList_append]
    cases hv : a.value <;> simp [Attribute.render, hv]

theorem tagName_startInner (tag : Tag) (attributes : List Attribute) :
    tagName (startInner tag attributes) = tag.name.toList := by
  have hname : ∀ c ∈ tag.name.toList, decide (c ≠ ' ') = true :=
    List.all_eq_true.mp (by cases tag <;> decide)
  rw [tagName, startInner, List.takeWhile_append_of_pos hname, takeWhile_attributes,
    List.append_nil]

theorem tagName_endInner (tag : Tag) : tagName (endInner tag) = endInner tag := by
  cases tag <;> decide

/-- A start tag is no end tag. -/
theorem startInner_ne_endInner (tag tag' : Tag) (attributes : List Attribute) :
    startInner tag attributes ≠ endInner tag' := by
  have hslash : tag.name.toList.head? ≠ some '/' := by cases tag <;> decide
  intro h
  have hname := tagName_startInner tag attributes
  rw [h, tagName_endInner] at hname
  exact hslash (hname ▸ rfl)

/-- The elements of code blocks and of spans can be told by their names. -/
theorem eq_of_name {tag other : Tag} (hm : other ∈ [Tag.pre, .span])
    (h : tag.name.toList = other.name.toList) : tag = other := by
  obtain rfl | rfl : other = .pre ∨ other = .span := by simpa using hm
  · revert h
    cases tag <;> decide
  · revert h
    cases tag <;> decide

/-- A piece without raw markup and without the tags of some elements. -/
def Piece.avoids (tags : List Tag) : Piece → Bool
  | .startTag tag _ | .endTag tag => ! tags.contains tag
  | .text _ => true
  | .raw _ => false

theorem Piece.avoids_mono {tags tags' : List Tag} (hsub : tags' ⊆ tags) {p : Piece}
    (h : p.avoids tags) : p.avoids tags' := by
  cases p with
  | startTag tag _ | endTag tag =>
    have hm : tag ∉ tags := by simpa [Piece.avoids] using h
    simpa [Piece.avoids] using mt (@hsub tag) hm
  | text s => rfl
  | raw s => cases h

theorem all_avoids_mono {tags tags' : List Tag} (hsub : tags' ⊆ tags) {ps : List Piece}
    (h : ps.all (Piece.avoids tags)) : ps.all (Piece.avoids tags') :=
  List.all_eq_true.mpr fun p hp => p.avoids_mono hsub (List.all_eq_true.mp h p hp)

/-! ## Code blocks -/

def Lexeme.opensCode : Lexeme → Bool
  | .tag inner => tagName inner == Tag.pre.name.toList
  | .char _ => false

def Lexeme.closesCode : Lexeme → Bool
  | .tag inner => inner == endInner .pre
  | .char _ => false

/-- What stands in the code blocks of a page, each from its start tag to the next end tag. -/
def codeBlocks : List Lexeme → List (List Lexeme)
  | [] => []
  | l :: rest =>
    if l.opensCode then rest.takeWhile (! ·.closesCode) :: codeBlocks rest else codeBlocks rest

theorem codeBlocks_append {ls : List Lexeme} (h : ∀ l ∈ ls, l.opensCode = false)
    (rest : List Lexeme) : codeBlocks (ls ++ rest) = codeBlocks rest := by
  induction ls with
  | nil => rfl
  | cons l ls ih =>
    obtain ⟨hl, hls⟩ := List.forall_mem_cons.mp h
    rw [List.cons_append, codeBlocks, hl, ih hls]
    rfl

theorem opensCode_of_avoids {p : Piece} (h : p.avoids [.pre]) :
    ∀ l ∈ p.lexemes, l.opensCode = false := by
  cases p with
  | startTag tag attributes =>
    have hne : tag ≠ .pre := by simpa [Piece.avoids] using h
    simpa [Piece.lexemes, Lexeme.opensCode, tagName_startInner] using
      mt (eq_of_name (by decide)) hne
  | endTag tag =>
    have hname : ∀ t : Tag, endInner t ≠ Tag.pre.name.toList := by
      intro t
      cases t <;> decide
    simpa [Piece.lexemes, Lexeme.opensCode, tagName_endInner] using hname tag
  | text s => simp [Piece.lexemes, Lexeme.opensCode]
  | raw s => cases h

theorem closesCode_of_avoids {p : Piece} (h : p.avoids [.pre]) :
    ∀ l ∈ p.lexemes, l.closesCode = false := by
  cases p with
  | startTag tag attributes =>
    simpa [Piece.lexemes, Lexeme.closesCode] using startInner_ne_endInner tag .pre attributes
  | endTag tag =>
    have hne : tag ≠ .pre := by simpa [Piece.avoids] using h
    simpa [Piece.lexemes, Lexeme.closesCode, endInner] using mt (eq_of_name (by decide)) hne
  | text s => simp [Piece.lexemes, Lexeme.closesCode]
  | raw s => cases h

/-- There is no code block among pieces that avoid its tags. -/
theorem codeBlocks_avoiding {ps : List Piece} (h : ps.all (Piece.avoids [.pre]))
    (rest : List Lexeme) : codeBlocks (ps.flatMap Piece.lexemes ++ rest) = codeBlocks rest := by
  refine codeBlocks_append (fun l hl => ?_) rest
  obtain ⟨p, hp, hl⟩ := List.mem_flatMap.mp hl
  exact opensCode_of_avoids (List.all_eq_true.mp h p hp) l hl

/-- What stands in a code block. -/
def codeContent (settings : Settings) (language : Option String) (literal : String) :
    List Piece :=
  .startTag .code (language.toList.map fun l => attr "class" ("language-" ++ l)) ::
    (codePieces settings language literal ++ [.endTag .code])

theorem codeBlock_eq (settings : Settings) (language : Option String) (literal : String) :
    codeBlock settings language literal =
      plainTag .pre :: (codeContent settings language literal ++ [.endTag .pre]) := by
  simp [codeBlock, codeContent]

theorem avoids_segmentPieces {tags : List Tag} (ht : .span ∉ tags) (x : Segment) :
    (segmentPieces x).all (Piece.avoids tags) := by
  unfold segmentPieces
  split
  · simpa [classTag, Piece.avoids] using ht
  · rfl

/-- What is written for code has no other tags than those of spans. -/
theorem avoids_codePieces {tags : List Tag} (ht : .span ∉ tags) (settings : Settings)
    (language : Option String) (literal : String) :
    (codePieces settings language literal).all (Piece.avoids tags) := by
  unfold codePieces
  split
  · rw [List.all_flatMap, List.all_eq_true]
    exact fun x _ => avoids_segmentPieces ht x
  · rfl

theorem avoids_codeContent (settings : Settings) (language : Option String) (literal : String) :
    (codeContent settings language literal).all (Piece.avoids [.pre]) := by
  rw [codeContent, List.all_cons, List.all_append, avoids_codePieces (by decide)]
  rfl

/-- **A code block is read back** as what was written in it. -/
theorem codeBlocks_codeBlock (settings : Settings) (language : Option String) (literal : String)
    (rest : List Lexeme) :
    codeBlocks ((codeBlock settings language literal).flatMap Piece.lexemes ++ rest) =
      (codeContent settings language literal).flatMap Piece.lexemes :: codeBlocks rest := by
  have havoid := avoids_codeContent settings language literal
  have hopen : (Lexeme.tag (startInner .pre [])).opensCode = true := by decide
  have hclose : (Lexeme.tag (endInner .pre)).closesCode = true := by decide
  have hend : (Lexeme.tag (endInner .pre)).opensCode = false := by decide
  have hinside : ∀ l ∈ (codeContent settings language literal).flatMap Piece.lexemes,
      (! l.closesCode) = true := by
    intro l hl
    obtain ⟨p, hp, hl⟩ := List.mem_flatMap.mp hl
    rw [closesCode_of_avoids (List.all_eq_true.mp havoid p hp) l hl]
    rfl
  rw [codeBlock_eq]
  generalize codeContent settings language literal = content at havoid hinside
  have htail : (content ++ [Piece.endTag .pre]).flatMap Piece.lexemes ++ rest =
      content.flatMap Piece.lexemes ++ .tag (endInner .pre) :: rest := by
    simp [Piece.lexemes]
  have hhead : (plainTag .pre).lexemes = [.tag (startInner .pre [])] := rfl
  rw [List.flatMap_cons, List.append_assoc, htail, hhead, List.singleton_append, codeBlocks,
    if_pos hopen, List.takeWhile_append_of_pos hinside, List.takeWhile_cons, hclose,
    codeBlocks_avoiding havoid, codeBlocks, hend]
  simp

end RichMarkdown.Html
