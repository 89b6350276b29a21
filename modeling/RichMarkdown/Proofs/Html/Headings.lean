import RichMarkdown.Proofs.Document.Headings
import RichMarkdown.Proofs.Html.CodeBlocks

/-!
# Reading headings

`headingElements` finds the headings of a page by their tags: each with its element, with its id and
with the text in it. Headings stand among pieces that avoid their tags (`Headed`), in the order in
which they are read back.

* `elementId_startInner`: an id is read back from its start tag.
* `Headed.read`: headings are read back, each once, with their ids.
-/

set_option autoImplicit false

namespace RichMarkdown.Html

/-! ## Tags of headings -/

def headingTags : List Tag := [.h1, .h2, .h3, .h4, .h5, .h6]

theorem ofLevel_mem (level : Nat) : Tag.ofLevel level ∈ headingTags := by
  unfold Tag.ofLevel
  split <;> decide

/-- The element of a heading that a tag starts. -/
def headingTag? (inner : List Char) : Option Tag :=
  headingTags.find? (·.name.toList == tagName inner)

/-- Only the names of headings are found. -/
theorem find?_headingTags (tag : Tag) :
    headingTags.find? (·.name.toList == tag.name.toList) =
      if tag ∈ headingTags then some tag else none := by
  cases tag <;> decide

theorem headingTag?_startInner (tag : Tag) (attributes : List Attribute) :
    headingTag? (startInner tag attributes) = if tag ∈ headingTags then some tag else none := by
  rw [headingTag?, tagName_startInner, find?_headingTags]

theorem headingTag?_endInner (tag : Tag) : headingTag? (endInner tag) = none := by
  cases tag <;> decide

/-- The end tag of another element does not end a heading. -/
theorem endInner_ne {tag other : Tag} (ht : tag ∈ headingTags) (ho : other ∉ headingTags) :
    endInner other ≠ endInner tag := by
  intro h
  have hname : other.name.toList = tag.name.toList := (List.cons.inj h).2
  have hfind := find?_headingTags tag
  rw [← hname, find?_headingTags, if_neg ho, if_pos ht] at hfind
  cases hfind

/-! ## Ids -/

/-- What stands between the name of a tag and its id, when the id is its first attribute. -/
def idStart : List Char := " id=\"".toList

/-- The id of the element that a tag starts. -/
def elementId? (inner : List Char) : Option String :=
  let attributes := inner.drop (tagName inner).length
  if idStart.isPrefixOf attributes then
    some (String.ofList (decode ((attributes.drop idStart.length).takeWhile (· ≠ '\"'))))
  else none

/-- **An id is read back** from its start tag. -/
theorem elementId_startInner (tag : Tag) (id : String) :
    elementId? (startInner tag [attr "id" id]) = some id := by
  have hinner : startInner tag [attr "id" id] =
      tag.name.toList ++ (idStart ++ (escapeChars id.toList ++ ['\"'])) := by
    simp [startInner, Attribute.render, attr, idStart, toList_escape]
  have hquote : ∀ c ∈ escapeChars id.toList, decide (c ≠ '\"') = true := by
    intro c hc
    rw [← toList_escape] at hc
    exact decide_eq_true (isPlain_of_mem_escape hc).2.2.1
  rw [elementId?, tagName_startInner, hinner, List.drop_left,
    if_pos (List.isPrefixOf_iff_prefix.mpr (List.prefix_append _ _)), List.drop_left,
    List.takeWhile_append_of_pos hquote, List.takeWhile_cons_of_neg (by decide), List.append_nil,
    decode_escapeChars, String.ofList_toList]

/-! ## Elements -/

/-- A heading as it is found on a page. -/
structure HeadingElement where
  tag : Tag
  id : Option String
  text : List Char
  deriving DecidableEq, Repr

/-- The headings of a page, each from its start tag to the next end tag of its element. -/
def headingElements : List Lexeme → List HeadingElement
  | [] => []
  | .char _ :: rest => headingElements rest
  | .tag inner :: rest =>
    match headingTag? inner with
    | some tag =>
      ⟨tag, elementId? inner,
        decode ((rest.takeWhile (· ≠ .tag (endInner tag))).filterMap Lexeme.char?)⟩ ::
          headingElements rest
    | none => headingElements rest

/-- How a heading with an anchor is found on a page. -/
def headingElement (h : Heading) (id : String) : HeadingElement :=
  ⟨.ofLevel h.level, some id, h.text⟩

/-! ## Pieces -/

/-- Pieces that are put together from headings with their anchors and from pieces that avoid the
tags of headings. -/
inductive Headed : List Piece → List Heading → List String → Prop where
  | nil : Headed [] [] []
  | other {p : Piece} {ps : List Piece} {hs : List Heading} {ids : List String} :
      p.avoids headingTags → Headed ps hs ids → Headed (p :: ps) hs ids
  | heading {inner ps : List Piece} {h : Heading} {hs : List Heading} {ids : List String}
      (id : String) : inner.all (Piece.avoids headingTags) → inner.flatMap Piece.shown = h.text →
      Headed ps hs ids →
      Headed (.startTag (.ofLevel h.level) [attr "id" id] ::
        (inner ++ .endTag (.ofLevel h.level) :: ps)) (h :: hs) (id :: ids)

namespace Headed

variable {ps qs : List Piece} {hs hs' : List Heading} {ids ids' : List String}

theorem of_avoids (h : ps.all (Piece.avoids headingTags)) : Headed ps [] [] := by
  induction ps with
  | nil => exact .nil
  | cons p ps ih =>
    rw [List.all_cons, Bool.and_eq_true] at h
    exact .other h.1 (ih h.2)

theorem append (h : Headed ps hs ids) (h' : Headed qs hs' ids') :
    Headed (ps ++ qs) (hs ++ hs') (ids ++ ids') := by
  induction h with
  | nil => exact h'
  | other hp _ ih => exact .other hp ih
  | heading id hinner htext _ ih =>
    rw [List.cons_append, List.append_assoc]
    exact .heading id hinner htext ih

theorem length_ids (h : Headed ps hs ids) : ids.length = hs.length := by
  induction h with
  | nil => rfl
  | other _ _ ih => exact ih
  | heading _ _ _ _ ih => exact congrArg (· + 1) ih

/-- Without headings, there are none of their tags. -/
theorem avoids (h : Headed ps [] ids) : ps.all (Piece.avoids headingTags) := by
  generalize hhs : ([] : List Heading) = hs at h
  induction h with
  | nil => rfl
  | other hp _ ih => rw [List.all_cons, hp, ih hhs]; rfl
  | heading => cases hhs

end Headed

/-! ## Reading pieces -/

/-- There is no heading among pieces that avoid its tags. -/
theorem headingElements_avoiding {ps : List Piece} (h : ps.all (Piece.avoids headingTags))
    (rest : List Lexeme) :
    headingElements (ps.flatMap Piece.lexemes ++ rest) = headingElements rest := by
  induction ps with
  | nil => rfl
  | cons p ps ih =>
    rw [List.all_cons, Bool.and_eq_true] at h
    obtain ⟨hp, hps⟩ := h
    rw [List.flatMap_cons, List.append_assoc]
    refine Eq.trans ?_ (ih hps)
    cases p with
    | startTag tag attributes =>
      have ht : tag ∉ headingTags := by simpa [Piece.avoids] using hp
      simp [Piece.lexemes, headingElements, headingTag?_startInner, ht]
    | endTag tag => simp [Piece.lexemes, headingElements, headingTag?_endInner]
    | text s =>
      rw [Piece.lexemes]
      induction escapeChars s.toList with
      | nil => rfl
      | cons c cs ihc => exact ihc
    | raw s => cases hp

theorem notMem_endInner {tag : Tag} (ht : tag ∈ headingTags) {ps : List Piece}
    (h : ps.all (Piece.avoids headingTags)) :
    ∀ l ∈ ps.flatMap Piece.lexemes, decide (l ≠ .tag (endInner tag)) = true := by
  intro l hl
  obtain ⟨p, hp, hl⟩ := List.mem_flatMap.mp hl
  have havoid := List.all_eq_true.mp h p hp
  refine decide_eq_true fun he => ?_
  subst he
  cases p with
  | startTag other attributes =>
    have hinner : endInner tag = startInner other attributes := by simpa [Piece.lexemes] using hl
    exact startInner_ne_endInner other tag attributes hinner.symm
  | endTag other =>
    have ho : other ∉ headingTags := by simpa [Piece.avoids] using havoid
    have hinner : endInner tag = endInner other := by simpa [Piece.lexemes] using hl
    exact endInner_ne ht ho hinner.symm
  | text s => simp [Piece.lexemes] at hl
  | raw s => cases havoid

/-- **Headings are read back**, each once and in their order, with their ids and their texts. -/
theorem Headed.read {ps : List Piece} {hs : List Heading} {ids : List String}
    (h : Headed ps hs ids) :
    headingElements (ps.flatMap Piece.lexemes) = List.zipWith headingElement hs ids := by
  induction h with
  | nil => rfl
  | @other p ps _ _ hp _ ih =>
    have hpass : headingElements ([p].flatMap Piece.lexemes ++ ps.flatMap Piece.lexemes) =
        headingElements (ps.flatMap Piece.lexemes) :=
      headingElements_avoiding (by simpa using hp) _
    rw [List.flatMap_singleton] at hpass
    rw [List.flatMap_cons, hpass, ih]
  | @heading inner ps h _ _ id hinner htext _ ih =>
    have ht := ofLevel_mem h.level
    have hchars : (inner.flatMap Piece.lexemes).filterMap Lexeme.char? = escapeChars h.text := by
      rw [← htext]
      refine filterMap_char?_flatMap fun p hp s he => ?_
      have havoid := List.all_eq_true.mp hinner p hp
      rw [he] at havoid
      cases havoid
    have hpieces : (Piece.startTag (.ofLevel h.level) [attr "id" id] ::
        (inner ++ .endTag (.ofLevel h.level) :: ps)).flatMap Piece.lexemes =
        .tag (startInner (.ofLevel h.level) [attr "id" id]) ::
          (inner.flatMap Piece.lexemes ++
            .tag (endInner (.ofLevel h.level)) :: ps.flatMap Piece.lexemes) := by
      simp [Piece.lexemes]
    have hstart : headingTag? (startInner (.ofLevel h.level) [attr "id" id]) =
        some (.ofLevel h.level) := by
      rw [headingTag?_startInner, if_pos ht]
    have hinside : (inner.flatMap Piece.lexemes ++
        .tag (endInner (.ofLevel h.level)) :: ps.flatMap Piece.lexemes).takeWhile
          (· ≠ .tag (endInner (.ofLevel h.level))) = inner.flatMap Piece.lexemes := by
      rw [List.takeWhile_append_of_pos (notMem_endInner ht hinner),
        List.takeWhile_cons_of_neg (by simp), List.append_nil]
    rw [hpieces, headingElements, hstart]
    dsimp only
    rw [hinside, hchars, decode_escapeChars, elementId_startInner, headingElements_avoiding hinner,
      headingElements, headingTag?_endInner, ih]
    rfl

end RichMarkdown.Html
