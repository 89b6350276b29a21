import RichMarkdown.Html.Markup

/-!
# Well-formed markup

`Fragment` is the grammar of well-formed markup: text, elements with a start and an end tag around
a fragment, and void elements, which have a start tag only. Every tag belongs to the elements in use
(`Tag`), values of attributes stand in double quotes, and neither text nor a value has a character
that markup is made of (`IsPlain`). `Balanced` is the same nesting for pieces.

* `isPlain_of_mem_escape`: escaping leaves no character that markup is made of.
* `Balanced.fragment`: pieces that are balanced are written as a well-formed fragment.
-/

set_option autoImplicit false

namespace RichMarkdown.Html

/-! ## The grammar -/

/-- A character that neither starts nor ends a tag or the value of an attribute. -/
def IsPlain (c : Char) : Prop := c ≠ '<' ∧ c ≠ '>' ∧ c ≠ '\"' ∧ c ≠ '\''

instance : DecidablePred IsPlain := fun _ => inferInstanceAs (Decidable (_ ∧ _))

/-- The name of an attribute: lower-case letters. -/
def IsName (name : List Char) : Prop := name ≠ [] ∧ ∀ c ∈ name, c.isLower = true

instance : DecidablePred IsName := fun name =>
  decidable_of_iff (name ≠ [] ∧ name.all Char.isLower = true) (by simp [IsName])

/-- Attributes as they stand in a start tag, a space before each. -/
inductive AttributesText : List Char → Prop
  | nil : AttributesText []
  | flag {name rest : List Char} : IsName name → AttributesText rest →
      AttributesText (' ' :: name ++ rest)
  | value {name value rest : List Char} : IsName name → (∀ c ∈ value, IsPlain c) →
      AttributesText rest → AttributesText (' ' :: name ++ '=' :: '\"' :: value ++ '\"' :: rest)

/-- A start tag with its attributes. -/
def startText (tag : Tag) (attributes : List Char) : List Char :=
  '<' :: tag.name.toList ++ attributes ++ ['>']

/-- An end tag. -/
def endText (tag : Tag) : List Char := '<' :: '/' :: tag.name.toList ++ ['>']

/-- Well-formed markup. -/
inductive Fragment : List Char → Prop
  | nil : Fragment []
  | char {c : Char} {rest : List Char} : IsPlain c → Fragment rest → Fragment (c :: rest)
  | void {tag : Tag} {attributes rest : List Char} : tag.isVoid = true →
      AttributesText attributes → Fragment rest → Fragment (startText tag attributes ++ rest)
  | element {tag : Tag} {attributes inner rest : List Char} : tag.isVoid = false →
      AttributesText attributes → Fragment inner → Fragment rest →
      Fragment (startText tag attributes ++ inner ++ endText tag ++ rest)

/-! ## Balanced pieces -/

/-- Attributes with proper names. -/
def Named (attributes : List Attribute) : Prop := ∀ a ∈ attributes, IsName a.name.toList

/-- Pieces without raw markup in which every start tag is closed. -/
inductive Balanced : List Piece → Prop
  | nil : Balanced []
  | text (s : String) {rest : List Piece} : Balanced rest → Balanced (.text s :: rest)
  | void {tag : Tag} {attributes : List Attribute} {rest : List Piece} : tag.isVoid = true →
      Named attributes → Balanced rest → Balanced (.startTag tag attributes :: rest)
  | element {tag : Tag} {attributes : List Attribute} {inner rest : List Piece} :
      tag.isVoid = false → Named attributes → Balanced inner → Balanced rest →
      Balanced (.startTag tag attributes :: inner ++ .endTag tag :: rest)

theorem Balanced.append {a b : List Piece} (ha : Balanced a) (hb : Balanced b) :
    Balanced (a ++ b) := by
  induction ha with
  | nil => exact hb
  | text s _ ih => exact .text s ih
  | void ht hn _ ih => exact .void ht hn ih
  | @element tag attributes inner rest ht hn hi _ _ ih =>
    rw [List.cons_append, List.cons_append, List.append_assoc, List.cons_append]
    exact .element ht hn hi ih

/-- One element around balanced pieces. -/
theorem Balanced.around {t : Tag} {as : List Attribute} {i : List Piece} (ht : t.isVoid = false)
    (hn : Named as) (hi : Balanced i) : Balanced (.startTag t as :: i ++ [.endTag t]) :=
  .element ht hn hi .nil

/-! ## From pieces to text -/

theorem isPlain_of_all {cs : List Char} (h : cs.all (decide <| IsPlain ·) = true) :
    ∀ c ∈ cs, IsPlain c := by
  simpa using h

theorem isPlain_of_mem_escapeChar {c d : Char} (h : d ∈ escapeChar c) : IsPlain d := by
  simp only [escapeChar, beq_iff_eq] at h
  split at h
  · exact isPlain_of_all (by decide) d h
  split at h
  · exact isPlain_of_all (by decide) d h
  split at h
  · exact isPlain_of_all (by decide) d h
  split at h
  · exact isPlain_of_all (by decide) d h
  split at h
  · exact isPlain_of_all (by decide) d h
  obtain rfl : d = c := by simpa using h
  exact ⟨‹_›, ‹_›, ‹_›, ‹_›⟩

/-- **Escaped text is plain.** -/
theorem isPlain_of_mem_escape {s : String} {c : Char} (h : c ∈ (escape s).toList) :
    IsPlain c := by
  simp only [escape, String.toList_ofList, List.mem_flatMap] at h
  obtain ⟨_, -, h⟩ := h
  exact isPlain_of_mem_escapeChar h

theorem attributesText_render {attributes : List Attribute} (h : Named attributes) :
    AttributesText (String.join (attributes.map Attribute.render)).toList := by
  induction attributes with
  | nil => exact .nil
  | cons a as ih =>
    have ha : IsName a.name.toList := h a List.mem_cons_self
    have hrest := ih fun b hb => h b (List.mem_cons_of_mem a hb)
    rw [List.map_cons, String.join_cons, String.toList_append]
    cases hv : a.value with
    | none =>
      have hr : a.render.toList = ' ' :: a.name.toList := by simp [Attribute.render, hv]
      rw [hr]
      exact .flag ha hrest
    | some v =>
      have hr : a.render.toList =
          ' ' :: a.name.toList ++ '=' :: '\"' :: (escape v).toList ++ ['\"'] := by
        simp [Attribute.render, hv]
      rw [hr, List.append_assoc _ ['\"']]
      exact .value ha (fun _ => isPlain_of_mem_escape) hrest

theorem fragment_plain {cs rest : List Char} (h : ∀ c ∈ cs, IsPlain c) (hr : Fragment rest) :
    Fragment (cs ++ rest) := by
  induction cs with
  | nil => exact hr
  | cons c cs ih =>
    exact .char (h c List.mem_cons_self) (ih fun d hd => h d (List.mem_cons_of_mem c hd))

theorem toList_render_startTag (tag : Tag) (attributes : List Attribute) :
    (Piece.startTag tag attributes).render.toList =
      startText tag (String.join (attributes.map Attribute.render)).toList := by
  simp [Piece.render, startText]

theorem toList_render_endTag (tag : Tag) : (Piece.endTag tag).render.toList = endText tag := by
  simp [Piece.render, endText]

theorem toList_render_cons (p : Piece) (ps : List Piece) :
    (render (p :: ps)).toList = p.render.toList ++ (render ps).toList := by
  simp [render]

theorem render_append (a b : List Piece) : render (a ++ b) = render a ++ render b := by
  simp [render]

/-- **Balanced pieces are written as a well-formed fragment.** -/
theorem Balanced.fragment {ps : List Piece} (h : Balanced ps) : Fragment (render ps).toList := by
  induction h with
  | nil => exact .nil
  | text s _ ih =>
    rw [toList_render_cons]
    exact fragment_plain (fun _ => isPlain_of_mem_escape) ih
  | void ht hn _ ih =>
    rw [toList_render_cons, toList_render_startTag]
    exact .void ht (attributesText_render hn) ih
  | @element tag attributes inner rest ht hn _ _ ihi ihr =>
    rw [List.cons_append, toList_render_cons, toList_render_startTag, render_append,
      String.toList_append, toList_render_cons, toList_render_endTag, ← List.append_assoc,
      ← List.append_assoc]
    exact .element ht (attributesText_render hn) ihi ihr

end RichMarkdown.Html
