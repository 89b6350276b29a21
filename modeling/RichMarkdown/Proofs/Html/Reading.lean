import RichMarkdown.Proofs.Html.Distinct

/-!
# Reading markup

What a reader makes of a text without knowing how it was written. `lexemes` cuts the text into tags,
each from a `<` to the next `>`, and the characters between them; `writeLexemes` puts them together
again. `withoutTags` keeps the characters, and `decode` replaces the five entities in one pass.

* `lexemes_render`: pieces without raw markup are read back one by one, whatever their texts and
  the values of their attributes are.
* `decode_withoutTags_render`: without tags and entities, a page is the texts of its pieces.
-/

set_option autoImplicit false

namespace RichMarkdown.Html

/-! ## Tags and characters -/

/-- What a text of markup is made of. -/
inductive Lexeme where
  /-- A tag, by what stands between its angle brackets. -/
  | tag (inner : List Char)
  | char (c : Char)
  deriving DecidableEq, Repr

mutual

/-- The lexemes of a text that starts outside of tags. -/
def lexemes : List Char → List Lexeme
  | [] => []
  | c :: cs => if c = '<' then lexemesInTag [] cs else .char c :: lexemes cs

/-- The lexemes of a text that starts in a tag, after what was read of the tag. -/
def lexemesInTag (inner : List Char) : List Char → List Lexeme
  | [] => [.tag inner]
  | c :: cs => if c = '>' then .tag inner :: lexemes cs else lexemesInTag (inner ++ [c]) cs

end

theorem lexemes_plain {cs : List Char} (h : ∀ c ∈ cs, IsPlain c) (rest : List Char) :
    lexemes (cs ++ rest) = cs.map .char ++ lexemes rest := by
  induction cs with
  | nil => rfl
  | cons c cs ih =>
    obtain ⟨hc, hcs⟩ := List.forall_mem_cons.mp h
    rw [List.cons_append, lexemes, if_neg hc.1, ih hcs]
    rfl

theorem lexemesInTag_append {cs : List Char} (h : '>' ∉ cs) (inner rest : List Char) :
    lexemesInTag inner (cs ++ '>' :: rest) = .tag (inner ++ cs) :: lexemes rest := by
  induction cs generalizing inner with
  | nil => simp [lexemesInTag]
  | cons c cs ih =>
    obtain ⟨hc, hcs⟩ := not_or.mp (mt List.mem_cons.mpr h)
    rw [List.cons_append, lexemesInTag, if_neg (Ne.symm hc), ih hcs, List.append_assoc]
    rfl

/-- A tag is read back when nothing in it ends it before its time. -/
theorem lexemes_tag {inner : List Char} (h : '>' ∉ inner) (rest : List Char) :
    lexemes ('<' :: inner ++ '>' :: rest) = .tag inner :: lexemes rest := by
  rw [List.cons_append, lexemes, if_pos rfl, lexemesInTag_append h, List.nil_append]

/-- A lexeme as it is written. -/
def Lexeme.write : Lexeme → List Char
  | .tag inner => '<' :: inner ++ ['>']
  | .char c => [c]

def writeLexemes (ls : List Lexeme) : List Char := ls.flatMap Lexeme.write

def Lexeme.char? : Lexeme → Option Char
  | .tag _ => none
  | .char c => some c

/-- The characters outside of all tags. -/
def withoutTags (cs : List Char) : List Char := (lexemes cs).filterMap Lexeme.char?

/-- Whether a lexeme is a tag of a class. -/
def Lexeme.isTag (p : List Char → Bool) : Lexeme → Bool
  | .tag inner => p inner
  | .char _ => false

/-- A text without the tags of a class. -/
def deleteTags (p : List Char → Bool) (cs : List Char) : List Char :=
  writeLexemes ((lexemes cs).filter (! ·.isTag p))

/-! ## Entities -/

/-- A text with the five entities replaced by the characters they stand for. -/
def decode : List Char → List Char
  | '&' :: 'a' :: 'm' :: 'p' :: ';' :: cs => '&' :: decode cs
  | '&' :: 'l' :: 't' :: ';' :: cs => '<' :: decode cs
  | '&' :: 'g' :: 't' :: ';' :: cs => '>' :: decode cs
  | '&' :: 'q' :: 'u' :: 'o' :: 't' :: ';' :: cs => '\"' :: decode cs
  | '&' :: '#' :: 'x' :: '2' :: '7' :: ';' :: cs => '\'' :: decode cs
  | c :: cs => c :: decode cs
  | [] => []

theorem decode_cons {c : Char} (hc : c ≠ '&') (cs : List Char) :
    decode (c :: cs) = c :: decode cs := by
  rw [decode] <;> rintro _ rfl <;> exact absurd rfl hc

/-- A character is read back from what it is escaped to. -/
theorem decode_escapeChar (c : Char) (cs : List Char) :
    decode (escapeChar c ++ cs) = c :: decode cs := by
  simp only [escapeChar, beq_iff_eq]
  split
  · rename_i h
    subst h
    rfl
  rename_i hamp
  split
  · rename_i h
    subst h
    rfl
  split
  · rename_i h
    subst h
    rfl
  split
  · rename_i h
    subst h
    rfl
  split
  · rename_i h
    subst h
    rfl
  exact decode_cons hamp cs

/-- The characters of a text, escaped. -/
def escapeChars (cs : List Char) : List Char := cs.flatMap escapeChar

theorem escapeChars_append (a b : List Char) :
    escapeChars (a ++ b) = escapeChars a ++ escapeChars b :=
  List.flatMap_append

theorem toList_escape (s : String) : (escape s).toList = escapeChars s.toList := escape_toList s

/-- **Escaping can be undone.** -/
theorem decode_escapeChars (cs : List Char) : decode (escapeChars cs) = cs := by
  induction cs with
  | nil => rfl
  | cons c cs ih => rw [escapeChars, List.flatMap_cons, decode_escapeChar, ← escapeChars, ih]

/-! ## Pieces -/

/-- A piece that a reader finds as it was meant: no raw markup, and attributes with proper names. -/
def Piece.Sound : Piece → Prop
  | .startTag _ attributes => Named attributes
  | .raw _ => False
  | .endTag _ | .text _ => True

theorem Balanced.sound {ps : List Piece} (h : Balanced ps) : ∀ p ∈ ps, p.Sound := by
  induction h with
  | nil => exact fun _ h => absurd h List.not_mem_nil
  | text s _ ih => exact List.forall_mem_cons.mpr ⟨trivial, ih⟩
  | void _ hn _ ih => exact List.forall_mem_cons.mpr ⟨hn, ih⟩
  | element _ hn _ _ ihi ihr =>
    exact List.forall_mem_append.mpr
      ⟨List.forall_mem_cons.mpr ⟨hn, ihi⟩, List.forall_mem_cons.mpr ⟨trivial, ihr⟩⟩

/-- What stands in a start tag. -/
def startInner (tag : Tag) (attributes : List Attribute) : List Char :=
  tag.name.toList ++ (String.join (attributes.map Attribute.render)).toList

/-- What stands in an end tag. -/
def endInner (tag : Tag) : List Char := '/' :: tag.name.toList

/-- The lexemes of a piece. -/
def Piece.lexemes : Piece → List Lexeme
  | .startTag tag attributes => [.tag (startInner tag attributes)]
  | .endTag tag => [.tag (endInner tag)]
  | .text s => (escapeChars s.toList).map .char
  | .raw s => Html.lexemes s.toList

/-- The text of a piece. -/
def Piece.shown : Piece → List Char
  | .text s => s.toList
  | .startTag _ _ | .endTag _ | .raw _ => []

theorem notMem_name (tag : Tag) : '>' ∉ tag.name.toList := by
  cases tag <;> decide

theorem IsName.notMem {name : List Char} (h : IsName name) {c : Char} (hc : c.isLower = false) :
    c ∉ name :=
  fun hm => Bool.false_ne_true (hc ▸ h.2 c hm)

theorem AttributesText.notMem {cs : List Char} (h : AttributesText cs) : '>' ∉ cs := by
  have hvalue {v : List Char} (hv : ∀ c ∈ v, IsPlain c) : '>' ∉ v := fun hm => (hv _ hm).2.1 rfl
  induction h with
  | nil => exact List.not_mem_nil
  | flag hn _ ih => simp [hn.notMem, ih]
  | value hn hv _ ih => simp [hn.notMem, hvalue hv, ih]

theorem notMem_startInner (tag : Tag) {attributes : List Attribute} (h : Named attributes) :
    '>' ∉ startInner tag attributes := by
  rw [startInner, List.mem_append, not_or]
  exact ⟨notMem_name tag, (attributesText_render h).notMem⟩

theorem lexemes_render_append {p : Piece} (h : p.Sound) (rest : List Char) :
    lexemes (p.render.toList ++ rest) = p.lexemes ++ lexemes rest := by
  cases p with
  | startTag tag attributes =>
    have htag := lexemes_tag (notMem_startInner tag h) rest
    rw [toList_render_startTag, startText]
    simpa [startInner, Piece.lexemes] using htag
  | endTag tag =>
    have hinner : '>' ∉ endInner tag := by simp [endInner, notMem_name]
    have htag := lexemes_tag hinner rest
    rw [toList_render_endTag, endText]
    simpa [endInner, Piece.lexemes] using htag
  | text s =>
    have hplain : ∀ c ∈ escapeChars s.toList, IsPlain c :=
      fun _ hc => isPlain_of_mem_escape (toList_escape s ▸ hc)
    rw [Piece.render, toList_escape, lexemes_plain hplain]
    rfl
  | raw s => exact absurd h id

/-- **Pieces are read back** from the text they are written as. -/
theorem lexemes_render {ps : List Piece} (h : ∀ p ∈ ps, p.Sound) :
    lexemes (render ps).toList = ps.flatMap Piece.lexemes := by
  induction ps with
  | nil => rfl
  | cons p ps ih =>
    obtain ⟨hp, hps⟩ := List.forall_mem_cons.mp h
    rw [toList_render_cons, lexemes_render_append hp, ih hps, List.flatMap_cons]

theorem writeLexemes_append (a b : List Lexeme) :
    writeLexemes (a ++ b) = writeLexemes a ++ writeLexemes b :=
  List.flatMap_append

theorem writeLexemes_char (cs : List Char) : writeLexemes (cs.map .char) = cs := by
  rw [writeLexemes, List.flatMap_map]
  exact List.flatMap_singleton' cs

theorem Piece.writeLexemes_lexemes {p : Piece} (h : p.Sound) :
    writeLexemes p.lexemes = p.render.toList := by
  cases p with
  | startTag tag attributes =>
    rw [toList_render_startTag]
    simp [writeLexemes, Piece.lexemes, Lexeme.write, startInner, startText]
  | endTag tag =>
    rw [toList_render_endTag]
    simp [writeLexemes, Piece.lexemes, Lexeme.write, endInner, endText]
  | text s => rw [Piece.lexemes, writeLexemes_char, Piece.render, toList_escape]
  | raw s => exact absurd h id

/-- The lexemes of pieces are written as the pieces are. -/
theorem writeLexemes_flatMap {ps : List Piece} (h : ∀ p ∈ ps, p.Sound) :
    writeLexemes (ps.flatMap Piece.lexemes) = (render ps).toList := by
  induction ps with
  | nil => rfl
  | cons p ps ih =>
    obtain ⟨hp, hps⟩ := List.forall_mem_cons.mp h
    rw [List.flatMap_cons, writeLexemes_append, p.writeLexemes_lexemes hp, ih hps,
      toList_render_cons]

/-- The characters between the tags of pieces are their texts, escaped. -/
theorem filterMap_char?_flatMap {ps : List Piece} (h : ∀ p ∈ ps, ∀ s, p ≠ .raw s) :
    (ps.flatMap Piece.lexemes).filterMap Lexeme.char? = escapeChars (ps.flatMap Piece.shown) := by
  induction ps with
  | nil => rfl
  | cons p ps ih =>
    obtain ⟨hp, hps⟩ := List.forall_mem_cons.mp h
    rw [List.flatMap_cons, List.filterMap_append, ih hps, List.flatMap_cons, escapeChars_append]
    congr 1
    cases p with
    | startTag | endTag => rfl
    | text s =>
      rw [Piece.lexemes, Piece.shown, List.filterMap_map]
      exact List.filterMap_some
    | raw s => exact absurd rfl (hp s)

theorem Piece.Sound.ne_raw {p : Piece} (h : p.Sound) (s : String) : p ≠ .raw s := by
  rintro rfl
  exact h

theorem withoutTags_render {ps : List Piece} (h : ∀ p ∈ ps, p.Sound) :
    withoutTags (render ps).toList = escapeChars (ps.flatMap Piece.shown) := by
  rw [withoutTags, lexemes_render h, filterMap_char?_flatMap fun p hp => (h p hp).ne_raw]

/-- **The text of a page is escaped exactly once.** -/
theorem decode_withoutTags_render {ps : List Piece} (h : ∀ p ∈ ps, p.Sound) :
    decode (withoutTags (render ps).toList) = ps.flatMap Piece.shown := by
  rw [withoutTags_render h, decode_escapeChars]

end RichMarkdown.Html
