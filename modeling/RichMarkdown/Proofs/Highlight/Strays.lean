import RichMarkdown.Proofs.Highlight.Covered
import RichMarkdown.Proofs.Highlight.Lexemes

/-!
# What tokens leave out

Where the lexer stands in front of a letter, a digit, an underscore, an operator or a punctuation
mark, some rule applies (`find?_ne_none`). So such a character is in a lexeme with a category, and
its byte is in exactly one token, since tokens are apart (`countP_holds_eq_one`). What lies between
tokens are blanks, quotes that open no string, and characters outside ASCII.

* `lexical_covers`: no letter, digit, underscore, operator or punctuation mark of a code in a
  language that the lexer knows is left out; in other languages there are no tokens.
-/

set_option autoImplicit false

namespace RichMarkdown

open Text (utf8 asciiClass byteLength isAsciiBlank)

/-! ## Characters of words -/

namespace Lexer

/-- A letter, a digit or an underscore, an operator, or a punctuation mark. -/
def isSignificant (c : Char) : Bool := isWordPart c || isOperator c || isPunctuation c

variable {language : Language} {before : List Char} {lineStart : Bool}

theorem isSignificant_of_isAsciiBlank {c : Char} (h : isAsciiBlank c = true) :
    isSignificant c = false := by
  simp only [isAsciiBlank, Bool.or_eq_true, beq_iff_eq] at h
  rcases h with (((rfl | rfl) | rfl) | rfl) | rfl <;> decide

/-- A rule applies to every significant character, whatever stands around it. -/
theorem find?_ne_none {c : Char} (h : isSignificant c = true) (cs : List Char) :
    find? language before lineStart (c :: cs) ≠ none := by
  intro hnone
  simp only [find?, Option.orElse_eq_orElse, Option.orElse_eq_or, Option.or_eq_none_iff] at hnone
  obtain ⟨-, -, -, hnumber, -, hword, hoperator, hpunctuation⟩ := hnone
  have hdigit : c.isDigit = false := by
    by_contra hc
    rw [number?, if_pos (by simpa using hc)] at hnumber
    cases hnumber
  have hstart : isWordStart c = false := by
    by_contra hc
    rw [word?, if_pos (by simpa using hc)] at hword
    cases hword
  have hop : isOperator c = false := by
    by_contra hc
    rw [operator?, if_pos (by simpa using hc)] at hoperator
    cases hoperator
  have hpunct : isPunctuation c = false := by
    by_contra hc
    rw [punctuation?, if_pos (by simpa using hc)] at hpunctuation
    cases hpunctuation
  rw [isWordStart, Bool.or_eq_false_iff] at hstart
  rw [isSignificant, hop, hpunct, isWordPart, Char.isAlphanum, hstart.1, hdigit, hstart.2] at h
  cases h

/-- A lexeme without a category has no significant character. -/
theorem Reads.not_isSignificant {l : Lexeme} {after : List Char}
    (h : Reads language before lineStart l after) (hnone : l.category = none) :
    ∀ c ∈ l.text, isSignificant c = false := by
  cases h with
  | blank hc => exact List.forall_mem_singleton.mpr (isSignificant_of_isAsciiBlank hc)
  | stray _ hfind =>
    exact List.forall_mem_singleton.mpr (Bool.eq_false_iff.mpr fun hs => find?_ne_none hs _ hfind)
  | word => cases hnone

theorem not_isSignificant_of_mem (hl : language.Ascii) {code : List Char} {l : Lexeme}
    (h : l ∈ lexemes language [] true code) (hnone : l.category = none) :
    ∀ c ∈ l.text, isSignificant c = false := by
  obtain ⟨read, ahead, heq⟩ := List.append_of_mem h
  obtain ⟨_, hreads⟩ := reads_of_append hl heq
  exact hreads.not_isSignificant hnone

/-! ## Bytes of words -/

/-- A character of a code text is in one of its lexemes. -/
theorem exists_lexeme_of_flatMap {ls : List Lexeme} {front back : List Char} {c : Char}
    (h : ls.flatMap Lexeme.text = front ++ c :: back) :
    ∃ read l ahead u v, ls = read ++ l :: ahead ∧ l.text = u ++ c :: v ∧
      front = read.flatMap Lexeme.text ++ u := by
  induction ls generalizing front with
  | nil => simp at h
  | cons l ls ih =>
    rw [List.flatMap_cons] at h
    have hlater (front' : List Char) (hfront : front = l.text ++ front')
        (hback : ls.flatMap Lexeme.text = front' ++ c :: back) :
        ∃ read m ahead u v, l :: ls = read ++ m :: ahead ∧ m.text = u ++ c :: v ∧
          front = read.flatMap Lexeme.text ++ u := by
      obtain ⟨read, m, ahead, u, v, rfl, hm, rfl⟩ := ih hback
      refine ⟨l :: read, m, ahead, u, v, rfl, hm, ?_⟩
      rw [hfront, List.flatMap_cons, List.append_assoc]
    rcases List.append_eq_append_iff.mp h with ⟨front', hfront, hback⟩ | ⟨rest, hl, hback⟩
    · exact hlater front' hfront hback
    · rcases rest with _ | ⟨d, v⟩
      · rw [List.append_nil] at hl
        exact hlater [] (by rw [hl, List.append_nil]) (by rw [hback]; rfl)
      · obtain ⟨rfl, -⟩ := List.cons_eq_cons.mp hback
        exact ⟨[], l, ls, front, v, rfl, hl, rfl⟩

end Lexer

namespace Token

/-- Whether the byte at an offset is in a token. -/
def holds (offset : Nat) (t : Token) : Bool := t.start ≤ offset && offset < t.stop

theorem holds_iff {offset : Nat} {t : Token} :
    t.holds offset = true ↔ t.start ≤ offset ∧ offset < t.stop := by
  rw [holds, Bool.and_eq_true, decide_eq_true_eq, decide_eq_true_eq]

/-- Tokens that are apart share no byte. -/
theorem countP_holds_eq_one {tokens : List Token} (hapart : Apart tokens) {t : Token}
    (ht : t ∈ tokens) {offset : Nat} (h : t.holds offset = true) :
    tokens.countP (holds offset) = 1 := by
  obtain ⟨front, back, rfl⟩ := List.append_of_mem ht
  obtain ⟨hstart, hstop⟩ := holds_iff.mp h
  obtain ⟨-, hback, hfront⟩ := List.pairwise_append.mp hapart
  have hfront0 : front.countP (holds offset) = 0 := by
    refine List.countP_eq_zero.mpr fun u hu hholds => ?_
    have := hfront u hu t (.head _)
    have := holds_iff.mp hholds
    omega
  have hback0 : back.countP (holds offset) = 0 := by
    refine List.countP_eq_zero.mpr fun u hu hholds => ?_
    have := ((apart_cons t back).mp hback).1 u hu
    have := holds_iff.mp hholds
    omega
  rw [List.countP_append, List.countP_cons_of_pos h, hfront0, hback0]

end Token

namespace Lexer

variable {language : Language}

/-- The byte of a significant character is in a token. -/
theorem exists_holds (hl : language.Ascii) {code : String} {front back : List Char} {c : Char}
    (hcode : code.toList = front ++ c :: back) (hc : isSignificant c = true) :
    ∃ t ∈ tokenize language code, t.holds (byteLength front) = true := by
  have hflat := lexemes_flatten language [] true code.toList
  rw [hcode] at hflat
  obtain ⟨read, l, ahead, u, v, heq, htext, hfront⟩ := exists_lexeme_of_flatMap hflat
  cases hcategory : l.category with
  | none =>
    have hmem : l ∈ lexemes language [] true (front ++ c :: back) :=
      heq ▸ List.mem_append_right _ (.head _)
    have hnot := not_isSignificant_of_mem hl hmem hcategory c (htext ▸ by simp)
    rw [hc] at hnot
    cases hnot
  | some category =>
    have hpos := c.utf8Size_pos
    have hlen : byteLength l.text = byteLength u + (c.utf8Size + byteLength v) := by
      rw [htext, Text.byteLength_append, byteLength]
    let start := byteLength (read.flatMap Lexeme.text)
    refine ⟨⟨start, start + byteLength l.text, category⟩, mem_tokensFrom_iff.mpr
      ⟨read, l, ahead, hcode ▸ heq, hcategory, (Nat.zero_add _).symm, rfl⟩, ?_⟩
    rw [Token.holds_iff, hfront, Text.byteLength_append, hlen]
    dsimp only [start]
    omega

/-! ## Text between tokens -/

theorem mem_of_mem_gap {cs : List Char} {s : Segment} (h : s ∈ Segment.gap cs) :
    s = ⟨String.ofList cs, none⟩ := by
  cases cs with
  | nil => cases h
  | cons c cs => exact List.mem_singleton.mp h

/-- Uncovered segments consist of lexemes without a category. `gap` is the text of such lexemes
behind the last token. -/
theorem not_isSignificant_segmentsFrom (ls : List Lexeme)
    (hne : ∀ l ∈ ls, l.text ≠ [])
    (hls : ∀ l ∈ ls, l.category = none → ∀ c ∈ l.text, isSignificant c = false)
    (before gap : List Char) (hgap : ∀ c ∈ gap, isSignificant c = false) :
    ∀ s ∈ segmentsFrom (byteLength before) (gap ++ ls.flatMap Lexeme.text)
        (tokensFrom (byteLength (before ++ gap)) ls),
      s.category = none → ∀ c ∈ s.text.toList, isSignificant c = false := by
  induction ls generalizing before gap with
  | nil =>
    intro s hs _
    rw [tokensFrom, segmentsFrom, List.flatMap_nil, List.append_nil] at hs
    rwa [mem_of_mem_gap hs, String.toList_ofList]
  | cons l ls ih =>
    obtain ⟨hl, hls⟩ := List.forall_mem_cons.mp hls
    obtain ⟨hlne, hne⟩ := List.forall_mem_cons.mp hne
    cases hcategory : l.category with
    | none =>
      have hgap' : ∀ c ∈ gap ++ l.text, isSignificant c = false :=
        List.forall_mem_append.mpr ⟨hgap, hl hcategory⟩
      have h := ih hne hls before (gap ++ l.text) hgap'
      rwa [← List.append_assoc, Text.byteLength_append (before ++ gap), List.append_assoc gap,
        ← List.flatMap_cons, ← tokensFrom_cons_none hcategory] at h
    | some category =>
      have hlen := Text.byteLength_pos hlne
      rw [tokensFrom_cons_some hcategory, List.flatMap_cons,
        Token.segmentsFrom_cut (by simpa using hlen) rfl (by simp)]
      have h := ih hne hls (before ++ gap ++ l.text) [] (by simp)
      rw [List.append_nil, List.nil_append, Text.byteLength_append (before ++ gap)] at h
      intro s hs hnone
      rcases List.mem_append.mp hs with hs | hs
      · rwa [mem_of_mem_gap hs, String.toList_ofList]
      · rcases List.mem_cons.mp hs with rfl | hs
        · cases hnone
        · exact h s hs hnone

theorem not_isSignificant_segments (hl : language.Ascii) (code : String) :
    ∀ s ∈ segments code (tokenize language code), s.category = none →
      ∀ c ∈ s.text.toList, isSignificant c = false := by
  have h := not_isSignificant_segmentsFrom (lexemes language [] true code.toList)
    (lexemes_ne_nil language [] true code.toList) (fun _ => not_isSignificant_of_mem hl) [] []
    (fun _ h => absurd h List.not_mem_nil)
  rwa [lexemes_flatten] at h

/-! ## Coverage -/

theorem tokenize_lexical {tag : String} (h : Language.find? tag = some language) (code : String) :
    Highlighter.lexical.tokenize code (some tag) = tokenize language code := by
  unfold Highlighter.lexical
  dsimp only
  rw [Option.bind_some, h]

theorem tokenize_lexical_none {tag : Option String} (h : tag.bind Language.find? = none)
    (code : String) : Highlighter.lexical.tokenize code tag = [] := by
  unfold Highlighter.lexical
  dsimp only
  rw [h]

theorem supports_lexical (tag : String) :
    Highlighter.lexical.supports tag = (Language.find? tag).isSome := by
  simp only [Highlighter.lexical]

/-- Every significant byte of a code text is in exactly one token, and the text between tokens has
no significant character. -/
structure CoversWords (code : String) (tokens : List Token) : Prop where
  once : ∀ offset b, (utf8 code.toList)[offset]? = some b → asciiClass isSignificant b = true →
    tokens.countP (Token.holds offset) = 1
  between : ∀ s ∈ segments code tokens, s.category = none →
    ∀ c ∈ s.text.toList, isSignificant c = false

theorem apart_tokenize (language : Language) (code : String) :
    Token.Apart (tokenize language code) := by
  have h : Scanner.At code.toList 0 []
      ((lexemes language [] true code.toList).flatMap Lexeme.text) := by
    rw [lexemes_flatten]
    exact .start _
  exact (tokensFrom_fits _ (lexemes_ne_nil language [] true code.toList) h).2

theorem coversWords_tokenize (hl : language.Ascii) (code : String) :
    CoversWords code (tokenize language code) := by
  refine ⟨fun offset b hget hb => ?_, not_isSignificant_segments hl code⟩
  have hlow : ¬ Text.IsHigh b := by
    intro h
    rw [Text.asciiClass_isHigh _ h] at hb
    cases hb
  obtain ⟨front, c, back, hcode, rfl, hc, rfl⟩ := Text.exists_of_getElem?_utf8 hget hlow
  rw [Text.asciiClass_toUInt8 _ hc] at hb
  obtain ⟨t, ht, hholds⟩ := exists_holds hl hcode hb
  exact Token.countP_holds_eq_one (apart_tokenize language code) ht hholds

/-- **No word is left out.** In a language that the lexer knows, every letter, digit, underscore,
operator byte and punctuation byte of any code is in exactly one token, and the text between tokens
has no such character. For any other language tag, and without one, there are no tokens. So the
lexer knows a language exactly when some code has tokens in it. -/
theorem lexical_covers :
    (∀ tag code, Highlighter.lexical.supports tag = true →
      CoversWords code (Highlighter.lexical.tokenize code (some tag))) ∧
    (∀ tag code, Highlighter.lexical.supports tag = false →
      Highlighter.lexical.tokenize code (some tag) = []) ∧
    (∀ code, Highlighter.lexical.tokenize code none = []) ∧
    ∀ tag, Highlighter.lexical.supports tag = true ↔
      ∃ code, Highlighter.lexical.tokenize code (some tag) ≠ [] := by
  have hcovers (tag code : String) (h : Highlighter.lexical.supports tag = true) :
      CoversWords code (Highlighter.lexical.tokenize code (some tag)) := by
    rw [supports_lexical] at h
    obtain ⟨language, hfind⟩ := Option.isSome_iff_exists.mp h
    rw [tokenize_lexical hfind]
    exact coversWords_tokenize (Language.ascii_of_find? hfind) code
  have hnone (tag code : String) (h : Highlighter.lexical.supports tag = false) :
      Highlighter.lexical.tokenize code (some tag) = [] := by
    rw [supports_lexical, Option.isSome_eq_false_iff, Option.isNone_iff_eq_none] at h
    exact tokenize_lexical_none (by rw [Option.bind_some, h]) code
  refine ⟨hcovers, hnone, tokenize_lexical_none (Option.bind_none _), fun tag => ⟨fun h => ?_, ?_⟩⟩
  · -- the one letter of this code is in a token
    refine ⟨"a", fun hnil => ?_⟩
    have hone := (hcovers tag "a" h).once 0 'a'.toUInt8 (by decide) (by decide)
    rw [hnil] at hone
    cases hone
  · rintro ⟨code, hcode⟩
    by_contra h
    rw [Bool.not_eq_true] at h
    exact hcode (hnone tag code h)

/-- A digit in a name, the end of an operator, a number and a semicolon are in one token each; a
letter outside ASCII is in none. -/
theorem lexical_covers_assignment :
    ∃ tokens, Highlighter.lexical.tokenize "n_1 += é(2);" (some "rust") = tokens ∧
      CoversWords "n_1 += é(2);" tokens ∧
      (∀ offset ∈ [2, 5, 10, 12], tokens.countP (Token.holds offset) = 1) ∧
      tokens.countP (Token.holds 7) = 0 := by
  have hcovers := lexical_covers.1 "rust" "n_1 += é(2);" (by decide +kernel)
  refine ⟨_, rfl, hcovers, ?_, by decide +kernel⟩
  intro offset hoffset
  simp only [List.mem_cons, List.not_mem_nil, or_false] at hoffset
  rcases hoffset with rfl | rfl | rfl | rfl
  · exact hcovers.once 2 '1'.toUInt8 (by decide +kernel) (by decide +kernel)
  · exact hcovers.once 5 '='.toUInt8 (by decide +kernel) (by decide +kernel)
  · exact hcovers.once 10 '2'.toUInt8 (by decide +kernel) (by decide +kernel)
  · exact hcovers.once 12 ';'.toUInt8 (by decide +kernel) (by decide +kernel)

end Lexer

end RichMarkdown
