import RichMarkdown.Proofs.Highlight.Scan

/-!
# Lexemes at their places

Every lexeme of a code text is read at a place: what is before it has been read, and a rule of the
lexer, or the lack of one, settles what it is (`Lexer.Reads`). The lexemes behind a place depend on
what was read before it by that text alone, so the lexeme at a place can be told from the rules
(`reads_of_lexemes`). The tokens are the lexemes with a category, at the byte offsets of their
places (`mem_tokensFrom_iff`).

* `exists_readsToken`: each token of a code text is what a rule found at its place.
-/

set_option autoImplicit false

namespace RichMarkdown

open Text (byteLength isAsciiBlank)

namespace Lexer

/-- How the lexer reads a lexeme in front of some text, with `before` behind it, latest character
first. A blank is passed, and so is a character to which no rule applies; otherwise the lexeme is
what a rule found. -/
inductive Reads (language : Language) (before : List Char) (lineStart : Bool) :
    Lexeme → List Char → Prop
  | blank {c : Char} {after : List Char} : isAsciiBlank c = true →
    Reads language before lineStart ⟨[c], none⟩ after
  | stray {c : Char} {after : List Char} : isAsciiBlank c = false →
    find? language before lineStart (c :: after) = none →
    Reads language before lineStart ⟨[c], none⟩ after
  | word {c : Char} {cs after : List Char} {found : Found} : isAsciiBlank c = false →
    find? language before lineStart (c :: (cs ++ after)) = some found →
    (c :: (cs ++ after)).take found.length = c :: cs →
    Reads language before lineStart ⟨c :: cs, some found.category⟩ after

variable {language : Language} {before rest : List Char} {lineStart : Bool}

/-- The first lexeme is read where the lexer stands, and the others behind it. -/
theorem reads_of_lexemes (hl : language.Ascii) {l : Lexeme} {ls : List Lexeme}
    (h : lexemes language before lineStart rest = l :: ls) :
    Reads language before lineStart l (ls.flatMap Lexeme.text) ∧
      ∃ lineStart', lexemes language (l.text.reverse ++ before) lineStart'
        (ls.flatMap Lexeme.text) = ls := by
  rcases rest with _ | ⟨c, cs⟩
  · rw [lexemes] at h
    cases h
  rw [lexemes] at h
  split at h
  · rename_i hc
    obtain ⟨rfl, rfl⟩ := List.cons_eq_cons.mp h
    rw [lexemes_flatten]
    exact ⟨.blank (by rw [beq_iff_eq.mp hc]; decide), _, rfl⟩
  rename_i hline
  split at h
  · rename_i hblank
    obtain ⟨rfl, rfl⟩ := List.cons_eq_cons.mp h
    rw [lexemes_flatten]
    exact ⟨.blank hblank, _, rfl⟩
  rename_i hblank
  rw [Bool.not_eq_true] at hblank
  split at h
  · rename_i hnone
    obtain ⟨rfl, rfl⟩ := List.cons_eq_cons.mp h
    rw [lexemes_flatten]
    exact ⟨.stray hblank hnone, _, rfl⟩
  · rename_i found hfound
    obtain ⟨rfl, rfl⟩ := List.cons_eq_cons.mp h
    rw [lexemes_flatten]
    have hne : c ≠ '\n' := fun hn => hline (beq_iff_eq.mpr hn)
    obtain ⟨n, hn⟩ := Nat.exists_eq_add_one.mpr (find?_pos hl hne hfound)
    refine ⟨.word hblank ?_ ?_, _, rfl⟩
    · rwa [List.take_append_drop]
    · rw [List.take_append_drop, hn, List.take_succ_cons, Nat.add_sub_cancel]

/-- The lexemes behind a place are those of the code from there on. -/
theorem exists_lexemes_of_append (hl : language.Ascii) {read ahead : List Lexeme}
    (h : lexemes language before lineStart rest = read ++ ahead) :
    ∃ lineStart', lexemes language ((read.flatMap Lexeme.text).reverse ++ before) lineStart'
      (ahead.flatMap Lexeme.text) = ahead := by
  induction read generalizing before lineStart rest with
  | nil =>
    have hrest := lexemes_flatten language before lineStart rest
    rw [List.nil_append] at h
    rw [h] at hrest
    exact ⟨lineStart, by rw [hrest]; exact h⟩
  | cons l ls ih =>
    obtain ⟨-, lineStart', hls⟩ := reads_of_lexemes hl h
    obtain ⟨lineStart'', hahead⟩ := ih hls
    refine ⟨lineStart'', ?_⟩
    rwa [List.flatMap_cons, List.reverse_append, List.append_assoc]

/-- Each lexeme of a code text is read in front of those that follow it. -/
theorem reads_of_append (hl : language.Ascii) {read ahead : List Lexeme} {l : Lexeme}
    {code : List Char} (h : lexemes language [] true code = read ++ l :: ahead) :
    ∃ lineStart, Reads language (read.flatMap Lexeme.text).reverse lineStart l
      (ahead.flatMap Lexeme.text) := by
  obtain ⟨lineStart, hahead⟩ := exists_lexemes_of_append hl h
  rw [List.append_nil] at hahead
  exact ⟨lineStart, (reads_of_lexemes hl hahead).1⟩

/-! ## Tokens -/

theorem tokensFrom_cons_some {l : Lexeme} {category : Category} (hl : l.category = some category)
    (pos : Nat) (ls : List Lexeme) :
    tokensFrom pos (l :: ls) =
      ⟨pos, pos + byteLength l.text, category⟩ :: tokensFrom (pos + byteLength l.text) ls := by
  rw [tokensFrom, hl]

theorem tokensFrom_cons_none {l : Lexeme} (hl : l.category = none) (pos : Nat)
    (ls : List Lexeme) :
    tokensFrom pos (l :: ls) = tokensFrom (pos + byteLength l.text) ls := by
  rw [tokensFrom, hl]

/-- The tokens are the lexemes with a category, each from the end of those before it on. -/
theorem mem_tokensFrom_iff {pos : Nat} {ls : List Lexeme} {t : Token} :
    t ∈ tokensFrom pos ls ↔ ∃ read l ahead, ls = read ++ l :: ahead ∧
      l.category = some t.category ∧ t.start = pos + byteLength (read.flatMap Lexeme.text) ∧
      t.stop = t.start + byteLength l.text := by
  induction ls generalizing pos with
  | nil => simp [tokensFrom]
  | cons l ls ih =>
    have hlater : t ∈ tokensFrom (pos + byteLength l.text) ls ↔
        ∃ read m ahead, l :: ls = (l :: read) ++ m :: ahead ∧ m.category = some t.category ∧
          t.start = pos + byteLength ((l :: read).flatMap Lexeme.text) ∧
          t.stop = t.start + byteLength m.text := by
      simp only [ih, List.cons_append, List.cons.injEq, true_and, List.flatMap_cons,
        Text.byteLength_append, Nat.add_assoc]
    constructor
    · intro h
      cases hl : l.category with
      | none =>
        rw [tokensFrom_cons_none hl, hlater] at h
        obtain ⟨read, m, ahead, h⟩ := h
        exact ⟨_, m, ahead, h⟩
      | some category =>
        rw [tokensFrom_cons_some hl, List.mem_cons] at h
        rcases h with rfl | h
        · exact ⟨[], l, ls, rfl, hl, rfl, rfl⟩
        · obtain ⟨read, m, ahead, h⟩ := hlater.mp h
          exact ⟨_, m, ahead, h⟩
    · rintro ⟨_ | ⟨m, read⟩, l', ahead, heq, hcategory, hstart, hstop⟩
      · obtain ⟨rfl, rfl⟩ := List.cons_eq_cons.mp heq
        rw [tokensFrom_cons_some hcategory, List.mem_cons]
        refine .inl ?_
        obtain ⟨start, stop, category⟩ := t
        simp only [List.flatMap_nil, byteLength, Nat.add_zero] at hstart hstop
        rw [hstop, hstart]
      · obtain ⟨rfl, -⟩ := List.cons_eq_cons.mp heq
        have h := hlater.mpr ⟨read, l', ahead, heq, hcategory, hstart, hstop⟩
        cases hl : l.category with
        | none => rwa [tokensFrom_cons_none hl]
        | some category =>
          rw [tokensFrom_cons_some hl]
          exact .tail _ h

/-! ## Places -/

/-- The lexer comes to a place between two parts of a code text: no lexeme reaches over it. -/
def StandsAt (language : Language) (code before rest : List Char) : Prop :=
  ∃ read ahead, lexemes language [] true code = read ++ ahead ∧
    read.flatMap Lexeme.text = before ∧ ahead.flatMap Lexeme.text = rest

theorem StandsAt.code_eq {code : List Char} (h : StandsAt language code before rest) :
    code = before ++ rest := by
  obtain ⟨read, ahead, heq, rfl, rfl⟩ := h
  rw [← lexemes_flatten language [] true code, heq, List.flatMap_append]

/-- In front of a character that is not blank the lexer makes a token of what a rule finds. -/
theorem StandsAt.exists_token (hl : language.Ascii) {code : String} {c : Char} {cs : List Char}
    (h : StandsAt language code.toList before (c :: cs)) (hc : isAsciiBlank c = false) :
    ∃ lineStart, ∀ found, find? language before.reverse lineStart (c :: cs) = some found →
      ∃ t ∈ tokenize language code, t.start = byteLength before ∧ t.category = found.category ∧
        t.text? code = some (String.ofList ((c :: cs).take found.length)) := by
  have hcode := h.code_eq
  obtain ⟨read, _ | ⟨l, ahead⟩, heq, rfl, hrest⟩ := h
  · cases hrest
  obtain ⟨lineStart, hreads⟩ := reads_of_append hl heq
  rw [List.flatMap_cons] at hrest
  refine ⟨lineStart, fun found hfound => ?_⟩
  cases hreads with
  | blank hblank =>
    obtain ⟨rfl, -⟩ := List.cons_eq_cons.mp hrest
    rw [hc] at hblank
    cases hblank
  | stray _ hnone =>
    obtain ⟨rfl, rfl⟩ := List.cons_eq_cons.mp hrest
    cases hnone.symm.trans hfound
  | @word d ds _ word _ hword htake =>
    obtain ⟨rfl, rfl⟩ := List.cons_eq_cons.mp hrest
    obtain rfl : word = found := Option.some.inj (hword.symm.trans hfound)
    let start := byteLength (read.flatMap Lexeme.text)
    refine ⟨⟨start, start + byteLength (d :: ds), word.category⟩, mem_tokensFrom_iff.mpr
      ⟨read, _, ahead, heq, rfl, (Nat.zero_add _).symm, rfl⟩, rfl, rfl, ?_⟩
    have hslice := Text.slice?_byteLength (read.flatMap Lexeme.text) (d :: ds)
      (ahead.flatMap Lexeme.text)
    rw [Token.text?, hcode, List.append_eq, htake]
    exact congrArg (Option.map String.ofList) hslice

/-- A token covers a text between two places, which a rule of the lexer took at the first one. -/
structure ReadsToken (language : Language) (code before text after : List Char) (t : Token) :
    Prop where
  stands : StandsAt language code before (text ++ after)
  goesOn : StandsAt language code (before ++ text) after
  start : t.start = byteLength before
  stop : t.stop = byteLength (before ++ text)
  reads : ∃ lineStart, Reads language before.reverse lineStart ⟨text, some t.category⟩ after

theorem ReadsToken.text?_eq {code : String} {text after : List Char} {t : Token}
    (h : ReadsToken language code.toList before text after t) :
    t.text? code = some (String.ofList text) := by
  rw [Token.text?, h.stands.code_eq, h.start, h.stop, Text.byteLength_append,
    Text.slice?_byteLength]
  rfl

/-- What a token covers is what a rule found. -/
theorem ReadsToken.exists_found {code text after : List Char} {t : Token}
    (h : ReadsToken language code before text after t) :
    ∃ lineStart found, find? language before.reverse lineStart (text ++ after) = some found ∧
      found.category = t.category ∧ (text ++ after).take found.length = text := by
  obtain ⟨lineStart, hreads⟩ := h.reads
  generalize hl : (⟨text, some t.category⟩ : Lexeme) = l at hreads
  cases hreads with
  | blank => cases hl
  | stray => cases hl
  | word _ hfind htake =>
    obtain ⟨rfl, hcategory⟩ := Lexeme.mk.inj hl
    exact ⟨lineStart, _, hfind, (Option.some.inj hcategory).symm, htake⟩

/-- **Each token is read at a place.** -/
theorem exists_readsToken (hl : language.Ascii) {code : String} {t : Token}
    (h : t ∈ tokenize language code) :
    ∃ before text after, ReadsToken language code.toList before text after t := by
  obtain ⟨read, ⟨text, category⟩, ahead, heq, rfl, hstart, hstop⟩ := mem_tokensFrom_iff.mp h
  rw [Nat.zero_add] at hstart
  refine ⟨_, text, _, ⟨read, _ :: ahead, heq, rfl, rfl⟩,
    ⟨read ++ [⟨text, some t.category⟩], ahead, ?_, ?_, rfl⟩, hstart, ?_, reads_of_append hl heq⟩
  · rw [heq, List.append_assoc, List.singleton_append]
  · rw [List.flatMap_append, List.flatMap_singleton]
  · rw [hstop, hstart, Text.byteLength_append]

end Lexer

end RichMarkdown
