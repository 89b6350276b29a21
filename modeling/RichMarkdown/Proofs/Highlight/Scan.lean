import RichMarkdown.Proofs.Highlight.Agreement
import RichMarkdown.Proofs.Highlight.Fits
import RichMarkdown.Proofs.Highlight.Segments

/-!
# Scans

Each rule of the lexer takes at least one character (`find?_pos`), so every round of the scanner's
loop moves on and a scan ends, with the tokens of the lexer (`ends_tokensFrom`). The lexemes make up
the code, so their tokens stand in order, apart from each other, and between characters.

* `scan_safe`: a scan ends without a fault, with tokens that fit the code.
-/

set_option autoImplicit false

namespace RichMarkdown

open Text (utf8 asciiClass byteLength IsAscii IsHigh InAscii beq_toUInt8 beq_of_isHigh)

/-! ## Rules take characters -/

namespace Lexer

variable {language : Language} {found : Found}

theorem runLength_pos {p : Char → Bool} {c : Char} (h : p c = true) (cs : List Char) :
    0 < runLength p (c :: cs) := by
  rw [runLength, List.takeWhile_cons_of_pos h]
  exact Nat.succ_pos _

theorem comment?_pos (hl : language.Ascii) {c : Char} {cs : List Char} (hc : c ≠ '\n')
    (h : comment? language (c :: cs) = some found) : 0 < found.length := by
  unfold comment? at h
  split at h
  · obtain rfl := Option.some.inj h
    exact runLength_pos (by simpa using hc) cs
  · cases hb : language.blockComment with
    | none =>
      rw [hb] at h
      cases h
    | some marks =>
      obtain ⟨ho, -⟩ := hl.blockComment marks hb
      rw [hb] at h
      dsimp only at h
      split at h
      · obtain rfl := Option.some.inj h
        exact Nat.add_pos_left (List.length_pos_iff.mpr ho.1) _
      · cases h

theorem attribute?_pos {lineStart : Bool} {rest : List Char}
    (h : attribute? language lineStart rest = some found) : 0 < found.length := by
  unfold attribute? at h
  split at h
  · split at h
    · obtain rfl := Option.some.inj h
      dsimp only
      omega
    · cases h
  · obtain rfl := Option.some.inj h
    dsimp only
    omega
  · obtain rfl := Option.some.inj h
    dsimp only
    omega
  · split at h
    · obtain rfl := Option.some.inj h
      dsimp only
      omega
    · cases h
  · cases h

theorem string?_pos {rest : List Char} (h : string? language rest = some found) :
    0 < found.length := by
  unfold string? at h
  split at h
  · cases h
  · split at h
    · obtain rfl := Option.some.inj h
      dsimp only
      split
      · omega
      · omega
    · cases h

theorem number?_pos {rest : List Char} (h : number? rest = some found) : 0 < found.length := by
  unfold number? at h
  split at h
  · cases h
  · split at h
    · rename_i c cs hd
      obtain rfl := Option.some.inj h
      have hpart : isWordPart c = true := by
        rw [isWordPart, Char.isAlphanum, hd, Bool.or_true, Bool.true_or]
      rw [numberLength, hpart, Bool.true_or, if_pos rfl]
      exact Nat.succ_pos _
    · cases h

theorem variableName?_pos {rest : List Char} (h : variableName? language rest = some found) :
    0 < found.length := by
  unfold variableName? at h
  split at h
  · cases h
  · split at h
    · obtain rfl := Option.some.inj h
      dsimp only
      omega
    · cases h

theorem word?_pos {before rest : List Char} (h : word? language before rest = some found) :
    0 < found.length := by
  unfold word? at h
  split at h
  · cases h
  · rename_i c cs
    split at h
    · rename_i hs
      have hpart : (isWordPart c || language.wordChars.contains c) = true :=
        Bool.or_eq_true_iff.mpr (.inl (Scanner.isWordPart_of_isWordStart hs))
      have hpos := runLength_pos
        (p := fun d => isWordPart d || language.wordChars.contains d) hpart cs
      obtain rfl := Option.some.inj h
      repeat' split
      all_goals first
        | exact hpos
        | exact Nat.succ_pos _
    · cases h

theorem operator?_pos {rest : List Char} (h : operator? rest = some found) :
    0 < found.length := by
  unfold operator? at h
  split at h
  · cases h
  · split at h
    · rename_i hc
      obtain rfl := Option.some.inj h
      exact runLength_pos hc _
    · cases h

theorem punctuation?_pos {rest : List Char} (h : punctuation? rest = some found) :
    0 < found.length := by
  unfold punctuation? at h
  split at h
  · cases h
  · split at h
    · obtain rfl := Option.some.inj h
      exact Nat.one_pos
    · cases h

/-- **Progress.** A rule that applies takes at least one character. -/
theorem find?_pos (hl : language.Ascii) {before cs : List Char} {lineStart : Bool} {c : Char}
    (hc : c ≠ '\n') (h : find? language before lineStart (c :: cs) = some found) :
    0 < found.length := by
  simp only [find?, Option.orElse_eq_orElse, Option.orElse_eq_or, Option.or_eq_some_iff] at h
  rcases h with h | ⟨-, h | ⟨-, h | ⟨-, h | ⟨-, h | ⟨-, h | ⟨-, h | ⟨-, h⟩⟩⟩⟩⟩⟩⟩
  · exact comment?_pos hl hc h
  · exact attribute?_pos h
  · exact string?_pos h
  · exact number?_pos h
  · exact variableName?_pos h
  · exact word?_pos h
  · exact operator?_pos h
  · exact punctuation?_pos h

end Lexer

namespace Scanner

variable {language : Language} {code before rest : List Char} {pos : Nat}

/-! ## The loop -/

/-- The loop has one answer at most. -/
theorem Ends.unique {s : State} {a b : Except Fault (List Token)} (ha : Ends language code s a)
    (hb : Ends language code s b) : a = b := by
  induction ha with
  | finished h =>
    cases hb with
    | finished h' => exact Round.finished.inj (h.symm.trans h')
    | goesOn h' _ => cases h.symm.trans h'
  | goesOn h _ ih =>
    cases hb with
    | finished h' => cases h.symm.trans h'
    | goesOn h' hb =>
      obtain rfl := Round.goesOn.inj (h.symm.trans h')
      exact ih hb

/-- The byte at the start of a character, as the loop looks at it. -/
theorem exists_peek? {c : Char} {cs : List Char} (h : At code pos before (c :: cs)) :
    ∃ b, peek? code pos = some b ∧ (b == '\n'.toUInt8) = (c == '\n') ∧
      asciiClass Text.isAsciiBlank b = Text.isAsciiBlank c := by
  have hline : IsAscii '\n' := by decide
  have hpeek := peek?_eq h
  rcases utf8_cons_cases c cs with ⟨hc, hbytes⟩ | ⟨hc, b, bs, hbytes, -, hb, -⟩
  · rw [hbytes] at hpeek
    exact ⟨_, hpeek, beq_toUInt8 hc hline, Text.asciiClass_toUInt8 _ hc⟩
  · have hne : c ≠ '\n' := fun h => hc (h ▸ hline)
    have hblank : Text.isAsciiBlank c = false :=
      Bool.eq_false_iff.mpr fun h => hc (inAscii_isAsciiBlank c h)
    rw [hbytes] at hpeek
    refine ⟨b, hpeek, ?_, ?_⟩
    · rw [beq_of_isHigh hb hline, beq_eq_false_iff_ne.mpr hne]
    · rw [Text.asciiClass_isHigh _ hb, hblank]

/-- A round that finds a blank, or the end of a line. -/
theorem round_of_blank (language : Language) {c : Char} {cs : List Char}
    (h : At code pos before (c :: cs)) (hc : Text.isAsciiBlank c = true) (lineStart : Bool)
    (tokens : List Token) :
    round language code ⟨pos, lineStart, tokens⟩ =
      .goesOn ⟨pos + c.utf8Size, lineStart || c == '\n', tokens⟩ := by
  obtain ⟨b, hp, hline, hblank⟩ := exists_peek? h
  rw [round, hp]
  dsimp only
  rw [hline, hblank, if_pos hc, Text.utf8Size_ascii (inAscii_isAsciiBlank c hc)]
  cases c == '\n' with
  | true => rw [if_pos rfl, Bool.or_true]
  | false => rw [if_neg Bool.false_ne_true, Bool.or_false]

/-- A round that looks for a word. -/
theorem round_of_not_blank (hl : language.Ascii) {c : Char} {cs : List Char}
    (h : At code pos before (c :: cs)) (hc : ¬ Text.isAsciiBlank c = true) (lineStart : Bool)
    (tokens : List Token) :
    round language code ⟨pos, lineStart, tokens⟩ =
      match Lexer.find? language before.reverse lineStart (c :: cs) with
      | none => .goesOn ⟨pos + 1, false, tokens⟩
      | some found => .goesOn ⟨(stopAt pos (c :: cs) found).1, false,
          tokens ++ [⟨pos, (stopAt pos (c :: cs) found).1, found.category⟩]⟩ := by
  obtain ⟨b, hp, hline, hblank⟩ := exists_peek? h
  have hne : ¬ (c == '\n') = true := by
    intro hn
    rw [beq_iff_eq.mp hn] at hc
    exact hc (by decide)
  rw [round, hp]
  dsimp only
  rw [hline, if_neg hne, hblank, if_neg hc, find?_eq hl h]
  cases Lexer.find? language before.reverse lineStart (c :: cs) <;> rfl

/-- The loop passes the bytes of a character outside ASCII one by one. -/
theorem Ends.of_append (hl : language.Ascii) {bs r : List UInt8} (hb : ∀ b ∈ bs, IsHigh b)
    (hd : (utf8 code).drop pos = bs ++ r) {tokens : List Token}
    {answer : Except Fault (List Token)}
    (h : Ends language code ⟨pos + bs.length, false, tokens⟩ answer) :
    Ends language code ⟨pos, false, tokens⟩ answer := by
  induction bs generalizing pos with
  | nil => exact h
  | cons b bs ih =>
    obtain ⟨hb, hbs⟩ := List.forall_mem_cons.mp hb
    have hp : peek? code pos = some b := by
      rw [peek?, ← List.head?_drop, hd]
      rfl
    have hd' : (utf8 code).drop (pos + 1) = bs ++ r := by
      rw [← List.drop_drop, hd]
      rfl
    have hround : round language code ⟨pos, false, tokens⟩ =
        .goesOn ⟨pos + 1, false, tokens⟩ := by
      rw [round, hp]
      dsimp only
      rw [beq_of_isHigh hb (by decide), Text.asciiClass_isHigh _ hb, find?_isHigh hp hb hl]
      rfl
    refine .goesOn hround (ih hbs hd' ?_)
    rwa [List.length_cons, Nat.add_comm bs.length, ← Nat.add_assoc] at h

/-- Where no rule applies, the loop passes one character. -/
theorem Ends.of_none (hl : language.Ascii) {c : Char} {cs : List Char}
    (h : At code pos before (c :: cs)) (hc : ¬ Text.isAsciiBlank c = true) {lineStart : Bool}
    (hnone : Lexer.find? language before.reverse lineStart (c :: cs) = none)
    {tokens : List Token} {answer : Except Fault (List Token)}
    (he : Ends language code ⟨pos + c.utf8Size, false, tokens⟩ answer) :
    Ends language code ⟨pos, lineStart, tokens⟩ answer := by
  have hround := round_of_not_blank hl h hc lineStart tokens
  rw [hnone] at hround
  refine .goesOn hround ?_
  rcases utf8_cons_cases c cs with ⟨ha, -⟩ | ⟨-, b, bs, hbytes, hlen, -, hbs⟩
  · rwa [Text.utf8Size_ascii ha] at he
  · have hd : (utf8 code).drop (pos + 1) = bs ++ utf8 cs := by
      rw [← List.drop_drop, h.drop, hbytes]
      rfl
    refine .of_append hl hbs hd ?_
    rwa [← hlen, Nat.add_comm bs.length, ← Nat.add_assoc] at he

theorem tokensFrom_cons_none (pos : Nat) (c : Char) (ls : List Lexeme) :
    Lexer.tokensFrom pos (⟨[c], none⟩ :: ls) = Lexer.tokensFrom (pos + c.utf8Size) ls := rfl

/-- **The loop ends** without a fault, from any place between two characters, and finds the tokens
of the lexer. -/
theorem ends_tokensFrom (hl : language.Ascii) (before : List Char) (lineStart : Bool)
    (rest : List Char) (h : At code pos before.reverse rest) (tokens : List Token) :
    Ends language code ⟨pos, lineStart, tokens⟩
      (.ok (tokens ++
        Lexer.tokensFrom pos (Lexer.lexemes language before lineStart rest))) := by
  fun_induction Lexer.lexemes language before lineStart rest generalizing pos tokens with
  | case1 before lineStart =>
    refine .finished ?_
    rw [round, peek?_eq h]
    simp [Lexer.tokensFrom, utf8]
  | case2 before lineStart c cs hc ih =>
    have hblank : Text.isAsciiBlank c = true := by
      rw [beq_iff_eq.mp hc]
      decide
    have hround := round_of_blank language h hblank lineStart tokens
    rw [hc, Bool.or_true] at hround
    rw [tokensFrom_cons_none]
    exact .goesOn hround (ih h.pass_reverse tokens)
  | case3 before lineStart c cs hc hblank ih =>
    have hround := round_of_blank language h hblank lineStart tokens
    rw [Bool.eq_false_iff.mpr hc, Bool.or_false] at hround
    rw [tokensFrom_cons_none]
    exact .goesOn hround (ih h.pass_reverse tokens)
  | case4 before lineStart c cs hc hblank hnone ih =>
    rw [← List.reverse_reverse before] at hnone
    rw [tokensFrom_cons_none]
    exact .of_none hl h hblank hnone (ih h.pass_reverse tokens)
  | case5 before lineStart c cs hc hblank found hfound text =>
    rename_i ih
    have hround := round_of_not_blank hl h hblank lineStart tokens
    rw [List.reverse_reverse, hfound] at hround
    -- the rule takes `n + 1` characters, so the scanner has moved on
    have hpos := Lexer.find?_pos hl (fun hn => hc (beq_iff_eq.mpr hn)) hfound
    obtain ⟨n, hn⟩ : ∃ n, found.length = n + 1 := Nat.exists_eq_add_one.mpr hpos
    have hlen : found.length - 1 = n := by omega
    have ht := h.take found.length
    rw [hn, List.take_succ_cons, List.drop_succ_cons, ← List.reverse_reverse (c :: cs.take n),
      ← List.reverse_append, List.reverse_reverse] at ht
    dsimp only [stopAt] at hround
    rw [hn, List.take_succ_cons] at hround
    simp only [text, hlen] at ih ⊢
    refine .goesOn hround ?_
    have he := ih ht (tokens ++ [⟨pos, pos + byteLength (c :: cs.take n), found.category⟩])
    rwa [List.append_assoc, List.singleton_append] at he

/-- A scan ends with the tokens of the lexer, and with nothing else. -/
theorem scans_iff (code : String) (tag : Option String) (answer : Except Fault (List Token)) :
    Scans code tag answer ↔ answer = .ok (Highlighter.lexical.tokenize code tag) := by
  unfold Scans Highlighter.lexical
  dsimp only
  cases htag : tag.bind Language.find? with
  | none => exact Iff.rfl
  | some language =>
    obtain ⟨name, -, hname⟩ := Option.bind_eq_some_iff.mp htag
    have hends : Ends language code.toList {} (.ok (Lexer.tokenize language code)) :=
      ends_tokensFrom (Language.ascii_of_find? hname) [] true code.toList (.start _) []
    exact ⟨fun h => h.unique hends, fun h => h ▸ hends⟩

end Scanner

/-! ## Tokens of lexemes -/

namespace Lexer

theorem lexemes_ne_nil (language : Language) (before : List Char) (lineStart : Bool)
    (rest : List Char) : ∀ l ∈ lexemes language before lineStart rest, l.text ≠ [] := by
  fun_induction lexemes language before lineStart rest with
  | case1 => exact fun _ h => absurd h List.not_mem_nil
  | case2 _ _ _ _ _ ih => exact List.forall_mem_cons.mpr ⟨List.cons_ne_nil _ _, ih⟩
  | case3 _ _ _ _ _ _ ih => exact List.forall_mem_cons.mpr ⟨List.cons_ne_nil _ _, ih⟩
  | case4 _ _ _ _ _ _ _ ih => exact List.forall_mem_cons.mpr ⟨List.cons_ne_nil _ _, ih⟩
  | case5 _ _ _ _ _ _ _ _ _ ih => exact List.forall_mem_cons.mpr ⟨List.cons_ne_nil _ _, ih⟩

/-- A piece of the code is between characters. -/
theorem fits_of_at {code before a b : List Char} {pos : Nat} {category : Category}
    (h : Scanner.At code pos before (a ++ b)) :
    Token.Fits code ⟨pos, pos + byteLength a, category⟩ := by
  have hstart : Text.isBoundary pos code = true := by
    rw [h.code, h.pos]
    exact Text.isBoundary_byteLength _ _
  have hstop : Text.isBoundary (pos + byteLength a) code = true := by
    rw [h.advance.code, h.advance.pos]
    exact Text.isBoundary_byteLength _ _
  exact ⟨Nat.le_add_right _ _, h.advance.le, hstart, hstop⟩

/-- Tokens of lexemes that make up the code from a position on. -/
theorem tokensFrom_fits {code : List Char} (ls : List Lexeme) (hne : ∀ l ∈ ls, l.text ≠ [])
    {pos : Nat} {before : List Char} (h : Scanner.At code pos before (ls.flatMap Lexeme.text)) :
    (∀ t ∈ tokensFrom pos ls, pos ≤ t.start ∧ t.start < t.stop ∧ t.Fits code) ∧
      Token.Apart (tokensFrom pos ls) := by
  induction ls generalizing pos before with
  | nil => exact ⟨fun _ h => absurd h List.not_mem_nil, List.Pairwise.nil⟩
  | cons l ls ih =>
    obtain ⟨hl, hls⟩ := List.forall_mem_cons.mp hne
    rw [List.flatMap_cons] at h
    have ha := h.advance
    have hpos := Text.byteLength_pos hl
    obtain ⟨hfits, hapart⟩ := ih hls ha
    have hlate : ∀ t ∈ tokensFrom (pos + byteLength l.text) ls,
        pos + byteLength l.text ≤ t.start := fun t ht => (hfits t ht).1
    have hafter : ∀ t ∈ tokensFrom (pos + byteLength l.text) ls,
        pos ≤ t.start ∧ t.start < t.stop ∧ t.Fits code := fun t ht =>
      ⟨by have := hlate t ht; omega, (hfits t ht).2⟩
    rw [tokensFrom]
    cases l.category with
    | none => exact ⟨hafter, hapart⟩
    | some category =>
      refine ⟨List.forall_mem_cons.mpr ⟨⟨Nat.le_refl _, ?_, ?_⟩, hafter⟩,
        (Token.apart_cons _ _).mpr ⟨hlate, hapart⟩⟩
      · exact Nat.lt_add_of_pos_right hpos
      · exact fits_of_at h

/-- The tokens of a code text are not empty, fit and are apart. -/
theorem lexical_fits (code : String) (tag : Option String) :
    (∀ t ∈ Highlighter.lexical.tokenize code tag, t.start < t.stop ∧ t.Fits code.toList) ∧
      Token.Apart (Highlighter.lexical.tokenize code tag) := by
  unfold Highlighter.lexical
  dsimp only
  cases tag.bind Language.find? with
  | none => exact ⟨fun _ h => absurd h List.not_mem_nil, List.Pairwise.nil⟩
  | some language =>
    have hcode := lexemes_flatten language [] true code.toList
    have h : Scanner.At code.toList 0 []
        ((lexemes language [] true code.toList).flatMap Lexeme.text) := by
      rw [hcode]
      exact .start _
    obtain ⟨hfits, hapart⟩ := tokensFrom_fits _ (lexemes_ne_nil language [] true code.toList) h
    exact ⟨fun t ht => (hfits t ht).2, hapart⟩

end Lexer

/-! ## Safety -/

/-- **Scanning is safe.** For any code text and any language tag a scan ends, and never by a slice
that fails or a bracket that is not open. Its tokens are those of the lexer; they are not empty,
they lie in the code between characters, and each ends before the next one starts. So checking them
finds no fault, and their segments make up the code. -/
theorem scan_safe (code : String) (tag : Option String) :
    ∃ tokens, (∀ answer, Scanner.Scans code tag answer ↔ answer = .ok tokens) ∧
      tokens = Highlighter.lexical.tokenize code tag ∧
      (∀ t ∈ tokens, t.start < t.stop ∧ t.Fits code.toList) ∧ Token.Apart tokens ∧
      Token.check code tokens = .ok () ∧
      String.join ((segments code tokens).map (·.text)) = code := by
  obtain ⟨hfits, hapart⟩ := Lexer.lexical_fits code tag
  refine ⟨_, Scanner.scans_iff code tag, rfl, hfits, hapart, ?_, join_segments code _⟩
  exact (Token.check_eq_ok_iff code _).mpr ⟨fun t ht => (hfits t ht).2, hapart⟩

end RichMarkdown
