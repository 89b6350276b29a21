import RichMarkdown.Proofs.Highlight.Views

/-!
# The scanner and the lexer agree

Between two characters each rule of the scanner answers as the rule of the lexer does, and takes no
slice that fails (`find?_eq`). In the middle of a character no rule applies (`find?_isHigh`), so the
scanner leaves the character byte by byte and stands between characters again before the next word.
Both hold for languages that are written in ASCII, as all that the lexer knows are
(`ascii_of_find?`).
-/

set_option autoImplicit false

namespace RichMarkdown

namespace Language

open Text (AllAscii)

/-- A language whose marks and characters are of ASCII. -/
structure Ascii (language : Language) : Prop where
  lineComments : ∀ mark ∈ language.lineComments, mark.toList ≠ [] ∧ AllAscii mark.toList
  blockComment : ∀ marks ∈ language.blockComment,
    (marks.1.toList ≠ [] ∧ AllAscii marks.1.toList) ∧ AllAscii marks.2.toList
  quotes : AllAscii language.quotes
  sigil : AllAscii language.sigil.toList
  keySeparator : AllAscii language.keySeparator.toList
  wordChars : AllAscii language.wordChars

theorem ascii_of_mem_all {language : Language} (h : language ∈ all) : language.Ascii := by
  simp only [all, List.mem_cons, List.not_mem_nil, or_false] at h
  rcases h with rfl | rfl | rfl | rfl | rfl | rfl | rfl | rfl | rfl | rfl <;>
    exact ⟨by decide, by decide, by decide, by decide, by decide, by decide⟩

theorem ascii_of_find? {tag : String} {language : Language} (h : find? tag = some language) :
    language.Ascii :=
  ascii_of_mem_all (List.mem_of_find?_eq_some h)

end Language

namespace Scanner

open Text (utf8 asciiClass byteLength IsAscii AllAscii IsHigh InAscii beq_toUInt8 beq_of_isHigh)

/-- Where a rule of the lexer stops when it is applied at a position. -/
def stopAt (pos : Nat) (rest : List Char) (found : Lexer.Found) : Stop :=
  (pos + byteLength (rest.take found.length), found.category)

theorem ok_bind {α β : Type} (a : α) (f : α → Except Fault β) : (Except.ok a >>= f) = f a := rfl

theorem anyM_eq {α : Type} {xs : List α} {f : α → Except Fault Bool} {g : α → Bool}
    (h : ∀ x ∈ xs, f x = .ok (g x)) : xs.anyM f = .ok (xs.any g) := by
  induction xs with
  | nil => rfl
  | cons x xs ih =>
    obtain ⟨hx, hxs⟩ := List.forall_mem_cons.mp h
    rw [List.anyM, hx, ok_bind, List.any_cons]
    cases g x with
    | true => rfl
    | false => exact ih hxs

/-- A rule that takes the text `a` and goes on behind it. -/
theorem stopAt_append (pos : Nat) (a b : List Char) (n : Nat) (category : Category) :
    stopAt pos (a ++ b) ⟨a.length + n, category⟩ =
      (pos + byteLength a + byteLength (b.take n), category) := by
  rw [stopAt, List.take_length_add_append, Text.byteLength_append, Nat.add_assoc]

theorem stopAt_cons (pos : Nat) {c : Char} (hc : IsAscii c) (cs : List Char) (n : Nat)
    (category : Category) :
    stopAt pos (c :: cs) ⟨1 + n, category⟩ = (pos + 1 + byteLength (cs.take n), category) := by
  have h := stopAt_append pos [c] cs n category
  rwa [byteLength, byteLength, Text.utf8Size_ascii hc] at h

variable {language : Language} {code before rest : List Char} {pos : Nat}

/-! ## Between characters -/

theorem comment?_eq (hl : language.Ascii) (h : At code pos before rest) :
    comment? language code pos = .ok ((Lexer.comment? language rest).map (stopAt pos rest)) := by
  have hlines := anyM_eq fun mark hm => startsWith_eq h (hl.lineComments mark hm).2
  rw [comment?, hlines, ok_bind, Lexer.comment?]
  split
  · rw [lineEnd_eq h]
    rfl
  · cases hb : language.blockComment with
    | none => rfl
    | some marks =>
      obtain ⟨opener, closer⟩ := marks
      obtain ⟨ho, -⟩ := hl.blockComment _ hb
      dsimp only
      rw [startsWith_eq h ho.2, ok_bind]
      split
      · rename_i hpre
        obtain ⟨tail, rfl⟩ := List.isPrefixOf_iff_prefix.mp hpre
        rw [stopAfter_eq h.advance, Option.map_some, stopAt_append, List.drop_left]
        rfl
      · rfl

/-! ### Attributes -/

theorem lexer_decorator (hf : language.attributes = .decorator) (lineStart : Bool)
    (rest : List Char) :
    Lexer.attribute? language lineStart rest =
      if rest.head? == some '@' && rest.tail.head?.any Lexer.isWordStart then
        some ⟨1 + Lexer.runLength (fun d => Lexer.isWordPart d || d == '.') rest.tail, .attrName⟩
      else none := by
  unfold Lexer.attribute?
  rw [hf]
  rcases rest with _ | ⟨c, _ | ⟨d, ds⟩⟩
  · rfl
  · by_cases hc : c = '@' <;> simp [hc]
  · by_cases hc : c = '@' <;> simp [hc]

theorem lexer_brackets (hf : language.attributes = .brackets) (lineStart : Bool)
    (rest : List Char) :
    Lexer.attribute? language lineStart rest =
      if ['#', '['].isPrefixOf rest then
        some ⟨1 + Lexer.bracketLength 0 (rest.drop 1), .attrName⟩
      else if ['#', '!', '['].isPrefixOf rest then
        some ⟨2 + Lexer.bracketLength 0 (rest.drop 2), .attrName⟩
      else none := by
  unfold Lexer.attribute?
  rw [hf]
  rcases rest with _ | ⟨c, _ | ⟨d, ds⟩⟩
  · rfl
  · by_cases hc : c = '#' <;> simp [hc, List.isPrefixOf]
  · -- the marks differ in their second character
    by_cases hc : c = '#'
    · by_cases hd : d = '['
      · simp [hc, hd, List.isPrefixOf]
      · have hd' : ¬ '[' = d := fun h => hd h.symm
        rcases ds with _ | ⟨e, es⟩
        · simp [hc, hd, hd', List.isPrefixOf]
        · by_cases hb : d = '!'
          · by_cases he : e = '['
            · simp [hc, hb, he, List.isPrefixOf]
            · have he' : ¬ '[' = e := fun h => he h.symm
              simp [hc, hb, he, he', List.isPrefixOf]
          · have hb' : ¬ '!' = d := fun h => hb h.symm
            simp [hc, hd, hd', hb, hb', List.isPrefixOf]
    · have hc' : ¬ '#' = c := fun h => hc h.symm
      simp [hc, hc', List.isPrefixOf]

theorem lexer_directive (hf : language.attributes = .directive) (lineStart : Bool)
    (rest : List Char) :
    Lexer.attribute? language lineStart rest =
      if rest.head? == some '#' && lineStart then
        some ⟨1 + Lexer.runLength Lexer.isInlineBlank rest.tail +
          Lexer.runLength Lexer.isWordPart
            (rest.tail.drop (Lexer.runLength Lexer.isInlineBlank rest.tail)), .attrName⟩
      else none := by
  unfold Lexer.attribute?
  rw [hf]
  rcases rest with _ | ⟨c, cs⟩
  · rfl
  · by_cases hc : c = '#' <;> simp [hc]

theorem closeBracket_other {c : Char} (hc : IsAscii c) (ho : c ≠ '[') (hs : c ≠ ']')
    (cs : List Char) (depth pos : Nat) :
    closeBracket depth pos (utf8 (c :: cs)) = closeBracket depth (pos + 1) (utf8 cs) := by
  rw [Text.utf8_cons_ascii hc, closeBracket, beq_toUInt8 hc (by decide),
    beq_toUInt8 hc (by decide), beq_eq_false_iff_ne.mpr ho, beq_eq_false_iff_ne.mpr hs]
  rfl

/-- The first bracket after the mark of an attribute is open before any bracket is closed. -/
theorem closeBracket_open (cs : List Char) (pos : Nat) :
    closeBracket 0 pos (utf8 ('[' :: cs)) =
      .ok (pos + byteLength (('[' :: cs).take (Lexer.bracketLength 0 ('[' :: cs)))) := by
  have hopen : IsAscii '[' := by decide
  rw [Text.utf8_cons_ascii hopen, closeBracket, if_pos (beq_self_eq_true _),
    closeBracket_eq cs Nat.one_pos, Lexer.bracketLength, if_pos (beq_self_eq_true _),
    List.take_succ_cons, byteLength, Text.utf8Size_ascii hopen, Nat.add_assoc]

theorem attribute?_eq (h : At code pos before rest) (lineStart : Bool) :
    attribute? language code lineStart pos =
      .ok ((Lexer.attribute? language lineStart rest).map (stopAt pos rest)) := by
  unfold attribute?
  cases hf : language.attributes with
  | absent =>
    unfold Lexer.attribute?
    rw [hf]
    rfl
  | decorator =>
    dsimp only
    rw [lexer_decorator hf, peek?_eq h, Text.head?_beq_utf8 (by decide)]
    rcases rest with _ | ⟨c, cs⟩
    · rfl
    by_cases hc : c = '@'
    · subst hc
      have hn := h.next (by decide)
      rw [peek?_eq hn, Text.head?_any_utf8 inAscii_isWordStart, List.head?_cons, List.tail_cons,
        skipWhile_eq hn (inAscii_isWordPart.or (Text.inAscii_beq (by decide))),
        beq_self_eq_true, Bool.true_and]
      cases cs.head?.any Lexer.isWordStart with
      | true => rw [if_pos rfl, if_pos rfl, Option.map_some, stopAt_cons pos (by decide)]
      | false => rfl
    · have hne : ((c :: cs).head? == some '@') = false := by simp [hc]
      rw [hne, Bool.false_and, Bool.false_and]
      rfl
  | brackets =>
    dsimp only
    rw [lexer_brackets hf, startsWith_eq h (by decide), startsWith_eq h (by decide), ok_bind,
      ok_bind, bytesFrom_eq h, ok_bind]
    by_cases hb : ['#', '['].isPrefixOf rest = true
    · obtain ⟨cs, rfl⟩ := List.isPrefixOf_iff_prefix.mp hb
      rw [hb, Bool.true_or, if_pos rfl, if_pos rfl, Option.map_some]
      dsimp only [List.cons_append, List.nil_append, List.drop_succ_cons, List.drop_zero]
      rw [closeBracket_other (by decide) (by decide) (by decide), closeBracket_open,
        stopAt_cons pos (by decide)]
      rfl
    · rw [if_neg hb, Bool.eq_false_iff.mpr hb, Bool.false_or]
      by_cases hi : ['#', '!', '['].isPrefixOf rest = true
      · obtain ⟨cs, rfl⟩ := List.isPrefixOf_iff_prefix.mp hi
        have hs := stopAt_append pos ['#', '!'] ('[' :: cs)
          (Lexer.bracketLength 0 ('[' :: cs)) .attrName
        rw [show byteLength ['#', '!'] = 1 + 1 by decide, ← Nat.add_assoc pos] at hs
        rw [if_pos hi, if_pos hi, Option.map_some]
        dsimp only [List.cons_append, List.nil_append, List.drop_succ_cons, List.drop_zero]
        rw [closeBracket_other (by decide) (by decide) (by decide),
          closeBracket_other (by decide) (by decide) (by decide), closeBracket_open, ok_bind]
        exact congrArg (fun stop => Except.ok (some stop)) hs.symm
      · rw [if_neg hi, if_neg hi]
        rfl
  | directive =>
    dsimp only
    rw [lexer_directive hf, peek?_eq h, Text.head?_beq_utf8 (by decide)]
    rcases rest with _ | ⟨c, cs⟩
    · rfl
    by_cases hc : c = '#'
    · subst hc
      have hn := h.next (by decide)
      rw [skipWhile_eq hn inAscii_isInlineBlank, skipWhile_eq (hn.take _) inAscii_isWordPart,
        List.head?_cons, List.tail_cons, beq_self_eq_true, Bool.true_and]
      cases lineStart with
      | true =>
        rw [if_pos rfl, if_pos rfl, Option.map_some, Nat.add_assoc 1, stopAt_cons pos (by decide),
          List.take_add, Text.byteLength_append, ← Nat.add_assoc (pos + 1)]
      | false => rfl
    · have hne : ((c :: cs).head? == some '#') = false := by simp [hc]
      rw [hne, Bool.false_and]
      rfl

/-! ### Strings, numbers and variables -/

theorem contains_map_toUInt8 {cs : List Char} (hcs : AllAscii cs) {c : Char}
    (hc : IsAscii c) : (cs.map Char.toUInt8).contains c.toUInt8 = cs.contains c := by
  induction cs with
  | nil => rfl
  | cons d ds ih =>
    obtain ⟨hd, hds⟩ := List.forall_mem_cons.mp hcs
    rw [List.map_cons, List.contains_cons, List.contains_cons, beq_toUInt8 hc hd, ih hds]

theorem contains_map_isHigh {cs : List Char} (hcs : AllAscii cs) {b : UInt8}
    (hb : IsHigh b) : (cs.map Char.toUInt8).contains b = false := by
  rw [Bool.eq_false_iff]
  intro h
  obtain ⟨c, hc, rfl⟩ := List.mem_map.mp (List.contains_iff_mem.mp h)
  exact Text.ne_of_isHigh hb (hcs c hc) rfl

/-- The number of characters of a string with its quotes. -/
def stringLength (language : Language) (quote : Char) (cs : List Char) : Nat :=
  if language.tripleQuotes && [quote, quote, quote].isPrefixOf (quote :: cs) then
    3 + Lexer.lengthThrough [quote, quote, quote] (cs.drop 2)
  else 1 + Lexer.quotedLength quote cs

theorem stringStop_eq {quote : Char} (hq : IsAscii quote) {cs : List Char}
    (h : At code pos before (quote :: cs)) :
    stringStop language code quote.toUInt8 pos =
      .ok (pos + byteLength ((quote :: cs).take (stringLength language quote cs))) := by
  have hbytes : utf8 [quote, quote, quote] = [quote.toUInt8, quote.toUInt8, quote.toUInt8] := by
    rw [Text.utf8_cons_ascii hq, Text.utf8_cons_ascii hq, Text.utf8_cons_ascii hq]
    rfl
  have hascii : AllAscii [quote, quote, quote] := by simpa [AllAscii] using hq
  have hpre := Text.isPrefixOf_utf8 hascii (quote :: cs)
  rw [stringStop, bytesFrom_eq h, ok_bind, ← hbytes, hpre, stringLength]
  by_cases hf : (language.tripleQuotes && [quote, quote, quote].isPrefixOf (quote :: cs)) = true
  · obtain ⟨ds, hds⟩ := List.isPrefixOf_iff_prefix.mp (Bool.and_eq_true_iff.mp hf).2
    obtain rfl : quote :: quote :: ds = cs := (List.cons.inj hds).2
    have ha : At code pos before ([quote, quote, quote] ++ ds) := h
    have hlen : byteLength [quote, quote, quote] = 3 := by
      simp [byteLength, Text.utf8Size_ascii hq]
    have hstop := congrArg Prod.fst (stopAt_append pos [quote, quote, quote] ds
      (Lexer.lengthThrough [quote, quote, quote] ds) .string)
    have htext := textBetween_eq ha
    have hafter := stopAfter_eq ha.advance [quote, quote, quote]
    rw [hlen] at hstop htext hafter
    rw [if_pos hf, if_pos hf, htext, ok_bind, hafter]
    exact congrArg Except.ok hstop.symm
  · have hn := h.next hq
    rw [if_neg hf, if_neg hf, hn.drop, closeQuote_eq hq]
    exact congrArg Except.ok (congrArg Prod.fst (stopAt_cons pos hq cs _ .string)).symm

theorem string?_eq (hl : language.Ascii) (h : At code pos before rest) :
    string? language code pos = .ok ((Lexer.string? language rest).map (stopAt pos rest)) := by
  unfold string?
  rw [peek?_eq h]
  rcases rest with _ | ⟨c, cs⟩
  · rfl
  rcases utf8_cons_cases c cs with ⟨hc, hbytes⟩ | ⟨hc, b, bs, hbytes, -, hb, -⟩
  · rw [hbytes, Lexer.string?]
    dsimp only [List.head?_cons]
    rw [contains_map_toUInt8 hl.quotes hc]
    split
    · rw [stringStop_eq hc h, ok_bind, isKeyBefore_eq (h.take _) hl.keySeparator, ok_bind]
      rfl
    · rfl
  · have hq : language.quotes.contains c = false := by
      rw [Bool.eq_false_iff]
      exact fun h => hc (hl.quotes c (List.contains_iff_mem.mp h))
    rw [hbytes, Lexer.string?, hq]
    dsimp only [List.head?_cons]
    rw [contains_map_isHigh hl.quotes hb]
    rfl

theorem peek?_any (h : At code pos before rest) {p : Char → Bool} (hp : InAscii p) :
    (peek? code pos).any (asciiClass p) = rest.head?.any p := by
  rw [peek?_eq h, Text.head?_any_utf8 hp]

theorem number?_eq (h : At code pos before rest) :
    number? code pos = .ok ((Lexer.number? rest).map (stopAt pos rest)) := by
  rw [number?, peek?_any h inAscii_isDigit]
  rcases rest with _ | ⟨c, cs⟩
  · rfl
  · rw [h.drop, numberStop_eq, Lexer.number?, List.head?_cons, Option.any_some]
    split
    · rfl
    · rfl

theorem braceStop_eq {cs : List Char} (h : At code pos before ('\x7b' :: cs)) :
    braceStop code pos =
      pos + byteLength (('\x7b' :: cs).take (Lexer.variableLength ('\x7b' :: cs))) := by
  rw [braceStop, findFrom?_eq h, Lexer.variableLength, if_pos (beq_self_eq_true _)]
  cases hn : Text.indexOf? ['\x7d'] ('\x7b' :: cs) with
  | none => exact lineEnd_eq h
  | some n =>
    obtain ⟨a, b, hab, rfl⟩ := Text.exists_of_indexOf? hn
    have hbrace : byteLength ['\x7d'] = 1 := by decide
    dsimp only [Option.map_some]
    rw [hab, List.take_left, List.take_length_add_append, Text.byteLength_append,
      List.singleton_append, List.take_succ_cons, List.take_zero, hbrace, Nat.add_assoc]

theorem variableStop_eq (h : At code pos before rest) :
    variableStop code pos = pos + byteLength (rest.take (Lexer.variableLength rest)) := by
  have hsymbol : InAscii fun c => c.isDigit || "#?@*!$-".toList.contains c :=
    inAscii_isDigit.or (Text.inAscii_contains (by decide))
  unfold variableStop
  rw [peek?_eq h, skipWhile_eq h inAscii_isWordPart]
  rcases rest with _ | ⟨c, cs⟩
  · rfl
  by_cases hb : c = '\x7b'
  · subst hb
    rw [braceStop_eq h, Text.utf8_cons_ascii (by decide), List.head?_cons]
    rfl
  have hbrace : (c == '\x7b') = false := beq_eq_false_iff_ne.mpr hb
  rw [Lexer.variableLength, hbrace]
  rcases utf8_cons_cases c cs with ⟨hc, hbytes⟩ | ⟨hc, b, bs, hbytes, -, hb, -⟩
  · rw [hbytes]
    dsimp only [List.head?_cons]
    rw [beq_toUInt8 hc (by decide), hbrace, Text.asciiClass_toUInt8 _ hc,
      Text.asciiClass_toUInt8 _ hc]
    simp only [Bool.false_eq_true, if_false]
    cases Lexer.isWordStart c with
    | true => rfl
    | false =>
      simp only [Bool.false_eq_true, if_false, Bool.or_eq_true]
      split
      · rw [List.take_succ_cons, byteLength, Text.utf8Size_ascii hc]
        rfl
      · rfl
  · have hword : Lexer.isWordStart c = false :=
      Bool.eq_false_iff.mpr fun h => hc (inAscii_isWordStart c h)
    have hsym : (c.isDigit || "#?@*!$-".toList.contains c) = false :=
      Bool.eq_false_iff.mpr fun h => hc (hsymbol c h)
    obtain ⟨hdigit, hother⟩ := Bool.or_eq_false_iff.mp hsym
    rw [hbytes]
    dsimp only [List.head?_cons]
    rw [beq_of_isHigh hb (by decide), Text.asciiClass_isHigh _ hb, Text.asciiClass_isHigh _ hb,
      hword]
    simp only [Bool.false_eq_true, if_false, hdigit, hother]
    rfl

theorem variableName?_eq (hl : language.Ascii) (h : At code pos before rest) :
    variableName? language code pos =
      .ok ((Lexer.variableName? language rest).map (stopAt pos rest)) := by
  unfold variableName?
  cases hs : language.sigil with
  | none =>
    rcases rest with _ | ⟨c, cs⟩
    · rfl
    · simp [Lexer.variableName?, hs]
  | some sigil =>
    have ha : IsAscii sigil := hl.sigil sigil (by simp [hs])
    dsimp only
    rw [peek?_eq h, Text.head?_beq_utf8 ha]
    rcases rest with _ | ⟨c, cs⟩
    · rfl
    · rw [Lexer.variableName?, hs, List.head?_cons]
      by_cases hc : c = sigil
      · subst hc
        rw [beq_self_eq_true, if_pos rfl, if_pos rfl, variableStop_eq (h.next ha), Option.map_some,
          stopAt_cons pos ha]
      · have hne : ¬ some sigil = some c := fun h => hc (Option.some.inj h).symm
        have hbeq : (some c == some sigil) = false := by simp [hc]
        rw [hbeq, if_neg hne]
        rfl

/-! ### Words, operators and punctuation -/

theorem inAscii_isCallBracket : InAscii Lexer.isCallBracket :=
  ((Text.inAscii_beq (by decide)).or (Text.inAscii_beq (by decide))).or
    (Text.inAscii_beq (by decide))

theorem isBangCall_eq (h : At code pos before rest) :
    (peek? code pos == some '!'.toUInt8 &&
      (peek? code (pos + 1)).any (asciiClass Lexer.isCallBracket)) = Lexer.isBangCall rest := by
  rw [peek?_eq h, Text.head?_beq_utf8 (by decide)]
  rcases rest with _ | ⟨c, cs⟩
  · rfl
  by_cases hc : c = '!'
  · subst hc
    rw [peek?_any (h.next (by decide)) inAscii_isCallBracket]
    cases cs <;> rfl
  · simp [Lexer.isBangCall, hc]

theorem exists_of_isBangCall {cs : List Char} (h : Lexer.isBangCall cs = true) :
    ∃ tail, cs = '!' :: tail := by
  unfold Lexer.isBangCall at h
  split at h
  · exact ⟨_, rfl⟩
  · cases h

theorem isWordPart_of_isWordStart {c : Char} (h : Lexer.isWordStart c = true) :
    Lexer.isWordPart c = true := by
  rw [Lexer.isWordPart, Char.isAlphanum, Bool.or_right_comm]
  exact Bool.or_eq_true_iff.mpr (.inl h)

/-- A word goes on from its first character, and is followed by the rest. -/
theorem exists_takeWhile {p : Char → Bool} {c : Char} (hc : p c = true) (cs : List Char) :
    ∃ w tail, (c :: cs).takeWhile p = c :: w ∧ c :: cs = c :: w ++ tail := by
  refine ⟨cs.takeWhile p, cs.dropWhile p, List.takeWhile_cons_of_pos hc, ?_⟩
  rw [List.cons_append, List.takeWhile_append_dropWhile]

theorem isCapitalized_eq {c : Char} (hc : IsAscii c) (cs : List Char) (pos : Nat) :
    isCapitalized pos (c :: cs) = .ok c.isUpper := by
  rw [isCapitalized, Text.utf8_cons_ascii hc]
  dsimp only
  rw [Text.asciiClass_toUInt8 _ hc]

theorem word?_eq (hl : language.Ascii) (h : At code pos before rest) :
    word? language code pos =
      .ok ((Lexer.word? language before.reverse rest).map (stopAt pos rest)) := by
  have hwide : InAscii fun d => Lexer.isWordPart d || language.wordChars.contains d :=
    inAscii_isWordPart.or (Text.inAscii_contains hl.wordChars)
  unfold word?
  rw [peek?_any h inAscii_isWordStart]
  rcases rest with _ | ⟨c, cs⟩
  · rfl
  rw [Lexer.word?, List.head?_cons, Option.any_some]
  cases hs : Lexer.isWordStart c with
  | false => rfl
  | true =>
    have hc : IsAscii c := inAscii_isWordStart c hs
    rw [if_pos rfl, if_pos rfl, skipWhile_eq h hwide, take_runLength]
    have hpart : (Lexer.isWordPart c || language.wordChars.contains c) = true :=
      Bool.or_eq_true_iff.mpr (.inl (isWordPart_of_isWordStart hs))
    obtain ⟨w, tail, hw, htail⟩ := exists_takeWhile
      (p := fun d => Lexer.isWordPart d || language.wordChars.contains d) hpart cs
    rw [hw]
    rw [htail] at h ⊢
    have ha := h.advance
    have hstop (category : Category) : stopAt pos ((c :: w) ++ tail)
        ⟨(c :: w).length, category⟩ = (pos + byteLength (c :: w), category) :=
      stopAt_append pos (c :: w) tail 0 category
    dsimp only
    rw [textBetween_eq h, ok_bind, List.drop_left, nextSignificant?_eq ha, followsPoint_eq h,
      isCapitalized_eq hc, isKeyBefore_eq ha hl.keySeparator]
    simp only [ok_bind]
    rw [Text.head?_beq_utf8 (by decide), Bool.and_assoc]
    rw [isBangCall_eq ha, Lexer.nextSignificant?]
    -- both sides ask the same questions in the same order now
    split
    · exact congrArg (fun stop => Except.ok (some stop)) (hstop _).symm
    split
    · exact congrArg (fun stop => Except.ok (some stop)) (hstop _).symm
    split
    · rename_i hbang
      obtain ⟨ds, rfl⟩ := exists_of_isBangCall (Bool.and_eq_true_iff.mp hbang).2
      have hmark := stopAt_append pos (c :: w) ('!' :: ds) 1 .function
      rw [List.take_succ_cons, List.take_zero, show byteLength ['!'] = 1 by decide] at hmark
      exact congrArg (fun stop => Except.ok (some stop)) hmark.symm
    split
    · exact congrArg (fun stop => Except.ok (some stop)) (hstop _).symm
    split
    · exact congrArg (fun stop => Except.ok (some stop)) (hstop _).symm
    split
    · exact congrArg (fun stop => Except.ok (some stop)) (hstop _).symm
    · exact congrArg (fun stop => Except.ok (some stop)) (hstop _).symm

theorem operator?_eq (h : At code pos before rest) :
    operator? code pos = .ok ((Lexer.operator? rest).map (stopAt pos rest)) := by
  rw [operator?, peek?_any h inAscii_isOperator, skipWhile_eq h inAscii_isOperator]
  rcases rest with _ | ⟨c, cs⟩
  · rfl
  · rw [Lexer.operator?, List.head?_cons, Option.any_some]
    split <;> rfl

theorem punctuation?_eq (h : At code pos before rest) :
    punctuation? code pos = .ok ((Lexer.punctuation? rest).map (stopAt pos rest)) := by
  rw [punctuation?, peek?_any h inAscii_isPunctuation]
  rcases rest with _ | ⟨c, cs⟩
  · rfl
  · rw [Lexer.punctuation?, List.head?_cons, Option.any_some]
    cases hp : Lexer.isPunctuation c with
    | false => rfl
    | true =>
      have hc : IsAscii c := inAscii_isPunctuation c hp
      rw [if_pos rfl, if_pos rfl, Option.map_some, stopAt, List.take_succ_cons, byteLength,
        Text.utf8Size_ascii hc]
      rfl

theorem firstOf_cons (f : Lexer.Found → Stop) (o o' : Option Lexer.Found)
    {rules : List (Except Fault (Option Stop))} (h : firstOf rules = .ok (o'.map f)) :
    firstOf (.ok (o.map f) :: rules) = .ok ((o <|> o').map f) := by
  cases o with
  | none => exact h
  | some found => rfl

/-- **The rules agree** between two characters. -/
theorem find?_eq (hl : language.Ascii) (h : At code pos before rest) (lineStart : Bool) :
    find? language code lineStart pos =
      .ok ((Lexer.find? language before.reverse lineStart rest).map (stopAt pos rest)) := by
  have hlast : firstOf [.ok ((Lexer.punctuation? rest).map (stopAt pos rest))] =
      .ok ((Lexer.punctuation? rest).map (stopAt pos rest)) := by
    cases (Lexer.punctuation? rest).map (stopAt pos rest) <;> rfl
  rw [find?, comment?_eq hl h, attribute?_eq h, string?_eq hl h, number?_eq h,
    variableName?_eq hl h, word?_eq hl h, operator?_eq h, punctuation?_eq h]
  exact firstOf_cons _ _ _ <| firstOf_cons _ _ _ <| firstOf_cons _ _ _ <| firstOf_cons _ _ _ <|
    firstOf_cons _ _ _ <| firstOf_cons _ _ _ <| firstOf_cons _ _ _ hlast

/-! ## Inside characters -/

section

variable {b : UInt8} (hp : peek? code pos = some b) (hb : IsHigh b)
include hp hb

theorem startsWith_isHigh {mark : List Char} (hne : mark ≠ []) (hm : AllAscii mark) :
    startsWith code pos mark = .ok false := by
  obtain ⟨hlt, hget⟩ := List.getElem?_eq_some_iff.mp hp
  have hle : pos ≤ byteLength code := by
    rw [← Text.length_utf8]
    exact Nat.le_of_lt hlt
  obtain ⟨m, ms, rfl⟩ := List.exists_cons_of_ne_nil hne
  have hma : IsAscii m := hm m List.mem_cons_self
  rw [startsWith, bytesFrom, if_pos hle, ok_bind, List.drop_eq_getElem_cons hlt, hget,
    Text.utf8_cons_ascii hma, List.isPrefixOf,
    beq_eq_false_iff_ne.mpr (Text.ne_of_isHigh hb hma).symm]
  rfl

theorem comment?_isHigh (hl : language.Ascii) : comment? language code pos = .ok none := by
  have hlines : language.lineComments.anyM (startsWith code pos ·.toList) =
      .ok (language.lineComments.any fun _ => false) :=
    anyM_eq fun mark hm => startsWith_isHigh hp hb (hl.lineComments mark hm).1
      (hl.lineComments mark hm).2
  have hnone : (language.lineComments.any fun _ => false) = false := by simp
  rw [comment?, hlines, ok_bind, hnone, if_neg Bool.false_ne_true]
  cases hc : language.blockComment with
  | none => rfl
  | some marks =>
    obtain ⟨ho, -⟩ := hl.blockComment marks hc
    dsimp only
    rw [startsWith_isHigh hp hb ho.1 ho.2]
    rfl

theorem peek?_any_isHigh (p : Char → Bool) : (peek? code pos).any (asciiClass p) = false := by
  rw [hp]
  exact Text.asciiClass_isHigh p hb

theorem peek?_beq_isHigh {c : Char} (hc : IsAscii c) :
    (peek? code pos == some c.toUInt8) = false := by
  rw [hp]
  exact beq_of_isHigh hb hc

theorem attribute?_isHigh (lineStart : Bool) :
    attribute? language code lineStart pos = .ok none := by
  unfold attribute?
  cases language.attributes with
  | absent => rfl
  | decorator =>
    dsimp only
    rw [peek?_beq_isHigh hp hb (by decide)]
    rfl
  | brackets =>
    dsimp only
    rw [startsWith_isHigh hp hb (by decide) (by decide),
      startsWith_isHigh hp hb (by decide) (by decide)]
    rfl
  | directive =>
    dsimp only
    rw [peek?_beq_isHigh hp hb (by decide)]
    rfl

theorem string?_isHigh (hl : language.Ascii) : string? language code pos = .ok none := by
  unfold string?
  rw [hp]
  dsimp only
  rw [contains_map_isHigh hl.quotes hb]
  rfl

theorem variableName?_isHigh (hl : language.Ascii) :
    variableName? language code pos = .ok none := by
  unfold variableName?
  cases hs : language.sigil with
  | none => rfl
  | some sigil =>
    dsimp only
    rw [peek?_beq_isHigh hp hb (hl.sigil sigil (by simp [hs]))]
    rfl

/-- **No rule applies** to a byte outside ASCII, wherever in a character it stands. -/
theorem find?_isHigh (hl : language.Ascii) (lineStart : Bool) :
    find? language code lineStart pos = .ok none := by
  have hnone (p : Char → Bool) := peek?_any_isHigh hp hb p
  rw [find?, comment?_isHigh hp hb hl, attribute?_isHigh hp hb, string?_isHigh hp hb hl,
    variableName?_isHigh hp hb hl, number?, word?, operator?, punctuation?, hnone, hnone, hnone,
    hnone]
  rfl

end

end Scanner

end RichMarkdown
