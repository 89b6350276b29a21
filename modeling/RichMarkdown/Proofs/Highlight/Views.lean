import Mathlib.Data.List.TakeWhile
import RichMarkdown.Proofs.Highlight.Scanner

/-!
# What the scanner sees

A scanner that stands between two characters (`At`) sees in the bytes what the lexer sees in the
characters: no slice that it takes there fails, and a place that it finds in the code is again
between two characters. Loops over single bytes may pass through characters outside ASCII, whose
bytes mean nothing to them, and still stop between characters (`closeBracket_eq`, `closeQuote_eq`,
`numberStop_eq`).
-/

set_option autoImplicit false

namespace RichMarkdown.Scanner

open Text (utf8 asciiClass byteLength IsAscii IsHigh InAscii beq_toUInt8 beq_of_isHigh)

/-- A scanner at `pos` has the text `before` behind it and `rest` ahead of it. -/
structure At (code : List Char) (pos : Nat) (before rest : List Char) : Prop where
  code : code = before ++ rest
  pos : pos = byteLength before

variable {code before rest : List Char} {pos : Nat}

theorem At.start (code : List Char) : At code 0 [] code := ⟨rfl, rfl⟩

theorem At.advance {a b : List Char} (h : At code pos before (a ++ b)) :
    At code (pos + byteLength a) (before ++ a) b := by
  refine ⟨?_, ?_⟩
  · rw [h.code, List.append_assoc]
  · rw [h.pos, Text.byteLength_append]

/-- The place after some of the characters ahead. -/
theorem At.take (h : At code pos before rest) (n : Nat) :
    At code (pos + byteLength (rest.take n)) (before ++ rest.take n) (rest.drop n) := by
  rw [← List.take_append_drop n rest] at h
  exact h.advance

theorem At.pass {c : Char} (h : At code pos before (c :: rest)) :
    At code (pos + c.utf8Size) (before ++ [c]) rest :=
  At.advance (a := [c]) h

/-- The lexer keeps the text behind it from last to first. -/
theorem At.pass_reverse {c : Char} (h : At code pos before.reverse (c :: rest)) :
    At code (pos + c.utf8Size) (c :: before).reverse rest := by
  rw [List.reverse_cons]
  exact h.pass

/-- An ASCII character is passed by passing its byte. -/
theorem At.next {c : Char} (h : At code pos before (c :: rest)) (hc : IsAscii c) :
    At code (pos + 1) (before ++ [c]) rest := by
  have ha := h.pass
  rwa [Text.utf8Size_ascii hc] at ha

theorem At.byteLength_eq (h : At code pos before rest) :
    byteLength code = pos + byteLength rest := by
  rw [h.code, Text.byteLength_append, h.pos]

theorem At.le (h : At code pos before rest) : pos ≤ byteLength code := by
  rw [h.byteLength_eq]
  exact Nat.le_add_right _ _

theorem At.drop (h : At code pos before rest) : (utf8 code).drop pos = utf8 rest := by
  rw [h.code, h.pos, Text.drop_utf8]

/-! ## Slices -/

theorem peek?_eq (h : At code pos before rest) : peek? code pos = (utf8 rest).head? := by
  rw [peek?, ← h.drop, List.head?_drop]

theorem bytesFrom_eq (h : At code pos before rest) : bytesFrom code pos = .ok (utf8 rest) := by
  rw [bytesFrom, if_pos h.le, h.drop]

theorem bytesBefore_eq (h : At code pos before rest) :
    bytesBefore code pos = .ok (utf8 before).reverse := by
  rw [bytesBefore, if_pos h.le, h.code, h.pos, Text.take_utf8]

theorem textBetween_eq {a b : List Char} (h : At code pos before (a ++ b)) :
    textBetween code pos (pos + byteLength a) = .ok a := by
  rw [textBetween, h.code, h.pos, Text.slice?_byteLength]

theorem startsWith_eq (h : At code pos before rest) {mark : List Char}
    (hm : Text.AllAscii mark) : startsWith code pos mark = .ok (mark.isPrefixOf rest) := by
  rw [startsWith, bytesFrom_eq h, ← Text.isPrefixOf_utf8 hm]
  rfl

/-! ## Places -/

theorem findFrom?_eq (h : At code pos before rest) (needle : List Char) :
    findFrom? code pos needle =
      (Text.indexOf? needle rest).map fun n => pos + byteLength (rest.take n) := by
  rw [findFrom?, h.code, h.pos, Text.splitAt?_byteLength]
  dsimp only [Option.bind_eq_bind, Option.bind_some]
  cases Text.indexOf? needle rest <;> rfl

theorem stopAfter_eq (h : At code pos before rest) (needle : List Char) :
    stopAfter code pos needle =
      pos + byteLength (rest.take (Lexer.lengthThrough needle rest)) := by
  rw [stopAfter, findFrom?_eq h, Lexer.lengthThrough]
  cases hn : Text.indexOf? needle rest with
  | none =>
    dsimp only [Option.map_none]
    rw [List.take_length, h.byteLength_eq]
  | some n =>
    obtain ⟨a, b, rfl, rfl⟩ := Text.exists_of_indexOf? hn
    dsimp only [Option.map_some]
    rw [List.take_left, List.take_length_add_append, List.take_left, Text.byteLength_append]
    omega

theorem lineEnd_eq (h : At code pos before rest) :
    lineEnd code pos = pos + byteLength (rest.take (Lexer.lineLength rest)) := by
  rw [lineEnd, findFrom?_eq h, Text.indexOf?_singleton, Lexer.lineLength, Lexer.runLength]
  split
  · rfl
  · rename_i hn
    have hall : rest.takeWhile (· ≠ '\n') = rest := by
      refine List.takeWhile_eq_self_iff.mpr fun c hc => ?_
      simpa using fun h : c = '\n' => hn (h ▸ hc)
    rw [hall, List.take_length, ← h.byteLength_eq]
    rfl

theorem take_runLength (p : Char → Bool) (cs : List Char) :
    cs.take (Lexer.runLength p cs) = cs.takeWhile p :=
  (List.prefix_iff_eq_take.mp (List.takeWhile_prefix p)).symm

theorem skipWhile_eq (h : At code pos before rest) {p : Char → Bool} (hp : InAscii p) :
    skipWhile code p pos = pos + byteLength (rest.take (Lexer.runLength p rest)) := by
  rw [skipWhile, h.drop, Text.takeWhile_utf8 hp, Text.length_utf8, take_runLength]

/-! ## What stands around -/

theorem isAscii_of_le {c d : Char} (hd : IsAscii d) (h : c.val ≤ d.val) : IsAscii c :=
  Nat.lt_of_le_of_lt (UInt32.le_iff_toNat_le.mp h) hd

theorem inAscii_isUpper : InAscii Char.isUpper := fun _ h =>
  isAscii_of_le (d := 'Z') (by decide) (of_decide_eq_true h).2

theorem inAscii_isLower : InAscii Char.isLower := fun _ h =>
  isAscii_of_le (d := 'z') (by decide) (of_decide_eq_true (Bool.and_eq_true_iff.mp h).2)

theorem inAscii_isDigit : InAscii Char.isDigit := fun _ h =>
  isAscii_of_le (d := '9') (by decide) (of_decide_eq_true (Bool.and_eq_true_iff.mp h).2)

theorem inAscii_isWordStart : InAscii Lexer.isWordStart :=
  (inAscii_isUpper.or inAscii_isLower).or (Text.inAscii_beq (by decide))

theorem inAscii_isWordPart : InAscii Lexer.isWordPart :=
  ((inAscii_isUpper.or inAscii_isLower).or inAscii_isDigit).or (Text.inAscii_beq (by decide))

theorem inAscii_isInlineBlank : InAscii Lexer.isInlineBlank :=
  (Text.inAscii_beq (by decide)).or (Text.inAscii_beq (by decide))

theorem inAscii_isAsciiBlank : InAscii Text.isAsciiBlank := by
  intro c h
  simp only [Text.isAsciiBlank, Bool.or_eq_true, beq_iff_eq] at h
  rcases h with (((rfl | rfl) | rfl) | rfl) | rfl <;> decide

theorem inAscii_isOperator : InAscii Lexer.isOperator :=
  Text.inAscii_contains (by decide)

theorem inAscii_isPunctuation : InAscii Lexer.isPunctuation :=
  Text.inAscii_contains (by decide)

theorem nextSignificant?_eq (h : At code pos before rest) :
    nextSignificant? code pos = .ok (utf8 (rest.dropWhile Lexer.isInlineBlank)).head? := by
  rw [nextSignificant?, bytesFrom_eq h, ← Text.dropWhile_utf8 inAscii_isInlineBlank]
  rfl

theorem isKeyBefore_eq (h : At code pos before rest) {language : Language}
    (hl : Text.AllAscii language.keySeparator.toList) :
    isKeyBefore language code pos = .ok (Lexer.isKeyBefore language rest) := by
  unfold isKeyBefore Lexer.isKeyBefore
  cases hs : language.keySeparator with
  | none => rfl
  | some separator =>
    have ha : IsAscii separator := hl separator (by simp [hs])
    dsimp only
    rw [nextSignificant?_eq h, Lexer.nextSignificant?, ← Text.head?_beq_utf8 ha]
    rfl

/-- The lexer looks for a point, and for another one behind it. -/
theorem lexer_followsPoint (cs : List Char) :
    Lexer.followsPoint cs =
      ((cs.dropWhile Text.isAsciiBlank).head? == some '.' &&
        (cs.dropWhile Text.isAsciiBlank).tail.head? != some '.') := by
  unfold Lexer.followsPoint
  rcases cs.dropWhile Text.isAsciiBlank with _ | ⟨c, _ | ⟨d, ds⟩⟩
  · rfl
  · by_cases hc : c = '.' <;> simp [hc]
  · by_cases hc : c = '.'
    · by_cases hd : d = '.' <;> simp [hc, hd]
    · simp [hc]

theorem followsPoint_eq (h : At code pos before rest) :
    followsPoint code pos = .ok (Lexer.followsPoint before.reverse) := by
  have hpoint : IsAscii '.' := by decide
  have he := Text.encodes_utf8_reverse
  rw [lexer_followsPoint, followsPoint, bytesBefore_eq h, Text.reverse_utf8]
  show Except.ok _ = _
  rw [he.dropWhile inAscii_isAsciiBlank, he.head?_beq hpoint]
  cases before.reverse.dropWhile Text.isAsciiBlank with
  | nil => rfl
  | cons c cs =>
    by_cases hc : c = '.'
    · rw [hc, List.flatMap_cons, he.ascii hpoint, List.singleton_append, List.tail_cons,
        List.tail_cons, bne, he.head?_beq hpoint, bne]
    · have hne : ((c :: cs).head? == some '.') = false := by simp [hc]
      rw [hne, Bool.false_and, Bool.false_and]

/-! ## Loops over bytes -/

/-- The bytes of a character, which is of ASCII or high. -/
theorem utf8_cons_cases (c : Char) (cs : List Char) :
    (IsAscii c ∧ utf8 (c :: cs) = c.toUInt8 :: utf8 cs) ∨
      ¬ IsAscii c ∧ ∃ b bs, utf8 (c :: cs) = b :: (bs ++ utf8 cs) ∧
        bs.length + 1 = c.utf8Size ∧ IsHigh b ∧ ∀ d ∈ bs, IsHigh d := by
  by_cases hc : IsAscii c
  · exact .inl ⟨hc, Text.utf8_cons_ascii hc cs⟩
  · obtain ⟨b, bs, hbs, hb, hhigh⟩ := Text.encodes_utf8.high hc
    refine .inr ⟨hc, b, bs, ?_, ?_, hb, hhigh⟩
    · rw [Text.utf8_cons, hbs, List.cons_append]
    · rw [← String.length_utf8EncodeChar, hbs, List.length_cons]

theorem closeBracket_append {bs : List UInt8} (hb : ∀ b ∈ bs, IsHigh b) (depth pos : Nat)
    (rest : List UInt8) :
    closeBracket depth pos (bs ++ rest) = closeBracket depth (pos + bs.length) rest := by
  induction bs generalizing pos with
  | nil => rfl
  | cons b bs ih =>
    obtain ⟨hb, hbs⟩ := List.forall_mem_cons.mp hb
    rw [List.cons_append, closeBracket, beq_of_isHigh hb (by decide), beq_of_isHigh hb (by decide),
      if_neg Bool.false_ne_true, if_neg Bool.false_ne_true, ih hbs, List.length_cons]
    congr 1
    omega

/-- With an open bracket behind it, the scanner never closes one that is not open. -/
theorem closeBracket_eq (cs : List Char) {depth : Nat} (hd : 0 < depth) (pos : Nat) :
    closeBracket depth pos (utf8 cs) =
      .ok (pos + byteLength (cs.take (Lexer.bracketLength depth cs))) := by
  induction cs generalizing depth pos with
  | nil => rfl
  | cons c cs ih =>
    rcases utf8_cons_cases c cs with ⟨hc, hbytes⟩ | ⟨hc, b, bs, hbytes, hlen, hb, hbs⟩
    · rw [hbytes, closeBracket, beq_toUInt8 hc (by decide), beq_toUInt8 hc (by decide),
        Lexer.bracketLength]
      cases c == '[' with
      | true =>
        simp only [if_true]
        rw [ih (by omega), List.take_succ_cons, byteLength, Text.utf8Size_ascii hc, Nat.add_assoc]
      | false =>
        simp only [Bool.false_eq_true, if_false]
        cases c == ']' with
        | true =>
          simp only [if_true, if_neg (Nat.ne_of_gt hd)]
          by_cases h1 : depth ≤ 1
          · have h0 : depth - 1 = 0 := by omega
            rw [if_pos h0, if_pos h1, List.take_succ_cons, byteLength, Text.utf8Size_ascii hc]
            rfl
          · have h0 : depth - 1 ≠ 0 := by omega
            rw [if_neg h0, if_neg h1, ih (by omega), List.take_succ_cons, byteLength,
              Text.utf8Size_ascii hc, Nat.add_assoc]
        | false =>
          simp only [Bool.false_eq_true, if_false]
          rw [ih hd, List.take_succ_cons, byteLength, Text.utf8Size_ascii hc, Nat.add_assoc]
    · -- no byte of the character is a bracket, so the loop passes all of them
      have hopen : c ≠ '[' := fun h => hc (h ▸ by decide)
      have hclose : c ≠ ']' := fun h => hc (h ▸ by decide)
      rw [hbytes, closeBracket, beq_of_isHigh hb (by decide), beq_of_isHigh hb (by decide),
        if_neg Bool.false_ne_true, if_neg Bool.false_ne_true, closeBracket_append hbs, ih hd,
        Lexer.bracketLength, beq_eq_false_iff_ne.mpr hopen, beq_eq_false_iff_ne.mpr hclose,
        if_neg Bool.false_ne_true, if_neg Bool.false_ne_true, List.take_succ_cons, byteLength,
        ← hlen]
      congr 1
      omega

theorem closeQuote_of_ne {quote b : UInt8} (hb : (b == '\\'.toUInt8) = false) (pos : Nat)
    (rest : List UInt8) :
    closeQuote quote pos (b :: rest) =
      if b == quote then pos + 1
      else if b == '\n'.toUInt8 && quote != '\x60'.toUInt8 then pos
      else closeQuote quote (pos + 1) rest := by
  cases rest <;> simp [closeQuote, hb]

theorem closeQuote_append {quote : Char} (hq : IsAscii quote) {bs : List UInt8}
    (hb : ∀ b ∈ bs, IsHigh b) (pos : Nat) (rest : List UInt8) :
    closeQuote quote.toUInt8 pos (bs ++ rest) =
      closeQuote quote.toUInt8 (pos + bs.length) rest := by
  induction bs generalizing pos with
  | nil => rfl
  | cons b bs ih =>
    obtain ⟨hb, hbs⟩ := List.forall_mem_cons.mp hb
    rw [List.cons_append, closeQuote_of_ne (beq_of_isHigh hb (by decide)), beq_of_isHigh hb hq,
      beq_of_isHigh hb (by decide), Bool.false_and, if_neg Bool.false_ne_true,
      if_neg Bool.false_ne_true, ih hbs, List.length_cons]
    congr 1
    omega

/-- A backslash may stand before a character outside ASCII. Then the scanner goes on inside the
character, whose other bytes end no string. -/
theorem closeQuote_backslash {quote : Char} (hq : IsAscii quote) (c : Char) (cs : List Char)
    (pos : Nat) :
    closeQuote quote.toUInt8 pos (utf8 ('\\' :: c :: cs)) =
      closeQuote quote.toUInt8 (pos + 1 + c.utf8Size) (utf8 cs) := by
  have hstep (b : UInt8) (rest : List UInt8) :
      closeQuote quote.toUInt8 pos ('\\'.toUInt8 :: b :: rest) =
        closeQuote quote.toUInt8 (pos + 2) rest := by
    simp [closeQuote]
  rw [Text.utf8_cons_ascii (by decide)]
  rcases utf8_cons_cases c cs with ⟨hc, hbytes⟩ | ⟨-, b, bs, hbytes, hlen, -, hbs⟩
  · rw [hbytes, hstep, Text.utf8Size_ascii hc]
  · rw [hbytes, hstep, closeQuote_append hq hbs, ← hlen]
    congr 1
    omega

theorem closeQuote_cons {quote c : Char} (hq : IsAscii quote) (hc : c ≠ '\\') (cs : List Char)
    (pos : Nat) :
    closeQuote quote.toUInt8 pos (utf8 (c :: cs)) =
      if c == quote then pos + 1
      else if c == '\n' && quote ≠ '\x60' then pos
      else closeQuote quote.toUInt8 (pos + c.utf8Size) (utf8 cs) := by
  have hback : (quote.toUInt8 != '\x60'.toUInt8) = decide (quote ≠ '\x60') := by
    rw [bne, beq_toUInt8 hq (by decide)]
    simp [beq_eq_decide]
  rcases utf8_cons_cases c cs with ⟨ha, hbytes⟩ | ⟨ha, b, bs, hbytes, hlen, hb, hbs⟩
  · rw [hbytes, closeQuote_of_ne, beq_toUInt8 ha hq, beq_toUInt8 ha (by decide), hback,
      Text.utf8Size_ascii ha]
    rw [beq_toUInt8 ha (by decide), beq_eq_false_iff_ne.mpr hc]
  · have hquote : c ≠ quote := fun h => ha (h ▸ hq)
    have hline : c ≠ '\n' := fun h => ha (h ▸ by decide)
    rw [hbytes, closeQuote_of_ne (beq_of_isHigh hb (by decide)), beq_of_isHigh hb hq,
      beq_of_isHigh hb (by decide), beq_eq_false_iff_ne.mpr hquote, beq_eq_false_iff_ne.mpr hline,
      closeQuote_append hq hbs, ← hlen]
    simp only [Bool.false_eq_true, if_false, Bool.false_and]
    congr 1
    omega

/-- Two rules about backslashes leave no backslash to the rules after them. -/
theorem ne_backslash {c : Char} {cs : List Char} (hlast : c = '\\' → cs = [] → False)
    (hnext : ∀ d ds, c = '\\' → cs = d :: ds → False) : c ≠ '\\' := by
  intro h
  cases cs with
  | nil => exact hlast h rfl
  | cons d ds => exact hnext d ds h rfl

theorem closeQuote_eq {quote : Char} (hq : IsAscii quote) (cs : List Char) (pos : Nat) :
    closeQuote quote.toUInt8 pos (utf8 cs) =
      pos + byteLength (cs.take (Lexer.quotedLength quote cs)) := by
  fun_induction Lexer.quotedLength quote cs generalizing pos with
  | case1 => rfl
  | case2 => rfl
  | case3 c cs ih =>
    rw [closeQuote_backslash hq, ih, List.take_succ_cons, List.take_succ_cons, byteLength,
      byteLength, Text.utf8Size_ascii (show IsAscii '\\' by decide)]
    omega
  | case4 c cs hlast hnext hc =>
    have hback : c ≠ '\\' := ne_backslash hlast hnext
    obtain rfl : c = quote := beq_iff_eq.mp hc
    rw [closeQuote_cons hq hback, if_pos hc, List.take_succ_cons, byteLength,
      Text.utf8Size_ascii hq]
    rfl
  | case5 c cs hlast hnext hc hline =>
    rw [closeQuote_cons hq (ne_backslash hlast hnext), if_neg hc, if_pos hline]
    rfl
  | case6 c cs hlast hnext hc hline ih =>
    rw [closeQuote_cons hq (ne_backslash hlast hnext), if_neg hc, if_neg hline, ih,
      List.take_succ_cons, byteLength, Nat.add_assoc]

theorem numberStop_eq (cs : List Char) (pos : Nat) :
    numberStop pos (utf8 cs) = pos + byteLength (cs.take (Lexer.numberLength cs)) := by
  induction cs generalizing pos with
  | nil => rfl
  | cons c cs ih =>
    rcases utf8_cons_cases c cs with ⟨hc, hbytes⟩ | ⟨hc, b, bs, hbytes, -, hb, -⟩
    · rw [hbytes, numberStop, Text.asciiClass_toUInt8 _ hc, beq_toUInt8 hc (by decide),
        Text.head?_any_utf8 inAscii_isDigit, Lexer.numberLength]
      split
      · rw [ih, List.take_succ_cons, byteLength, Text.utf8Size_ascii hc, Nat.add_assoc]
      · rfl
    · have hpart : Lexer.isWordPart c = false :=
        Bool.eq_false_iff.mpr fun h => hc (inAscii_isWordPart c h)
      have hpoint : c ≠ '.' := fun h => hc (h ▸ by decide)
      rw [hbytes, numberStop, Text.asciiClass_isHigh _ hb, beq_of_isHigh hb (by decide),
        Lexer.numberLength, hpart, beq_eq_false_iff_ne.mpr hpoint]
      rfl

end RichMarkdown.Scanner
