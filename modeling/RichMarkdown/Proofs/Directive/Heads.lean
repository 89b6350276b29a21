import RichMarkdown.Directive.Line
import RichMarkdown.Proofs.Directive.Matches
import RichMarkdown.Proofs.Directive.Writing

/-!
# Heads as they are written

A head is written as its name, its label in brackets and its attributes in braces (`Head.write`).
What stands between two delimiters is read up to the closer that balances the opener, so a text is
read as a whole exactly when it is balanced (`untilClosed?_eq_some_iff`). The quotes around a value
are not seen at that point: a brace in a value counts like any other.

* `readBack_iff`: a head is read back, as a line and inside a text, exactly when the braces in its
  attributes balance.
-/

set_option autoImplicit false

namespace RichMarkdown

/-- A line is read by the number of colons at its start. -/
theorem DirectiveLine.read?_colons {n : Nat} {line after : List Char}
    (hline : Text.trimEnd line = List.replicate n ':' ++ after) (hafter : after.head? ≠ some ':') :
    read? line =
      if n = 2 then ofLeaf? after
      else if 3 ≤ n then ofContainer? n (Text.trimStart after) else none := by
  have hrun : Text.Run (· == ':') (List.replicate n ':') after := by
    refine ⟨fun d hd => by rw [List.eq_of_mem_replicate hd]; rfl, fun d hd => ?_⟩
    exact beq_false_of_ne fun heq => hafter (heq ▸ hd)
  rw [read?, hline, hrun.takeWhile, hrun.dropWhile, List.length_replicate]

namespace Head

/-! ## Balanced texts -/

/-- A text in which every opener has its closer. -/
inductive Balanced (opener closer : Char) : List Char → Prop
  | nil : Balanced opener closer []
  | plain {c : Char} {cs : List Char} : c ≠ opener → c ≠ closer → Balanced opener closer cs →
      Balanced opener closer (c :: cs)
  | nested {inside cs : List Char} : Balanced opener closer inside → Balanced opener closer cs →
      Balanced opener closer (opener :: (inside ++ closer :: cs))

/-- A text with closers for the given number of openers before it, and balanced texts before,
between and after these closers. -/
def Closes (opener closer : Char) : Nat → List Char → Prop
  | 0, cs => Balanced opener closer cs
  | depth + 1, cs => ∃ inside rest, cs = inside ++ closer :: rest ∧
      Balanced opener closer inside ∧ Closes opener closer depth rest

section

variable {opener closer c : Char} {depth : Nat} {cs content rest : List Char}

theorem Closes.cons_plain (hopener : c ≠ opener) (hcloser : c ≠ closer)
    (h : Closes opener closer depth cs) : Closes opener closer depth (c :: cs) := by
  cases depth with
  | zero => exact .plain hopener hcloser h
  | succ depth =>
    obtain ⟨inside, rest, rfl, hinside, hrest⟩ := h
    exact ⟨c :: inside, rest, rfl, .plain hopener hcloser hinside, hrest⟩

/-- The first of the closers is the one of an opener before the text. -/
theorem Closes.cons_opener (h : Closes opener closer (depth + 1) cs) :
    Closes opener closer depth (opener :: cs) := by
  obtain ⟨inside, rest, rfl, hinside, hrest⟩ := h
  cases depth with
  | zero => exact .nested hinside hrest
  | succ depth =>
    obtain ⟨next, rest, rfl, hnext, hrest⟩ := hrest
    exact ⟨opener :: (inside ++ closer :: next), rest, by simp, .nested hinside hnext, hrest⟩

theorem Closes.cons_closer (h : Closes opener closer depth cs) :
    Closes opener closer (depth + 1) (closer :: cs) := ⟨[], cs, rfl, .nil, h⟩

/-- What is read closes all openers before it but the first, whose closer comes behind it. -/
theorem closes_of_untilClosed?
    (h : untilClosed? opener closer (depth + 1) cs = some (content, rest)) :
    Closes opener closer depth content := by
  induction cs generalizing depth content with
  | nil => cases h
  | cons c cs ih =>
    rw [untilClosed?] at h
    split at h
    · rename_i hc
      obtain ⟨inside, rfl, hinside⟩ := exists_of_map_untilClosed? h
      obtain rfl := eq_of_beq hc
      exact Closes.cons_opener (ih hinside)
    · rename_i hopener
      split at h
      · rename_i hc
        obtain rfl := eq_of_beq hc
        cases depth with
        | zero =>
          obtain ⟨rfl, rfl⟩ := Prod.mk.inj (Option.some.inj h)
          exact .nil
        | succ depth =>
          rw [if_neg (by omega)] at h
          obtain ⟨inside, rfl, hinside⟩ := exists_of_map_untilClosed? h
          exact Closes.cons_closer (ih hinside)
      · rename_i hcloser
        obtain ⟨inside, rfl, hinside⟩ := exists_of_map_untilClosed? h
        exact Closes.cons_plain (by simpa using hopener) (by simpa using hcloser) (ih hinside)

/-- The search passes over a balanced text, at any depth. -/
theorem Balanced.untilClosed?_append (h : Balanced opener closer content)
    (hne : closer ≠ opener) (depth : Nat) (rest : List Char) :
    untilClosed? opener closer (depth + 1) (content ++ rest) =
      (untilClosed? opener closer (depth + 1) rest).map fun p => (content ++ p.1, p.2) := by
  induction h generalizing depth rest with
  | nil => simp
  | plain hopener hcloser _ ih =>
    rw [List.cons_append, untilClosed?, if_neg (by simpa using hopener),
      if_neg (by simpa using hcloser), ih, Option.map_map]
    rfl
  | nested _ _ ihinside ih =>
    rw [List.cons_append, untilClosed?, if_pos (beq_self_eq_true opener), List.append_assoc,
      ihinside, List.cons_append, untilClosed?, if_neg (by simpa using hne),
      if_pos (beq_self_eq_true closer), if_neg (by omega), Nat.add_sub_cancel, ih,
      Option.map_map, Option.map_map, Option.map_map]
    congr 1
    funext p
    simp

/-- **Between delimiters stands what is balanced.** -/
theorem untilClosed?_eq_some_iff (hne : closer ≠ opener) :
    untilClosed? opener closer 1 cs = some (content, rest) ↔
      cs = content ++ closer :: rest ∧ Balanced opener closer content := by
  constructor
  · intro h
    exact ⟨(append_of_untilClosed? h).symm, closes_of_untilClosed? h⟩
  · rintro ⟨rfl, h⟩
    rw [h.untilClosed?_append hne, untilClosed?, if_neg (by simpa using hne),
      if_pos (beq_self_eq_true closer), if_pos (by omega)]
    simp

end

/-! ## Names -/

/-- The code points of the blank characters. -/
def blankCodes : List Nat :=
  [9, 10, 11, 12, 13, 0x20, 0x85, 0xA0, 0x1680, 0x2000, 0x2001, 0x2002, 0x2003, 0x2004, 0x2005,
    0x2006, 0x2007, 0x2008, 0x2009, 0x200A, 0x2028, 0x2029, 0x202F, 0x205F, 0x3000]

theorem toNat_mem_blankCodes {c : Char} (h : Text.isBlank c = true) : c.toNat ∈ blankCodes := by
  simp only [Text.isBlank, Bool.or_eq_true, Bool.and_eq_true, decide_eq_true_eq, beq_iff_eq] at h
  simp only [blankCodes, List.mem_cons, List.not_mem_nil]
  omega

theorem isNameChar_of_isBlank {c : Char} (h : Text.isBlank c = true) : isNameChar c = false := by
  have hall : ∀ n ∈ blankCodes, isNameChar (Char.ofNat n) = false := by decide +kernel
  have hc := hall _ (toNat_mem_blankCodes h)
  rwa [Char.ofNat_toNat] at hc

theorem isBlank_of_isNameChar {c : Char} (h : isNameChar c = true) : Text.isBlank c = false := by
  by_contra hblank
  rw [isNameChar_of_isBlank (Bool.not_eq_false _ ▸ hblank)] at h
  cases h

theorem ne_colon_of_isNameChar {c : Char} (h : isNameChar c = true) : c ≠ ':' := by
  rintro rfl
  exact absurd h (by decide +kernel)

/-- The characters of a name do not end it. -/
theorem endsName_of_isNameChar {c : Char} (h : isNameChar c = true) : endsName c = false := by
  rw [endsName]
  by_contra hends
  rw [Bool.not_eq_false, Bool.or_eq_true, Bool.or_eq_true] at hends
  rcases hends with (hc | hc) | hblank
  · obtain rfl := eq_of_beq hc
    exact absurd h (by decide +kernel)
  · obtain rfl := eq_of_beq hc
    exact absurd h (by decide +kernel)
  · exact absurd hblank (isBlank_of_isNameChar h ▸ Bool.false_ne_true)

/-! ## Heads with a label and attributes -/

/-- The attributes of a head as they are written after its label. -/
def braced (head : Head) : List Char := '\x7b' :: (head.attributes.write ++ ['\x7d'])

/-- A head as it is written: its name, its label in brackets and its attributes in braces. -/
def write (head : Head) : List Char :=
  head.name.toList ++ (head.label.elim [] fun label => '[' :: (label.toList ++ [']'])) ++
    head.braced

/-- A head with a label, all of whose parts can be written. -/
structure Writable (head : Head) : Prop where
  ne_nil : head.name.toList ≠ []
  valid : ∀ c ∈ head.name.toList, isNameChar c = true
  label : ∃ label ∈ head.label, Balanced '[' ']' label.toList
  attributes : head.attributes.Writable

section

variable {head other : Head} {rest : List Char}

theorem Writable.labelled (h : head.Writable) : ∃ label ∈ head.label,
    Labelled head.write head.name.toList label.toList head.braced := by
  obtain ⟨label, hlabel, hbalanced⟩ := h.label
  refine ⟨label, hlabel, ?_, fun c hc => ?_, label.toList ++ ']' :: head.braced, ?_,
    (untilClosed?_eq_some_iff (by decide)).mpr ⟨rfl, hbalanced⟩⟩
  · have hall : head.name.toList.all isNameChar = true := List.all_eq_true.mpr h.valid
    rw [hall, List.isEmpty_eq_false_iff.mpr h.ne_nil]
    rfl
  · rw [endsName_of_isNameChar (h.valid c hc)]
    rfl
  · rw [write, Option.mem_def.mp hlabel]
    simp

/-- What is read of a written head depends only on where its braces are closed. -/
theorem Writable.read? (h : head.Writable) :
    Head.read? head.write = some
      (⟨head.name, head.label, Attributes.read ((optional '\x7b' '\x7d' head.braced).1.getD [])⟩,
        (optional '\x7b' '\x7d' head.braced).2) := by
  obtain ⟨label, hlabel, hlabelled⟩ := h.labelled
  rw [hlabelled.read?, String.ofList_toList, String.ofList_toList, Option.mem_def.mp hlabel]

/-- A head with balanced braces is read up to its end. -/
theorem Writable.read?_eq (h : head.Writable)
    (hbalanced : Balanced '\x7b' '\x7d' head.attributes.write) :
    Head.read? head.write = some (head, []) := by
  have hoptional : optional '\x7b' '\x7d' head.braced = (some head.attributes.write, []) := by
    rw [optional, braced, delimited?, if_pos (beq_self_eq_true _),
      (untilClosed?_eq_some_iff (by decide)).mpr ⟨rfl, hbalanced⟩]
  rw [h.read?, hoptional, Option.getD_some, Attributes.read_write h.attributes]

/-- A head after which nothing is left has balanced braces: the last of them is the one at the end
of the text. -/
theorem Writable.balanced (h : head.Writable) (hread : Head.read? head.write = some (other, rest))
    (hrest : Text.allBlank rest = true) : Balanced '\x7b' '\x7d' head.attributes.write := by
  rw [h.read?] at hread
  obtain ⟨-, rfl⟩ := Prod.mk.inj (Option.some.inj hread)
  have hblank := List.all_eq_true.mp hrest
  obtain ⟨inside, content, rest, hinside, hclosed, heq⟩ | heq :=
    optional_cases '\x7b' '\x7d' head.braced
  · rw [heq] at hblank
    obtain ⟨rfl, hbalanced⟩ := (untilClosed?_eq_some_iff (by decide)).mp hclosed
    have hends := (List.cons.inj hinside).2
    rcases rest.eq_nil_or_concat with rfl | ⟨front, last, rfl⟩
    · rwa [(List.append_inj' hends rfl).1]
    · -- the text ends with a brace, which is no blank
      rw [List.concat_eq_append, ← List.cons_append, ← List.append_assoc] at hends
      obtain rfl := List.singleton_inj.mp (List.append_inj' hends rfl).2
      have hlast := hblank '\x7d' (by simp)
      cases hlast
  · rw [heq] at hblank
    have hfirst := hblank '\x7b' (by simp [braced])
    cases hfirst

/-- A written head starts with a character of its name, which is neither a colon nor a blank. -/
theorem Writable.exists_write (h : head.Writable) :
    ∃ c cs, head.write = c :: cs ∧ c ≠ ':' ∧ Text.isBlank c = false := by
  obtain ⟨c, cs, hcs⟩ := List.exists_cons_of_ne_nil h.ne_nil
  have hc := h.valid c (by rw [hcs]; exact List.mem_cons_self)
  exact ⟨c, _, by rw [write, hcs, List.cons_append, List.cons_append], ne_colon_of_isNameChar hc,
    isBlank_of_isNameChar hc⟩

theorem Writable.head?_write_ne (h : head.Writable) : head.write.head? ≠ some ':' := by
  obtain ⟨c, cs, hcs, hcolon, -⟩ := h.exists_write
  rw [hcs]
  exact fun heq => hcolon (Option.some.inj heq)

end

/-! ## Lines and matches -/

/-- A head is read back: after three or more colons and after two as a line, and after one colon as
a whole text. -/
structure ReadBack (head : Head) : Prop where
  container : ∀ n, 3 ≤ n → DirectiveLine.read? (List.replicate n ':' ++ head.write) =
    some (.containerStart n head)
  leaf : DirectiveLine.read? (':' :: ':' :: head.write) = some (.leaf head)
  inline : InlineMatch.find? (':' :: head.write) = some ⟨[], head, []⟩

section

variable {head : Head}

/-- The colons of a line are those before the head, and the line ends where the head does. -/
theorem Writable.line (h : head.Writable) (n : Nat) :
    DirectiveLine.read? (List.replicate n ':' ++ head.write) =
      if n = 2 then DirectiveLine.ofLeaf? head.write
      else if 3 ≤ n then DirectiveLine.ofContainer? n head.write else none := by
  obtain ⟨c, cs, hcs, -, hblank⟩ := h.exists_write
  have htrimEnd : Text.trimEnd (List.replicate n ':' ++ head.write) =
      List.replicate n ':' ++ head.write := Text.trimEnd_eq_self fun d hd => by
    rw [write, braced, ← List.cons_append, ← List.append_assoc, ← List.append_assoc,
      List.getLast?_concat] at hd
    rw [← Option.some.inj hd]
    rfl
  have htrimStart : Text.trimStart head.write = head.write := Text.trimStart_eq_self fun d hd => by
    rw [hcs] at hd
    obtain rfl : c = d := by simpa using hd
    exact hblank
  rw [DirectiveLine.read?_colons htrimEnd h.head?_write_ne, htrimStart]

theorem Writable.readBack (h : head.Writable)
    (hbalanced : Balanced '\x7b' '\x7d' head.attributes.write) : head.ReadBack := by
  obtain ⟨c, cs, hcs, -⟩ := h.exists_write
  have hread := h.read?_eq hbalanced
  constructor
  · intro n hn
    rw [h.line, if_neg (by omega), if_pos hn, DirectiveLine.ofContainer?, hread, hcs]
    rfl
  · have hline := h.line 2
    rw [if_pos rfl, DirectiveLine.ofLeaf?, hread] at hline
    exact hline
  · obtain ⟨label, hlabel, -⟩ := h.label
    rw [InlineMatch.find?, InlineMatch.findAfter?, if_pos (by rfl), InlineMatch.atColon?,
      if_neg h.head?_write_ne, hread, Option.filter_some, Option.mem_def.mp hlabel]
    rfl

theorem ReadBack.balanced (hback : head.ReadBack) (h : head.Writable) :
    Balanced '\x7b' '\x7d' head.attributes.write := by
  have hline := (h.line 2).symm.trans hback.leaf
  rw [if_pos rfl, DirectiveLine.ofLeaf?] at hline
  split at hline
  · rename_i other rest hread
    split at hline
    · exact h.balanced hread ‹_›
    · cases hline
  · cases hline

/-- **Heads are read back** exactly when the braces in their attributes balance. -/
theorem readBack_iff (h : head.Writable) :
    head.ReadBack ↔ Balanced '\x7b' '\x7d' head.attributes.write :=
  ⟨fun hback => hback.balanced h, h.readBack⟩

end

/-- A head with the label `x` and one attribute, whose value is the given one. -/
def note (value : String) : Head := ⟨"note", some "x", Attributes.insert {} "k" value⟩

theorem writable_note {value : String} (h : '\"' ∉ value.toList) : (note value).Writable := by
  have hne : "note".toList ≠ [] := by decide
  have hvalid : "note".toList.all isNameChar = true := by decide +kernel
  have hlabel : Balanced '[' ']' "x".toList := .plain (by decide) (by decide) .nil
  have hkey : Attributes.IsKey "k".toList := by
    have hk : "k".toList = ['k'] := by decide
    rw [hk]
    refine ⟨by decide, List.forall_mem_singleton.mpr rfl, by decide, fun c hc => ?_⟩
    obtain rfl := Option.some.inj hc
    decide
  refine ⟨hne, List.all_eq_true.mp hvalid, ⟨"x", rfl, hlabel⟩, fun s hs => ?_, fun s hs => ?_,
    fun p hp => ?_⟩
  · cases hs
  · cases hs
  · obtain rfl : p = ("k", value) := List.mem_singleton.mp hp
    refine ⟨hkey, fun hnone => ?_⟩
    rw [Attributes.quoteFor?, if_pos h] at hnone
    cases hnone

/-- Braces in a value that balance. -/
theorem readBack_note : (note "\x7bx\x7d").Writable ∧ (note "\x7bx\x7d").ReadBack := by
  have hwritable : (note "\x7bx\x7d").Writable := writable_note (by decide)
  have hinside : Balanced '\x7b' '\x7d' ['x'] := .plain (by decide) (by decide) .nil
  have hquote : Balanced '\x7b' '\x7d' ['\"'] := .plain (by decide) (by decide) .nil
  exact ⟨hwritable, (readBack_iff hwritable).mpr <|
    .plain (by decide) (by decide) <| .plain (by decide) (by decide) <|
      .plain (by decide) (by decide) (.nested hinside hquote)⟩

/-- A closing brace in a value ends the attributes, although it stands between quotes: the rest of
the value is left over. -/
theorem not_readBack_note : (note "\x7d").Writable ∧
    (note "\x7d").write = "note[x]\x7bk=\"\x7d\"\x7d".toList ∧ ¬ (note "\x7d").ReadBack := by
  refine ⟨writable_note (by decide), by decide, fun hback => ?_⟩
  have hleaf := hback.leaf
  have hnone : DirectiveLine.read? (':' :: ':' :: (note "\x7d").write) = none := by decide +kernel
  rw [hnone] at hleaf
  cases hleaf

end Head

end RichMarkdown
