import RichMarkdown.Proofs.Directive.Heads
import RichMarkdown.Proofs.Text.Bytes

/-!
# Delimiters that belong together

The closer that belongs to an opener at the start of a text, found by counting: up to it there are
as many openers as closers, and at every place before it more openers (`Matched`). What stands
between the two is balanced, and nothing else is (`matched_iff`). A search that goes by byte offsets
and counts the open delimiters could break off in two more ways (`Fault`): the count could go below
zero, and a cut could fall inside a character. It never does, for the delimiters as for whole heads.

* `delimited?_eq_some_iff`: what is read between delimiters is what stands between matched ones.
* `findDelimited_eq`, `readOffsets_eq`: the searches by offsets find what is read.
* `findDelimited_finds`: all of it, for every text and all delimiters of one byte.
-/

set_option autoImplicit false

namespace RichMarkdown.Head

open Text (IsAscii byteLength byteLength_append splitAt? splitAt?_byteLength slice?
  slice?_byteLength isBoundary isBoundary_byteLength)

/-! ## Counting -/

/-- A text from an opener to the closer that belongs to it. -/
structure Matched (opener closer : Char) (cs : List Char) : Prop where
  starts : cs.head? = some opener
  even : cs.count opener = cs.count closer
  /-- The openers are ahead in every shorter part from the start on. -/
  ahead : ∀ front back, cs = front ++ back → front ≠ [] → back ≠ [] →
    front.count closer < front.count opener

section

variable {opener closer : Char} {cs content rest : List Char}

theorem Balanced.count_eq (h : Balanced opener closer cs) (hne : closer ≠ opener) :
    cs.count opener = cs.count closer := by
  induction h with
  | nil => rfl
  | plain hopener hcloser _ ih =>
    rw [List.count_cons_of_ne hopener, List.count_cons_of_ne hcloser, ih]
  | nested _ _ ihinside ih =>
    rw [List.count_cons_self, List.count_cons_of_ne hne.symm, List.count_append,
      List.count_append, List.count_cons_of_ne hne, List.count_cons_self, ihinside, ih]
    omega

/-- At no place of a balanced text are the closers ahead. -/
theorem Balanced.count_le (h : Balanced opener closer cs) (hne : closer ≠ opener)
    {front back : List Char} (hcs : cs = front ++ back) :
    front.count closer ≤ front.count opener := by
  induction h generalizing front back with
  | nil =>
    obtain ⟨rfl, -⟩ := List.append_eq_nil_iff.mp hcs.symm
    exact Nat.le_refl _
  | plain hopener hcloser _ ih =>
    rcases List.cons_eq_append_iff.mp hcs with ⟨rfl, -⟩ | ⟨front, rfl, htail⟩
    · exact Nat.le_refl _
    · rw [List.count_cons_of_ne hopener, List.count_cons_of_ne hcloser]
      exact ih htail
  | @nested inside _ hinside _ ihinside ih =>
    rcases List.cons_eq_append_iff.mp hcs with ⟨rfl, -⟩ | ⟨front, rfl, htail⟩
    · exact Nat.le_refl _
    rw [List.count_cons_self, List.count_cons_of_ne hne.symm]
    rcases List.append_eq_append_iff.mp htail with ⟨middle, rfl, hmiddle⟩ | ⟨middle, rfl, -⟩
    · -- the place is behind the inner text
      rw [List.count_append, List.count_append, hinside.count_eq hne]
      rcases List.cons_eq_append_iff.mp hmiddle with ⟨rfl, -⟩ | ⟨after, rfl, hafter⟩
      · simp
      · have hle := ih hafter
        rw [List.count_cons_self, List.count_cons_of_ne hne]
        omega
    · have hbefore := ihinside rfl
      omega

/-- A balanced text between two delimiters. -/
theorem Balanced.matched (h : Balanced opener closer content) (hne : closer ≠ opener) :
    Matched opener closer (opener :: (content ++ [closer])) where
  starts := rfl
  even := by
    rw [List.count_cons_self, List.count_cons_of_ne hne.symm, List.count_append,
      List.count_append, List.count_cons_of_ne hne, List.count_cons_self, h.count_eq hne]
    rfl
  ahead front back hcs hfront hback := by
    rcases List.cons_eq_append_iff.mp hcs with ⟨rfl, -⟩ | ⟨front, rfl, htail⟩
    · exact absurd rfl hfront
    have hle : front.count closer ≤ front.count opener := by
      rcases List.append_eq_append_iff.mp htail with ⟨middle, rfl, hmiddle⟩ | ⟨middle, rfl, -⟩
      · -- behind the content there is only the last place
        obtain ⟨rfl, -⟩ | ⟨rfl, rfl⟩ := List.singleton_eq_append_iff.mp hmiddle
        · rw [List.append_nil, h.count_eq hne]
        · exact absurd rfl hback
      · exact h.count_le hne rfl
    rw [List.count_cons_self, List.count_cons_of_ne hne.symm]
    omega

/-- The search stops at the first place where the closers make up for the openers before the
text. -/
theorem untilClosed?_of_count (hne : closer ≠ opener) {depth : Nat}
    (heven : cs.count closer = cs.count opener + (depth + 1))
    (hahead : ∀ front back, cs = front ++ back → back ≠ [] →
      front.count closer < front.count opener + (depth + 1)) (rest : List Char) :
    untilClosed? opener closer (depth + 1) (cs ++ rest) = some (cs.dropLast, rest) := by
  induction cs generalizing depth with
  | nil =>
    rw [List.count_nil, List.count_nil] at heven
    omega
  | cons c cs ih =>
    -- with closers to come, `c` is not the last character
    have hcons (hcount : cs.count closer ≠ 0) :
        (c :: cs.dropLast, rest) = ((c :: cs).dropLast, rest) := by
      have hnil : cs ≠ [] := by
        rintro rfl
        exact hcount List.count_nil
      rw [List.dropLast_cons_of_ne_nil hnil]
    have hnext (front back : List Char) (hcs : cs = front ++ back) (hback : back ≠ []) :=
      hahead (c :: front) back (by rw [hcs, List.cons_append]) hback
    rw [List.cons_append, untilClosed?]
    by_cases hopener : c = opener
    · subst hopener
      rw [List.count_cons_self, List.count_cons_of_ne hne.symm] at heven
      rw [if_pos (beq_self_eq_true c), ih (by omega) ?_, Option.map_some, hcons (by omega)]
      intro front back hcs hback
      have hfront := hnext front back hcs hback
      rw [List.count_cons_self, List.count_cons_of_ne hne.symm] at hfront
      omega
    rw [if_neg (by simpa using hopener)]
    rw [List.count_cons_of_ne hopener] at heven
    by_cases hcloser : c = closer
    · subst hcloser
      rw [List.count_cons_self] at heven
      rw [if_pos (beq_self_eq_true c)]
      cases depth with
      | zero =>
        -- the openers are ahead up to the last place, so this is the last place
        have hnil : cs = [] := by
          by_contra hnil
          have hfirst := hahead [c] cs rfl hnil
          rw [List.count_cons_self, List.count_cons_of_ne hne, List.count_nil,
            List.count_nil] at hfirst
          omega
        rw [hnil, if_pos (by omega)]
        rfl
      | succ depth =>
        rw [if_neg (by omega), Nat.add_sub_cancel, ih (by omega) ?_, Option.map_some,
          hcons (by omega)]
        intro front back hcs hback
        have hfront := hnext front back hcs hback
        rw [List.count_cons_self, List.count_cons_of_ne hne] at hfront
        omega
    · rw [List.count_cons_of_ne hcloser] at heven
      rw [if_neg (by simpa using hcloser), ih heven ?_, Option.map_some, hcons (by omega)]
      intro front back hcs hback
      have hfront := hnext front back hcs hback
      rwa [List.count_cons_of_ne hopener, List.count_cons_of_ne hcloser] at hfront

theorem Matched.untilClosed? (h : Matched opener closer cs) (hne : closer ≠ opener) :
    ∃ inside, cs = opener :: inside ∧ ∀ rest,
      untilClosed? opener closer 1 (inside ++ rest) = some (inside.dropLast, rest) := by
  obtain ⟨inside, rfl⟩ := List.head?_eq_some_iff.mp h.starts
  refine ⟨inside, rfl, untilClosed?_of_count hne ?_ ?_⟩
  · have heven := h.even
    rw [List.count_cons_self, List.count_cons_of_ne hne.symm] at heven
    omega
  · intro front back hcs hback
    have hfront := h.ahead (opener :: front) back (by rw [hcs, List.cons_append])
      (List.cons_ne_nil _ _) hback
    rw [List.count_cons_self, List.count_cons_of_ne hne.symm] at hfront
    omega

/-- **Between matched delimiters stands what is balanced.** -/
theorem matched_iff (hne : closer ≠ opener) : Matched opener closer cs ↔
    ∃ content, cs = opener :: (content ++ [closer]) ∧ Balanced opener closer content := by
  constructor
  · intro h
    obtain ⟨inside, rfl, hclosed⟩ := h.untilClosed? hne
    obtain ⟨hinside, hbalanced⟩ := (untilClosed?_eq_some_iff hne).mp (hclosed [])
    rw [List.append_nil] at hinside
    exact ⟨inside.dropLast, congrArg (opener :: ·) hinside, hbalanced⟩
  · rintro ⟨content, rfl, hbalanced⟩
    exact hbalanced.matched hne

/-- **What is read between delimiters** at the start of a text is what stands between matched ones,
with what is behind them. -/
theorem delimited?_eq_some_iff (hne : closer ≠ opener) :
    delimited? opener closer cs = some (content, rest) ↔
      cs = opener :: (content ++ closer :: rest) ∧
        Matched opener closer (opener :: (content ++ [closer])) := by
  constructor
  · intro h
    cases cs with
    | nil => cases h
    | cons c cs =>
      rw [delimited?] at h
      split at h
      · rename_i hc
        obtain ⟨rfl, hbalanced⟩ := (untilClosed?_eq_some_iff hne).mp h
        rw [eq_of_beq hc]
        exact ⟨rfl, hbalanced.matched hne⟩
      · cases h
  · rintro ⟨rfl, hmatched⟩
    obtain ⟨inside, hinside, hclosed⟩ := hmatched.untilClosed? hne
    obtain rfl := (List.cons.inj hinside).2
    have hread := hclosed rest
    rw [List.dropLast_concat, List.append_assoc, List.singleton_append] at hread
    rw [delimited?, if_pos (beq_self_eq_true opener), hread]

end

/-! ## Counting by offsets -/

/-- How a search by byte offsets can break off. -/
inductive Fault where
  /-- The number of open delimiters would go below zero. -/
  | negative
  /-- A cut lies outside the text or inside a character. -/
  | boundary (start stop : Nat)
  deriving DecidableEq, Repr

/-- Looks for the closer in the part of a text from an offset on, with the number of delimiters that
are open there. Gives what stands between the delimiters and the offset behind them. -/
def closerFrom (opener closer : Char) (text : List Char) :
    Nat → Nat → List Char → Except Fault (Option (List Char × Nat))
  | _, _, [] => .ok none
  | offset, depth, c :: cs =>
    if c = opener then closerFrom opener closer text (offset + c.utf8Size) (depth + 1) cs
    else if c = closer then
      if depth = 0 then .error .negative
      else if depth = 1 then
        match slice? 1 offset text with
        | none => .error (.boundary 1 offset)
        | some content => .ok (some (content, offset + 1))
      else closerFrom opener closer text (offset + c.utf8Size) (depth - 1) cs
    else closerFrom opener closer text (offset + c.utf8Size) depth cs

/-- What stands between delimiters at the start of a text, and how many bytes there are up to behind
them. -/
def findDelimited (opener closer : Char) (text : List Char) :
    Except Fault (Option (List Char × Nat)) :=
  if text.head? = some opener then closerFrom opener closer text 0 0 text else .ok none

/-- The number of bytes of a text between delimiters of one byte, with these. -/
def withDelimiters (content : List Char) : Nat := byteLength content + 2

section

variable {opener closer : Char}

theorem byteLength_delimited (ho : IsAscii opener) (hc : IsAscii closer) (content : List Char) :
    byteLength (opener :: (content ++ [closer])) = withDelimiters content := by
  rw [byteLength, byteLength_append, byteLength, byteLength, Text.utf8Size_ascii ho,
    Text.utf8Size_ascii hc, withDelimiters]
  omega

/-- After the opener, the count is never below one before the closer is met, and both cuts fall
between characters. -/
theorem closerFrom_eq (ho : IsAscii opener) (depth : Nat) (read cs : List Char) :
    closerFrom opener closer (opener :: (read ++ cs)) (1 + byteLength read) (depth + 1) cs =
      .ok ((untilClosed? opener closer (depth + 1) cs).map fun p =>
        (read ++ p.1, withDelimiters (read ++ p.1))) := by
  induction cs generalizing depth read with
  | nil => rfl
  | cons c cs ih =>
    -- one more character is read, at whatever depth the search goes on
    have hstep (next : Nat) :
        closerFrom opener closer (opener :: (read ++ c :: cs)) (1 + byteLength read + c.utf8Size)
            (next + 1) cs =
          .ok (((untilClosed? opener closer (next + 1) cs).map fun p => (c :: p.1, p.2)).map
            fun p => (read ++ p.1, withDelimiters (read ++ p.1))) := by
      have hread := ih next (read ++ [c])
      have hlength : byteLength (read ++ [c]) = byteLength read + c.utf8Size := by
        rw [byteLength_append, byteLength, byteLength, Nat.add_zero]
      rw [hlength, ← Nat.add_assoc, List.append_assoc, List.singleton_append] at hread
      rw [hread, Option.map_map]
      congr 2
      funext p
      simp
    rw [closerFrom, untilClosed?]
    simp only [beq_iff_eq]
    by_cases hopener : c = opener
    · rw [if_pos hopener, if_pos hopener]
      exact hstep (depth + 1)
    rw [if_neg hopener, if_neg hopener]
    by_cases hcloser : c = closer
    · rw [if_pos hcloser, if_pos hcloser]
      cases depth with
      | zero =>
        have hopenerLength : byteLength [opener] = 1 := by
          rw [byteLength, byteLength, Text.utf8Size_ascii ho]
        have hcut := slice?_byteLength [opener] read (c :: cs)
        rw [hopenerLength, List.singleton_append] at hcut
        rw [if_neg (by omega), if_pos (by omega), if_pos (by omega), Option.map_some,
          List.append_nil, withDelimiters]
        simp only [hcut]
        congr 3
        omega
      | succ depth =>
        rw [if_neg (by omega), if_neg (by omega), if_neg (by omega), Nat.add_sub_cancel]
        exact hstep depth
    · rw [if_neg hcloser, if_neg hcloser]
      exact hstep depth

/-- **The search by offsets finds what is read**, and does not break off. -/
theorem findDelimited_eq (ho : IsAscii opener) (text : List Char) :
    findDelimited opener closer text =
      .ok ((delimited? opener closer text).map fun p => (p.1, withDelimiters p.1)) := by
  rw [findDelimited]
  cases text with
  | nil => rfl
  | cons c cs =>
    rw [delimited?, List.head?_cons]
    by_cases hc : c = opener
    · subst hc
      have hread := @closerFrom_eq c closer ho 0 [] cs
      simp only [List.nil_append, byteLength, Nat.add_zero] at hread
      rw [if_pos rfl, if_pos (beq_self_eq_true c), closerFrom, if_pos rfl, Text.utf8Size_ascii ho]
      exact hread
    · rw [if_neg (by simpa using hc), if_neg (by simpa using hc)]
      rfl

end

/-! ## Heads by offsets -/

/-- A text between delimiters from an offset on, if there is one, and the offset behind it. -/
def optionalFrom (opener closer : Char) (text : List Char) (offset : Nat) :
    Except Fault (Option (List Char) × Nat) :=
  match splitAt? offset text with
  | none => .error (.boundary offset (byteLength text))
  | some (_, rest) =>
    match findDelimited opener closer rest with
    | .error fault => .error fault
    | .ok none => .ok (none, offset)
    | .ok (some (content, n)) => .ok (some content, offset + n)

/-- Reads a head by byte offsets, and how many bytes it takes. -/
def readOffsets (text : List Char) : Except Fault (Option (Head × Nat)) := do
  let nameEnd := byteLength (text.takeWhile (! endsName ·))
  match slice? 0 nameEnd text with
  | none => .error (.boundary 0 nameEnd)
  | some name =>
    if name.isEmpty || ! name.all isNameChar then return none
    let (label, offset) ← optionalFrom '[' ']' text nameEnd
    let (attributes, offset) ← optionalFrom '\x7b' '\x7d' text offset
    return some (⟨String.ofList name, label.map String.ofList,
      Attributes.read (attributes.getD [])⟩, offset)

section

variable {opener closer : Char}

/-- Delimiters behind some text take it up to where they are read to. -/
theorem optionalFrom_eq (ho : IsAscii opener) (hc : IsAscii closer) (hne : closer ≠ opener)
    (front cs : List Char) :
    ∃ taken, cs = taken ++ (optional opener closer cs).2 ∧
      optionalFrom opener closer (front ++ cs) (byteLength front) =
        .ok ((optional opener closer cs).1, byteLength (front ++ taken)) := by
  rw [optionalFrom, splitAt?_byteLength, optional]
  dsimp only
  rw [findDelimited_eq ho]
  cases h : delimited? opener closer cs with
  | none =>
    refine ⟨[], rfl, ?_⟩
    rw [List.append_nil]
    rfl
  | some p =>
    obtain ⟨content, rest⟩ := p
    obtain ⟨rfl, -⟩ := (delimited?_eq_some_iff hne).mp h
    refine ⟨opener :: (content ++ [closer]), by simp, ?_⟩
    rw [byteLength_append, byteLength_delimited ho hc]
    rfl

/-- **Heads are read by offsets as they are read otherwise**, and take the text up to where the rest
begins. -/
theorem readOffsets_eq (text : List Char) :
    (read? text = none ∧ readOffsets text = .ok none) ∨
      ∃ head taken rest, text = taken ++ rest ∧ read? text = some (head, rest) ∧
        readOffsets text = .ok (some (head, byteLength taken)) := by
  obtain ⟨name, rest, rfl, hrun⟩ := Text.exists_run (! endsName ·) text
  have hname : slice? 0 (byteLength name) (name ++ rest) = some name := by
    have hcut := slice?_byteLength [] name rest
    rwa [byteLength, Nat.zero_add, List.nil_append] at hcut
  rw [read?, readOffsets, hrun.takeWhile, hrun.dropWhile]
  simp only [hname]
  split
  · exact .inl ⟨rfl, rfl⟩
  · obtain ⟨taken, hrest, hlabel⟩ :=
      @optionalFrom_eq '[' ']' (by decide) (by decide) (by decide) name rest
    obtain ⟨taken', hrest', hattributes⟩ :=
      @optionalFrom_eq '\x7b' '\x7d' (by decide) (by decide) (by decide)
        (name ++ taken) (optional '[' ']' rest).2
    rw [List.append_assoc, ← hrest] at hattributes
    refine .inr ⟨_, name ++ (taken ++ taken'), _, ?_, rfl, ?_⟩
    · rw [List.append_assoc, List.append_assoc, ← hrest', ← hrest]
    · simp only [hlabel, hattributes, bind, Except.bind, pure, Except.pure, List.append_assoc]

/-! ## All of it -/

/-- What there is to find between delimiters at the start of a text: what stands between matched
ones, and how many bytes these take with it, or nothing where none are matched. -/
def Finds (opener closer : Char) (text : List Char) : Option (List Char × Nat) → Prop
  | some (content, n) => ∃ front rest, text = front ++ rest ∧ Matched opener closer front ∧
      byteLength front = n ∧ front.tail.dropLast = content
  | none => ∀ front rest, text = front ++ rest → ¬ Matched opener closer front

/-- What is read between delimiters is what there is to find. -/
theorem finds_delimited? (ho : IsAscii opener) (hc : IsAscii closer) (hne : closer ≠ opener)
    {text : List Char} {found : Option (List Char × Nat)} :
    ((delimited? opener closer text).map fun p => (p.1, withDelimiters p.1)) = found ↔
      Finds opener closer text found := by
  -- delimiters that are matched are read, and take as many bytes as they have
  have hread {front : List Char} (rest : List Char) (hmatched : Matched opener closer front) :
      ((delimited? opener closer (front ++ rest)).map fun p => (p.1, withDelimiters p.1)) =
        some (front.tail.dropLast, byteLength front) := by
    obtain ⟨content, rfl, -⟩ := (matched_iff hne).mp hmatched
    have hdelimited : delimited? opener closer ((opener :: (content ++ [closer])) ++ rest) =
        some (content, rest) := (delimited?_eq_some_iff hne).mpr ⟨by simp, hmatched⟩
    rw [hdelimited, byteLength_delimited ho hc, List.tail_cons, List.dropLast_concat]
    rfl
  constructor
  · rintro rfl
    cases h : delimited? opener closer text with
    | none =>
      rintro front rest rfl hmatched
      have hsome := hread rest hmatched
      rw [h] at hsome
      cases hsome
    | some p =>
      obtain ⟨content, rest⟩ := p
      obtain ⟨rfl, hmatched⟩ := (delimited?_eq_some_iff hne).mp h
      refine ⟨_, rest, ?_, hmatched, byteLength_delimited ho hc content, List.dropLast_concat⟩
      rw [List.cons_append, List.append_assoc, List.singleton_append]
  · intro h
    cases found with
    | none =>
      cases hd : delimited? opener closer text with
      | none => rfl
      | some p =>
        obtain ⟨content, rest⟩ := p
        obtain ⟨rfl, hmatched⟩ := (delimited?_eq_some_iff hne).mp hd
        exact absurd hmatched (h _ rest (by simp))
    | some p =>
      obtain ⟨content, n⟩ := p
      obtain ⟨front, rest, rfl, hmatched, rfl, rfl⟩ := h
      exact hread rest hmatched

/-- What is found is balanced, and it is what the text has between its first byte and the last
before the offset that is found. -/
theorem Finds.cuts (ho : IsAscii opener) (hc : IsAscii closer) (hne : closer ≠ opener)
    {text content : List Char} {n : Nat} (h : Finds opener closer text (some (content, n))) :
    Balanced opener closer content ∧ slice? 1 (n - 1) text = some content ∧
      isBoundary n text = true := by
  obtain ⟨_, rest, rfl, hmatched, rfl, rfl⟩ := h
  obtain ⟨content, rfl, hbalanced⟩ := (matched_iff hne).mp hmatched
  refine ⟨?_, ?_, isBoundary_byteLength _ _⟩
  · rwa [List.tail_cons, List.dropLast_concat]
  · have hopener : byteLength [opener] = 1 := by
      rw [byteLength, byteLength, Text.utf8Size_ascii ho]
    have hcut := slice?_byteLength [opener] content (closer :: rest)
    have hstop : withDelimiters content - 1 = 1 + byteLength content := by
      rw [withDelimiters]
      omega
    rw [hopener] at hcut
    rw [byteLength_delimited ho hc, hstop, List.tail_cons, List.dropLast_concat]
    simpa using hcut

/-- **Delimiters that belong together are found.** For all delimiters of one byte and every text,
the search by offsets does not break off: the number of open delimiters stays above zero and all
cuts are between characters. It finds what is read, and that is what stands between the first
delimiters that are matched, with the number of bytes up to behind them, or nothing if none are.
What it finds is balanced. Heads, too, are read by offsets, and take no more bytes than there are,
up to the end of a character. -/
theorem findDelimited_finds (ho : IsAscii opener) (hc : IsAscii closer) (hne : closer ≠ opener)
    (text : List Char) :
    findDelimited opener closer text =
        .ok ((delimited? opener closer text).map fun p => (p.1, withDelimiters p.1)) ∧
      (∀ found, findDelimited opener closer text = .ok found ↔
        Finds opener closer text found) ∧
      (∀ content n, findDelimited opener closer text = .ok (some (content, n)) →
        Balanced opener closer content ∧ slice? 1 (n - 1) text = some content ∧
          isBoundary n text = true) ∧
      (∃ taken, readOffsets text = .ok taken) ∧
      ∀ head n, readOffsets text = .ok (some (head, n)) →
        n ≤ byteLength text ∧ isBoundary n text = true ∧
          ∃ front rest, splitAt? n text = some (front, rest) ∧ read? text = some (head, rest) := by
  have hfinds (found : Option (List Char × Nat)) :
      findDelimited opener closer text = .ok found ↔ Finds opener closer text found := by
    rw [findDelimited_eq ho, Except.ok.injEq]
    exact finds_delimited? ho hc hne
  refine ⟨findDelimited_eq ho text, hfinds,
    fun content n h => ((hfinds _).mp h).cuts ho hc hne, ?_, fun head n h => ?_⟩
  · rcases readOffsets_eq text with ⟨-, htaken⟩ | ⟨_, _, _, -, -, htaken⟩
    · exact ⟨_, htaken⟩
    · exact ⟨_, htaken⟩
  · rcases readOffsets_eq text with ⟨-, htaken⟩ | ⟨head', taken, rest, rfl, hread, htaken⟩
    · rw [htaken] at h
      cases h
    · rw [htaken] at h
      obtain ⟨rfl, rfl⟩ := Prod.mk.inj (Option.some.inj (Except.ok.inj h))
      refine ⟨?_, isBoundary_byteLength taken rest, taken, rest, splitAt?_byteLength taken rest,
        hread⟩
      rw [byteLength_append]
      exact Nat.le_add_right _ _

/-- Brackets in brackets, with characters of more than one byte in them and behind them. -/
theorem findDelimited_nested :
    IsAscii '[' ∧ IsAscii ']' ∧ ']' ≠ '[' ∧
      findDelimited '[' ']' "[a [é]] → rest".toList = .ok (some ("a [é]".toList, 8)) ∧
      Finds '[' ']' "[a [é]] → rest".toList (some ("a [é]".toList, 8)) ∧
      Finds '[' ']' "[é [a]".toList none := by
  have ho : IsAscii '[' := by decide
  have hc : IsAscii ']' := by decide
  have hne : ']' ≠ '[' := by decide
  obtain ⟨-, hfinds, -⟩ := findDelimited_finds ho hc hne "[a [é]] → rest".toList
  obtain ⟨-, hfinds', -⟩ := findDelimited_finds ho hc hne "[é [a]".toList
  have hfound : findDelimited '[' ']' "[a [é]] → rest".toList = .ok (some ("a [é]".toList, 8)) := by
    decide
  exact ⟨ho, hc, hne, hfound, (hfinds _).mp hfound, (hfinds' _).mp (by decide)⟩

end

end RichMarkdown.Head
