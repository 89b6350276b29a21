import RichMarkdown.Proofs.Highlight.Covered
import RichMarkdown.Proofs.Highlight.Views

/-!
# Segments one at a time

Segments are asked for one by one. Between two calls a cursor keeps the position in the code and the
tokens still to come; a token of which only the gap before it was given out is put back
(`Cursor.pending`). A call goes over tokens until it has a segment and passes over those that it
cannot use. Its texts are slices of the code, which could fail at an offset inside a character.

After each call the cursor stands between two characters (`nextAmong_answers`), so the slice of what
is left does not fail and there are as many calls as there are `segments` (`run_segmentsFrom`). For
what it gives out a call uses up at most one token, and none that comes before one used already
(`Gives`).

* `yields_segments_iff`: what the calls give out, for any tokens and for tokens that fit.
-/

set_option autoImplicit false

namespace RichMarkdown

open Scanner (At Fault textBetween)

/-- Where the giving out of segments stands. -/
structure Cursor where
  pos : Nat := 0
  /-- A token that is used again, since only the gap before it was given out. -/
  pending : Option Token := none
  tokens : List Token

namespace Cursor

/-- The tokens that a call can use. -/
def waiting (c : Cursor) : List Token := c.pending.toList ++ c.tokens

/-- A call at a position with tokens to use. It gives out nothing once the code is used up. -/
def nextAmong (code : List Char) (pos : Nat) :
    List Token → Except Fault (Option Segment × Cursor)
  | [] =>
    if pos < Text.byteLength code then do
      let text ← textBetween code pos (Text.byteLength code)
      return (some ⟨String.ofList text, none⟩, ⟨Text.byteLength code, none, []⟩)
    else .ok (none, ⟨pos, none, []⟩)
  | t :: ts =>
    if t.start < pos || t.stop ≤ t.start then nextAmong code pos ts
    else if pos < t.start then
      match Text.slice? pos t.start code with
      | none => nextAmong code pos ts
      | some gap => .ok (some ⟨String.ofList gap, none⟩, ⟨t.start, some t, ts⟩)
    else
      match Text.slice? t.start t.stop code with
      | none => nextAmong code pos ts
      | some text => .ok (some ⟨String.ofList text, some t.category⟩, ⟨t.stop, none, ts⟩)

/-- One call. -/
def next (code : List Char) (c : Cursor) : Except Fault (Option Segment × Cursor) :=
  nextAmong code c.pos c.waiting

/-- The calls from a cursor on end, after finitely many, with a call that gives out nothing or with
a fault. -/
inductive Yields (code : List Char) : Cursor → Except Fault (List Segment) → Prop
  | done {c d : Cursor} : c.next code = .ok (none, d) → Yields code c (.ok [])
  | fault {c : Cursor} {fault : Fault} : c.next code = .error fault → Yields code c (.error fault)
  | more {c d : Cursor} {s : Segment} {answer : Except Fault (List Segment)} :
    c.next code = .ok (some s, d) → Yields code d answer → Yields code c (answer.map (s :: ·))

theorem Yields.unique {code : List Char} {c : Cursor} {answer other : Except Fault (List Segment)}
    (h : Yields code c answer) (h' : Yields code c other) : answer = other := by
  induction h generalizing other with
  | done hc => cases h' <;> simp_all
  | fault hc => cases h' <;> simp_all
  | more hc _ ih =>
    cases h' with
    | done hc' => simp_all
    | fault hc' => simp_all
    | more hc' hd =>
      rw [hc] at hc'
      obtain ⟨rfl, rfl⟩ : _ = _ ∧ _ = _ := by simpa using hc'
      rw [ih hd]

/-! ## One call -/

/-- What a call gives out of the tokens `here` and leaves to later ones: a segment with some text,
covered by the first of the tokens that it uses up, if by any. -/
structure Gives (code : String) (here : List Token) (s : Segment) (left : List Token) : Prop where
  nonempty : s.text ≠ ""
  used : ∃ used, (used ++ left).Sublist here ∧
    List.Forall₂ (Token.Covers code) s.covered?.toList used

theorem Gives.pass {code : String} {here left : List Token} {s : Segment}
    (h : Gives code here s left) (t : Token) : Gives code (t :: here) s left := by
  obtain ⟨used, hsub, hused⟩ := h.used
  exact ⟨h.nonempty, used, hsub.cons t, hused⟩

/-- The answer of a call that can use some tokens, and the segments of the rest of the code. After
the call the segments are those from the cursor on. -/
inductive Answer (code : String) (here : List Token) :
    Except Fault (Option Segment × Cursor) → List Segment → Prop
  | done {c : Cursor} : Answer code here (.ok (none, c)) []
  | gives {s : Segment} {c : Cursor} {before rest : List Char} :
    At code.toList c.pos before rest → Gives code here s c.waiting →
    Answer code here (.ok (some s, c)) (s :: segmentsFrom c.pos rest c.waiting)

theorem Answer.pass {code : String} {here : List Token} {segments : List Segment}
    {answer : Except Fault (Option Segment × Cursor)} (h : Answer code here answer segments)
    (t : Token) : Answer code (t :: here) answer segments := by
  cases h with
  | done => exact .done
  | gives hat hgives => exact .gives hat (hgives.pass t)

/-! ### Cuts ahead of a cursor -/

section

variable {code before rest : List Char} {pos stop : Nat}

theorem ofList_ne_empty {cs : List Char} (h : 0 < Text.byteLength cs) :
    String.ofList cs ≠ "" := by
  intro hcs
  rw [String.ofList_eq_empty_iff.mp hcs] at h
  exact Nat.lt_irrefl 0 h

/-- A slice from where a cursor stands is a cut of what is ahead of it. -/
theorem slice?_eq_map (h : At code pos before rest) (hstop : pos ≤ stop) :
    Text.slice? pos stop code = (Text.splitAt? (stop - pos) rest).map Prod.fst := by
  have hcut : Text.splitAt? pos code = some (before, rest) := by
    rw [h.code, h.pos, Text.splitAt?_byteLength]
  rw [Text.slice?, if_neg (Nat.not_lt.mpr hstop), hcut]
  dsimp only [Option.bind_eq_bind, Option.bind_some]
  cases Text.splitAt? (stop - pos) rest <;> rfl

/-- A cursor that moves on to a cut stands between two characters again. -/
theorem at_of_splitAt? {a b : List Char} (h : At code pos before rest) (hstop : pos ≤ stop)
    (hcut : Text.splitAt? (stop - pos) rest = some (a, b)) : At code stop (before ++ a) b := by
  have hlength := Text.byteLength_of_splitAt? hcut
  rw [← Text.append_of_splitAt? hcut] at h
  have hat := h.advance
  rwa [hlength, Nat.add_sub_cancel' hstop] at hat

theorem byteLength_pos_of_splitAt? {a b : List Char} (hstop : pos < stop)
    (hcut : Text.splitAt? (stop - pos) rest = some (a, b)) : 0 < Text.byteLength a := by
  rw [Text.byteLength_of_splitAt? hcut]
  omega

end

/-! ### The answer -/

section

variable {code : String} {before rest : List Char} {pos : Nat}

theorem gap_eq_singleton {cs : List Char} (h : 0 < Text.byteLength cs) :
    Segment.gap cs = [⟨String.ofList cs, none⟩] := by
  cases cs with
  | nil => cases h
  | cons c cs => rfl

theorem Gives.gap {cs : List Char} (h : 0 < Text.byteLength cs) (here : List Token) :
    Gives code here ⟨String.ofList cs, none⟩ here :=
  ⟨ofList_ne_empty h, [], List.Sublist.refl _, .nil⟩

theorem Gives.token {t : Token} {text : List Char} (h : 0 < Text.byteLength text)
    (htext : Text.slice? t.start t.stop code.toList = some text) (ts : List Token) :
    Gives code (t :: ts) ⟨String.ofList text, some t.category⟩ ts := by
  have hcovers : Token.Covers code (t.category, String.ofList text) t := by
    refine ⟨rfl, ?_⟩
    rw [Token.text?, htext]
    rfl
  exact ⟨ofList_ne_empty h, [t], List.Sublist.refl _, .cons hcovers .nil⟩

/-- Without tokens a call gives out all that is ahead. -/
theorem nextAmong_nil (h : At code.toList pos before rest) :
    Answer code [] (nextAmong code.toList pos []) (segmentsFrom pos rest []) := by
  rw [nextAmong, h.byteLength_eq, segmentsFrom]
  cases rest with
  | nil =>
    rw [if_neg (by exact Nat.lt_irrefl pos)]
    exact .done
  | cons c cs =>
    have hlength := Text.byteLength_pos (List.cons_ne_nil c cs)
    rw [← List.append_nil (c :: cs)] at h
    rw [if_pos (by omega), Scanner.textBetween_eq h]
    exact .gives (c := ⟨_, none, []⟩) h.advance (.gap hlength [])

/-- A call at the start of a token gives out its text. -/
theorem nextAmong_start {t : Token} {text after : List Char}
    (h : At code.toList t.start before rest) (ht : t.start < t.stop)
    (hcut : Text.splitAt? (t.stop - t.start) rest = some (text, after)) (ts : List Token) :
    Answer code (t :: ts) (nextAmong code.toList t.start (t :: ts))
      (segmentsFrom t.start rest (t :: ts)) := by
  have hslice := slice?_eq_map h (Nat.le_of_lt ht)
  rw [hcut] at hslice
  rw [segmentsFrom_start ht hcut, nextAmong, if_neg (Token.not_passed (Nat.le_refl _) ht),
    if_neg (Nat.lt_irrefl _), hslice]
  have hnext := at_of_splitAt? h (Nat.le_of_lt ht) hcut
  exact .gives (c := ⟨t.stop, none, ts⟩) hnext
    (.token (byteLength_pos_of_splitAt? ht hcut) hslice ts)

/-- A call before the start of a token gives out the gap, and puts the token back. -/
theorem nextAmong_gap {t : Token} {gap fromStart : List Char} (h : At code.toList pos before rest)
    (hpos : pos < t.start) (ht : t.start < t.stop)
    (hcut : Text.splitAt? (t.start - pos) rest = some (gap, fromStart)) (ts : List Token) :
    Answer code (t :: ts) (nextAmong code.toList pos (t :: ts))
      (segmentsFrom pos rest (t :: ts)) := by
  have hlength := byteLength_pos_of_splitAt? hpos hcut
  rw [segmentsFrom_gap (Nat.le_of_lt hpos) ht hcut, gap_eq_singleton hlength, nextAmong,
    if_neg (Token.not_passed (Nat.le_of_lt hpos) ht), if_pos hpos,
    slice?_eq_map h (Nat.le_of_lt hpos), hcut]
  exact .gives (c := ⟨t.start, some t, ts⟩) (at_of_splitAt? h (Nat.le_of_lt hpos) hcut)
    (.gap hlength (t :: ts))

/-- A token that a call cannot use is passed over, in the segments as well. -/
theorem nextAmong_pass {t : Token} (h : At code.toList pos before rest) (hpos : pos ≤ t.start)
    (ht : t.start < t.stop)
    (hcut : Text.splitAt? ((if pos < t.start then t.start else t.stop) - pos) rest = none)
    (ts : List Token) :
    nextAmong code.toList pos (t :: ts) = nextAmong code.toList pos ts ∧
      segmentsFrom pos rest (t :: ts) = segmentsFrom pos rest ts := by
  rw [nextAmong, if_neg (Token.not_passed hpos ht)]
  split at hcut
  · rename_i hgap
    rw [if_pos hgap, slice?_eq_map h hpos, hcut, segmentsFrom,
      if_neg (Token.not_passed hpos ht), hcut]
    exact ⟨rfl, rfl⟩
  · obtain rfl : pos = t.start := by omega
    rw [if_neg (Nat.lt_irrefl _), slice?_eq_map h (Nat.le_of_lt ht), hcut]
    exact ⟨rfl, segmentsFrom_start_none ht hcut ts⟩

/-- **A call answers** with the first of the segments of the code ahead, if there is one. -/
theorem nextAmong_answers (h : At code.toList pos before rest) (tokens : List Token) :
    Answer code tokens (nextAmong code.toList pos tokens) (segmentsFrom pos rest tokens) := by
  induction tokens with
  | nil => exact nextAmong_nil h
  | cons t ts ih =>
    by_cases hpass : (t.start < pos || decide (t.stop ≤ t.start)) = true
    · rw [nextAmong, if_pos hpass, segmentsFrom, if_pos hpass]
      exact ih.pass t
    obtain ⟨hpos, ht⟩ : pos ≤ t.start ∧ t.start < t.stop := by
      simpa only [Bool.or_eq_true, decide_eq_true_eq, not_or, Nat.not_lt, Nat.not_le] using hpass
    cases hcut : Text.splitAt? ((if pos < t.start then t.start else t.stop) - pos) rest with
    | none =>
      obtain ⟨hcall, hsegments⟩ := nextAmong_pass h hpos ht hcut ts
      rw [hcall, hsegments]
      exact ih.pass t
    | some p =>
      split at hcut
      · exact nextAmong_gap h ‹_› ht hcut ts
      · obtain rfl : pos = t.start := by omega
        exact nextAmong_start h ht hcut ts

end

/-! ## All calls -/

/-- What the calls from a cursor on give out. -/
structure Run (code : String) (c : Cursor) (segments : List Segment) : Prop where
  yields : Yields code.toList c (.ok segments)
  nonempty : ∀ s ∈ segments, s.text ≠ ""
  used : ∃ used, used.Sublist c.waiting ∧
    List.Forall₂ (Token.Covers code) (segments.filterMap Segment.covered?) used

theorem Run.more {code : String} {c d : Cursor} {s : Segment} {ss : List Segment}
    (hnext : c.next code.toList = .ok (some s, d)) (hgives : Gives code c.waiting s d.waiting)
    (h : Run code d ss) : Run code c (s :: ss) := by
  obtain ⟨used, hsub, hused⟩ := hgives.used
  obtain ⟨later, hlater, hcovers⟩ := h.used
  refine ⟨.more hnext h.yields, List.forall_mem_cons.mpr ⟨hgives.nonempty, h.nonempty⟩,
    used ++ later, (hlater.append_left used).trans hsub, ?_⟩
  have hcovered : (s :: ss).filterMap Segment.covered? =
      s.covered?.toList ++ ss.filterMap Segment.covered? := by
    rw [List.filterMap_cons]
    cases s.covered? <;> rfl
  rw [hcovered]
  exact List.rel_append hused hcovers

/-- **The calls give out the segments** of the code ahead. The induction is on these segments: there
is one fewer of them after each call. -/
theorem run_segmentsFrom {code : String} {segments : List Segment} {c : Cursor}
    {before rest : List Char} (h : At code.toList c.pos before rest)
    (hsegments : segmentsFrom c.pos rest c.waiting = segments) : Run code c segments := by
  have hanswer := nextAmong_answers h c.waiting
  rw [hsegments] at hanswer
  generalize hnext : nextAmong code.toList c.pos c.waiting = answer at hanswer
  induction segments generalizing c before rest answer with
  | nil =>
    cases hanswer with
    | done => exact ⟨.done hnext, nofun, [], List.nil_sublist _, .nil⟩
  | cons s ss ih =>
    cases hanswer with
    | gives hat hgives =>
      exact .more hnext hgives (ih hat rfl _ rfl (nextAmong_answers hat _))

/-- **What asking for all segments gives**, for any tokens. The calls end without a fault and give
out the segments; these make up the code, none of them is empty, and those that are covered are
covered by some of the tokens, in order. When the tokens fit, these are all those that are not
empty. -/
theorem yields_segments_iff (code : String) (tokens : List Token) :
    (∀ answer, Yields code.toList ⟨0, none, tokens⟩ answer ↔
      answer = .ok (segments code tokens)) ∧
    String.join ((segments code tokens).map (·.text)) = code ∧
    (∀ s ∈ segments code tokens, s.text ≠ "") ∧
    (∃ used, used.Sublist tokens ∧ List.Forall₂ (Token.Covers code)
      ((segments code tokens).filterMap Segment.covered?) used) ∧
    (Token.check code tokens = .ok () → List.Forall₂ (Token.Covers code)
      ((segments code tokens).filterMap Segment.covered?) (tokens.filter Token.isProper)) := by
  have hrun : Run code ⟨0, none, tokens⟩ (segments code tokens) :=
    run_segmentsFrom (At.start code.toList) rfl
  refine ⟨fun answer => ⟨fun h => h.unique hrun.yields, ?_⟩, join_segments code tokens,
    hrun.nonempty, hrun.used, Token.covers_segments⟩
  rintro rfl
  exact hrun.yields

/-- A key and its value; an empty token between them takes no segment. -/
theorem yields_segments_key :
    Token.check "k: é" [⟨0, 1, .property⟩, ⟨2, 2, .keyword⟩, ⟨3, 5, .string⟩] = .ok () ∧
    List.Forall₂ (Token.Covers "k: é")
      ((segments "k: é" [⟨0, 1, .property⟩, ⟨2, 2, .keyword⟩, ⟨3, 5, .string⟩]).filterMap
        Segment.covered?)
      [⟨0, 1, .property⟩, ⟨3, 5, .string⟩] := by
  have hcheck : Token.check "k: é"
      [⟨0, 1, .property⟩, ⟨2, 2, .keyword⟩, ⟨3, 5, .string⟩] = .ok () := by
    decide
  exact ⟨hcheck, (yields_segments_iff _ _).2.2.2.2 hcheck⟩

end Cursor

end RichMarkdown
