import Mathlib.Data.List.Chain
import RichMarkdown.Proofs.Highlight.Fits
import RichMarkdown.Proofs.Text.Bytes

/-!
# The first fault of a list of tokens

A check goes through the tokens once and compares each with the one before it only. So the fault
that it reports is that of the first token which is out of bounds, reaches back into the token
before it or has an end inside a character (`Token.Breaks`). Since no token that passes ends before
it starts, that is enough to tell any two tokens of the list apart (`apart_iff_isChain`).

* `check_iff`: which lists have no fault, and which fault is reported of all others.
-/

set_option autoImplicit false

namespace RichMarkdown

/-- The offset is that of a place between two characters of the text, or of one of its ends. -/
def Text.Between (cs : List Char) (offset : Nat) : Prop :=
  ∃ a b, cs = a ++ b ∧ Text.byteLength a = offset

theorem Text.isBoundary_iff {cs : List Char} {offset : Nat} :
    Text.isBoundary offset cs = true ↔ Text.Between cs offset := by
  constructor
  · intro h
    obtain ⟨⟨a, b⟩, hab⟩ := Option.isSome_iff_exists.mp h
    exact ⟨a, b, (Text.append_of_splitAt? hab).symm, Text.byteLength_of_splitAt? hab⟩
  · rintro ⟨a, b, rfl, rfl⟩
    exact Text.isBoundary_byteLength a b

namespace Token

/-- A token that does not end before it starts, nor after the code. -/
structure InBounds (code : List Char) (t : Token) : Prop where
  ordered : t.start ≤ t.stop
  bounded : t.stop ≤ Text.byteLength code

/-- What is wrong with a token after one that ends at `previous`. A token out of bounds is told as
such, whatever else is wrong with it, and an overlap is told before an end inside a character. -/
inductive Breaks (code : List Char) (previous : Nat) (t : Token) : TokenFault → Prop
  | outOfBounds : ¬ t.InBounds code →
    Breaks code previous t (.outOfBounds t.start t.stop (Text.byteLength code))
  | overlap : t.InBounds code → t.start < previous →
    Breaks code previous t (.overlap previous t.start)
  | start : t.InBounds code → previous ≤ t.start → ¬ Text.Between code t.start →
    Breaks code previous t (.notBoundary t.start)
  | stop : t.InBounds code → previous ≤ t.start → Text.Between code t.start →
    ¬ Text.Between code t.stop → Breaks code previous t (.notBoundary t.stop)

/-- A token in bounds, with both ends between characters. -/
def Meets (code : List Char) (t : Token) : Prop :=
  t.InBounds code ∧ Text.Between code t.start ∧ Text.Between code t.stop

theorem fits_iff {code : List Char} {t : Token} : t.Fits code ↔ t.Meets code := by
  constructor
  · intro h
    exact ⟨⟨h.ordered, h.bounded⟩, Text.isBoundary_iff.mp h.start, Text.isBoundary_iff.mp h.stop⟩
  · rintro ⟨hbounds, hstart, hstop⟩
    exact ⟨hbounds.ordered, hbounds.bounded, Text.isBoundary_iff.mpr hstart,
      Text.isBoundary_iff.mpr hstop⟩

theorem inBounds_iff {code : List Char} {t : Token} :
    (t.stop < t.start || Text.byteLength code < t.stop) = false ↔ t.InBounds code := by
  rw [Bool.or_eq_false_iff, decide_eq_false_iff_not, decide_eq_false_iff_not, Nat.not_lt,
    Nat.not_lt]
  exact ⟨fun h => ⟨h.1, h.2⟩, fun h => ⟨h.ordered, h.bounded⟩⟩

/-- A token that breaks something is not passed over. -/
theorem Breaks.not_meets {code : List Char} {previous : Nat} {t : Token} {fault : TokenFault}
    (h : Breaks code previous t fault) (hprevious : previous ≤ t.start) : ¬ t.Meets code := by
  rintro ⟨hbounds, hstart, hstop⟩
  cases h with
  | outOfBounds h => exact h hbounds
  | overlap _ h => omega
  | start _ _ h => exact h hstart
  | stop _ _ _ h => exact h hstop

/-- What is told of a token does not depend on those after it. -/
theorem Breaks.firstFault?_cons {code : List Char} {previous : Nat} {t : Token}
    {fault : TokenFault} (h : Breaks code previous t fault) (ts : List Token) :
    firstFault? code previous (t :: ts) = some fault := by
  rw [firstFault?]
  cases h with
  | outOfBounds h => rw [if_pos (by rwa [← Bool.not_eq_false, inBounds_iff])]
  | overlap hbounds h => rw [if_neg (by simpa using inBounds_iff.mpr hbounds), if_pos h]
  | start hbounds hprevious h =>
    rw [← Text.isBoundary_iff] at h
    rw [if_neg (by simpa using inBounds_iff.mpr hbounds), if_neg (by omega),
      if_pos (by simpa using h)]
  | stop hbounds hprevious hstart h =>
    rw [← Text.isBoundary_iff] at h hstart
    rw [if_neg (by simpa using inBounds_iff.mpr hbounds), if_neg (by omega),
      if_neg (by simpa using hstart), if_pos (by simpa using h)]

/-- A token that breaks nothing is in its place. -/
theorem exists_breaks {code : List Char} {previous : Nat} {t : Token}
    (h : ¬ (previous ≤ t.start ∧ t.Meets code)) : ∃ fault, Breaks code previous t fault := by
  by_cases hbounds : t.InBounds code
  · by_cases hprevious : previous ≤ t.start
    · by_cases hstart : Text.Between code t.start
      · by_cases hstop : Text.Between code t.stop
        · exact absurd ⟨hprevious, hbounds, hstart, hstop⟩ h
        · exact ⟨_, .stop hbounds hprevious hstart hstop⟩
      · exact ⟨_, .start hbounds hprevious hstart⟩
    · exact ⟨_, .overlap hbounds (Nat.lt_of_not_le hprevious)⟩
  · exact ⟨_, .outOfBounds hbounds⟩

theorem firstFault?_cons_eq {code : List Char} {previous : Nat} {t : Token}
    (hprevious : previous ≤ t.start) (hmeets : t.Meets code) (ts : List Token) :
    firstFault? code previous (t :: ts) = firstFault? code t.stop ts := by
  rw [firstFault?, if_neg (by simpa using inBounds_iff.mpr hmeets.1), if_neg (by omega),
    if_neg (by simpa using Text.isBoundary_iff.mpr hmeets.2.1),
    if_neg (by simpa using Text.isBoundary_iff.mpr hmeets.2.2)]

/-- The end of the last of some tokens, or of what is before them. -/
def lastStop (previous : Nat) (tokens : List Token) : Nat :=
  (tokens.getLast?.map Token.stop).getD previous

theorem lastStop_cons (previous : Nat) (t : Token) (ts : List Token) :
    lastStop previous (t :: ts) = lastStop t.stop ts := by
  cases ts with
  | nil => rfl
  | cons u us => rw [lastStop, lastStop, List.getLast?_cons_cons]; rfl

/-- The first fault is told of a token that comes after tokens without a fault. -/
theorem firstFault?_eq_some_iff {code : List Char} {tokens : List Token} {previous : Nat}
    {fault : TokenFault} :
    firstFault? code previous tokens = some fault ↔
      ∃ front t back, tokens = front ++ t :: back ∧ firstFault? code previous front = none ∧
        Breaks code (lastStop previous front) t fault := by
  induction tokens generalizing previous with
  | nil => simp [firstFault?]
  | cons t ts ih =>
    by_cases h : previous ≤ t.start ∧ t.Meets code
    · rw [firstFault?_cons_eq h.1 h.2, ih]
      constructor
      · rintro ⟨front, u, back, rfl, hfront, hu⟩
        refine ⟨t :: front, u, back, rfl, ?_, ?_⟩
        · rwa [firstFault?_cons_eq h.1 h.2]
        · rwa [lastStop_cons]
      · rintro ⟨_ | ⟨t', front⟩, u, back, heq, hfront, hu⟩
        · obtain ⟨rfl, rfl⟩ := List.cons_eq_cons.mp heq
          exact absurd h.2 (hu.not_meets h.1)
        · obtain ⟨rfl, rfl⟩ := List.cons_eq_cons.mp heq
          rw [firstFault?_cons_eq h.1 h.2] at hfront
          rw [lastStop_cons] at hu
          exact ⟨front, u, back, rfl, hfront, hu⟩
    · obtain ⟨fault', hfault'⟩ := exists_breaks h
      rw [hfault'.firstFault?_cons]
      constructor
      · rintro ⟨⟩
        exact ⟨[], t, ts, rfl, rfl, hfault'⟩
      · rintro ⟨_ | ⟨t', front⟩, u, back, heq, hfront, hu⟩
        · obtain ⟨rfl, rfl⟩ := List.cons_eq_cons.mp heq
          exact (hfault'.firstFault?_cons ts).symm.trans (hu.firstFault?_cons ts)
        · obtain ⟨rfl, rfl⟩ := List.cons_eq_cons.mp heq
          rw [hfault'.firstFault?_cons] at hfront
          cases hfront

/-- Each token ends before all later ones start if it ends before the next one starts, since none
ends before it starts. -/
theorem apart_iff_isChain {tokens : List Token} (h : ∀ t ∈ tokens, t.start ≤ t.stop) :
    Apart tokens ↔ tokens.IsChain fun t u => t.stop ≤ u.start := by
  refine ⟨List.Pairwise.isChain, fun hchain => ?_⟩
  induction tokens with
  | nil => exact .nil
  | cons t ts ih =>
    have hts := ih (fun u hu => h u (.tail _ hu)) hchain.tail
    refine (apart_cons t ts).mpr ⟨fun u hu => ?_, hts⟩
    cases ts with
    | nil => cases hu
    | cons v vs =>
      have htv : t.stop ≤ v.start := (List.isChain_cons_cons.mp hchain).1
      rcases List.mem_cons.mp hu with rfl | hu
      · exact htv
      · have hv := h v (.tail _ (.head _))
        have hvu := ((apart_cons v vs).mp hts).1 u hu
        omega

theorem firstFault?_zero_eq_none_iff {code : List Char} {tokens : List Token} :
    firstFault? code 0 tokens = none ↔ (∀ t ∈ tokens, t.Meets code) ∧ Apart tokens := by
  rw [firstFault?_eq_none_iff]
  constructor
  · rintro ⟨-, hfits, hapart⟩
    exact ⟨fun t ht => fits_iff.mp (hfits t ht), hapart⟩
  · rintro ⟨hmeets, hapart⟩
    exact ⟨fun _ _ => Nat.zero_le _, fun t ht => fits_iff.mpr (hmeets t ht), hapart⟩

/-- **What checking a list of tokens says.** It finds no fault exactly when every token is in bounds
with both its ends between characters and each token ends before all later ones start. It reports a
fault exactly when this is what is wrong with some token after the one before it, and all tokens
before that one are in their places. -/
theorem check_iff (code : String) (tokens : List Token) :
    (check code tokens = .ok () ↔
      (∀ t ∈ tokens, t.Meets code.toList) ∧ tokens.Pairwise fun t u => t.stop ≤ u.start) ∧
    ∀ fault, check code tokens = .error fault ↔
      ∃ front t back, tokens = front ++ t :: back ∧
        ((∀ u ∈ front, u.Meets code.toList) ∧ front.IsChain fun u v => u.stop ≤ v.start) ∧
        Breaks code.toList (lastStop 0 front) t fault := by
  have hok : check code tokens = .ok () ↔ firstFault? code.toList 0 tokens = none := by
    rw [check]
    cases firstFault? code.toList 0 tokens <;> simp
  have herror (fault : TokenFault) :
      check code tokens = .error fault ↔ firstFault? code.toList 0 tokens = some fault := by
    rw [check]
    cases firstFault? code.toList 0 tokens <;> simp
  refine ⟨hok.trans firstFault?_zero_eq_none_iff, fun fault => ?_⟩
  rw [herror, firstFault?_eq_some_iff]
  refine exists_congr fun front => exists_congr fun t => exists_congr fun back =>
    and_congr_right fun _ => and_congr_left fun _ => ?_
  rw [firstFault?_zero_eq_none_iff]
  exact and_congr_right fun h => apart_iff_isChain fun u hu => (h u hu).1.ordered

end Token

end RichMarkdown
