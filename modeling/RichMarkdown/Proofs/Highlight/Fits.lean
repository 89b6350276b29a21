import RichMarkdown.Highlight.Token

/-!
# Tokens that fit

A token fits a code text when it lies in the code and both its ends are between characters
(`Token.Fits`); a list of tokens is apart when each token ends before all later ones start
(`Token.Apart`).

* `check_eq_ok_iff`: checking a list finds no fault exactly when all tokens fit and are apart.
-/

set_option autoImplicit false

namespace RichMarkdown.Token

/-- A token in bounds, with both ends between characters. -/
structure Fits (code : List Char) (t : Token) : Prop where
  ordered : t.start ≤ t.stop
  bounded : t.stop ≤ Text.byteLength code
  start : Text.isBoundary t.start code = true
  stop : Text.isBoundary t.stop code = true

/-- Tokens in order, none of which reaches into another. -/
def Apart (tokens : List Token) : Prop := tokens.Pairwise fun t u => t.stop ≤ u.start

theorem apart_cons (t : Token) (ts : List Token) :
    Apart (t :: ts) ↔ (∀ u ∈ ts, t.stop ≤ u.start) ∧ Apart ts :=
  List.pairwise_cons

theorem firstFault?_cons (code : List Char) (previous : Nat) (t : Token) (ts : List Token) :
    firstFault? code previous (t :: ts) = none ↔
      previous ≤ t.start ∧ t.Fits code ∧ firstFault? code t.stop ts = none := by
  rw [firstFault?]
  split
  · rename_i h
    simp only [Bool.or_eq_true, decide_eq_true_eq] at h
    refine ⟨nofun, fun ⟨_, hf, _⟩ => ?_⟩
    have := hf.ordered
    have := hf.bounded
    omega
  rename_i h
  simp only [Bool.or_eq_true, decide_eq_true_eq, not_or, Nat.not_lt] at h
  split
  · exact ⟨nofun, fun ⟨hp, _⟩ => by omega⟩
  split
  · rename_i hs
    refine ⟨nofun, fun ⟨_, hf, _⟩ => ?_⟩
    rw [hf.start] at hs
    cases hs
  split
  · rename_i hs
    refine ⟨nofun, fun ⟨_, hf, _⟩ => ?_⟩
    rw [hf.stop] at hs
    cases hs
  rename_i hp hstart hstop
  simp only [Bool.not_eq_true', Bool.not_eq_false] at hstart hstop
  exact ⟨fun hn => ⟨Nat.not_lt.mp hp, ⟨h.1, h.2, hstart, hstop⟩, hn⟩, fun hn => hn.2.2⟩

theorem firstFault?_eq_none_iff (code : List Char) (tokens : List Token) (previous : Nat) :
    firstFault? code previous tokens = none ↔
      (∀ t ∈ tokens, previous ≤ t.start) ∧ (∀ t ∈ tokens, t.Fits code) ∧ Apart tokens := by
  induction tokens generalizing previous with
  | nil => simp [firstFault?, Apart]
  | cons t ts ih =>
    rw [firstFault?_cons, ih, List.forall_mem_cons, List.forall_mem_cons, apart_cons]
    constructor
    · rintro ⟨hp, hf, hts, hfs, hapart⟩
      refine ⟨⟨hp, fun u hu => ?_⟩, ⟨hf, hfs⟩, hts, hapart⟩
      have := hf.ordered
      have := hts u hu
      omega
    · rintro ⟨⟨hp, -⟩, ⟨hf, hfs⟩, hts, hapart⟩
      exact ⟨hp, hf, hts, hfs, hapart⟩

/-- **A check finds no fault** exactly when all tokens fit and are apart. -/
theorem check_eq_ok_iff (code : String) (tokens : List Token) :
    check code tokens = .ok () ↔ (∀ t ∈ tokens, t.Fits code.toList) ∧ Apart tokens := by
  have h := firstFault?_eq_none_iff code.toList tokens 0
  rw [check]
  cases hf : firstFault? code.toList 0 tokens with
  | none => exact ⟨fun _ => (h.mp hf).2, fun _ => rfl⟩
  | some fault =>
    refine ⟨nofun, fun hok => ?_⟩
    rw [h.mpr ⟨fun _ _ => Nat.zero_le _, hok⟩] at hf
    cases hf

end RichMarkdown.Token
