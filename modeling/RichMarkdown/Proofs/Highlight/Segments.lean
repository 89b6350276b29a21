import RichMarkdown.Highlight.Token

/-!
# Segments make up the code

Cutting a code text along tokens loses nothing and repeats nothing, whatever the tokens are: a token
that does not fit is passed over (`join_segments`). A token whose start is a cut has its gap before
it and is met again after the gap (`segmentsFrom_gap`, `segmentsFrom_start`).
-/

set_option autoImplicit false

namespace RichMarkdown

/-! ## Segments from a token on -/

section

variable {pos : Nat} {rest : List Char} {t : Token}

theorem Token.not_passed (hpos : pos ≤ t.start) (ht : t.start < t.stop) :
    ¬ (t.start < pos || decide (t.stop ≤ t.start)) = true := by
  simp only [Bool.or_eq_true, decide_eq_true_eq]
  omega

theorem Text.splitAt?_zero (cs : List Char) : Text.splitAt? 0 cs = some ([], cs) := by
  cases cs <;> rfl

/-- At the start of a token there is no gap. -/
theorem segmentsFrom_start {text after : List Char} (ht : t.start < t.stop)
    (hcut : Text.splitAt? (t.stop - t.start) rest = some (text, after)) (ts : List Token) :
    segmentsFrom t.start rest (t :: ts) =
      ⟨String.ofList text, some t.category⟩ :: segmentsFrom t.stop after ts := by
  simp only [segmentsFrom, if_neg (Token.not_passed (Nat.le_refl _) ht), Nat.sub_self,
    Text.splitAt?_zero, hcut, Segment.gap, List.nil_append]

theorem segmentsFrom_start_none (ht : t.start < t.stop)
    (hcut : Text.splitAt? (t.stop - t.start) rest = none) (ts : List Token) :
    segmentsFrom t.start rest (t :: ts) = segmentsFrom t.start rest ts := by
  simp only [segmentsFrom, if_neg (Token.not_passed (Nat.le_refl _) ht), Nat.sub_self,
    Text.splitAt?_zero, hcut, Segment.gap, List.nil_append]

/-- A token that is not passed over at once is met again after its gap. -/
theorem segmentsFrom_gap {gap fromStart : List Char} (hpos : pos ≤ t.start) (ht : t.start < t.stop)
    (hcut : Text.splitAt? (t.start - pos) rest = some (gap, fromStart)) (ts : List Token) :
    segmentsFrom pos rest (t :: ts) =
      Segment.gap gap ++ segmentsFrom t.start fromStart (t :: ts) := by
  simp only [segmentsFrom, if_neg (Token.not_passed hpos ht),
    if_neg (Token.not_passed (Nat.le_refl _) ht), Nat.sub_self, Text.splitAt?_zero, hcut,
    Segment.gap, List.nil_append]

end

/-! ## The text of the segments -/

theorem join_gap (cs : List Char) :
    String.join ((Segment.gap cs).map (·.text)) = String.ofList cs := by
  cases cs with
  | nil => rfl
  | cons c cs => simp [Segment.gap]

theorem join_segmentsFrom (tokens : List Token) (pos : Nat) (rest : List Char) :
    String.join ((segmentsFrom pos rest tokens).map (·.text)) = String.ofList rest := by
  induction tokens generalizing pos rest with
  | nil => exact join_gap rest
  | cons t ts ih =>
    simp only [segmentsFrom]
    split
    · exact ih pos rest
    · split
      · exact ih pos rest
      · rename_i before fromStart hb
        rw [List.map_append, String.join_append, join_gap, ← Text.append_of_splitAt? hb,
          String.ofList_append]
        congr 1
        split
        · exact ih t.start fromStart
        · rename_i text after ha
          rw [List.map_cons, String.join_cons, ih, ← Text.append_of_splitAt? ha,
            String.ofList_append]

/-- **The segments make up the code**, whatever the tokens are. -/
theorem join_segments (code : String) (tokens : List Token) :
    String.join ((segments code tokens).map (·.text)) = code := by
  rw [segments, join_segmentsFrom, String.ofList_toList]

end RichMarkdown
