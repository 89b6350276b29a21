import Mathlib.Data.List.Forall2
import RichMarkdown.Highlight.Highlighter
import RichMarkdown.Proofs.Highlight.Fits
import RichMarkdown.Proofs.Highlight.Segments
import RichMarkdown.Proofs.Text.Bytes

/-!
# Segments of tokens that fit

When tokens fit a code text, each token that is not empty has a segment of its own, with its
category and exactly the text of its range, and the segments are in the order of the tokens
(`covers_segments`). The segments are cut off one after the other, so the induction is on the tokens
and keeps the part of the code that is cut off. Tokens that do not fit leave the code in one piece:
`codeSegments` are the segments in which a code text is rendered.

* `covers_codeSegments`: which segments of rendered code are covered, for any answer of a
  highlighter.
-/

set_option autoImplicit false

namespace RichMarkdown

/-! ## Cuts of the rest of a text -/

namespace Text

/-- A cut after a part of a text is a cut of the rest. -/
theorem splitAt?_append (a cs : List Char) (n : Nat) :
    splitAt? (byteLength a + n) (a ++ cs) = (splitAt? n cs).map fun p => (a ++ p.1, p.2) := by
  induction a with
  | nil => simp [byteLength]
  | cons c a ih =>
    have hc := c.utf8Size_pos
    obtain ⟨m, hm⟩ : ∃ m, byteLength (c :: a) + n = m + 1 :=
      Nat.exists_eq_add_one.mpr (Nat.add_pos_left (byteLength_pos (List.cons_ne_nil c a)) n)
    rw [byteLength] at hm
    have hle : c.utf8Size ≤ m + 1 := by omega
    have hsub : m + 1 - c.utf8Size = byteLength a + n := by omega
    rw [byteLength, hm, List.cons_append, splitAt?, if_pos hle, hsub, ih, Option.map_map]
    rfl

/-- A boundary that is not before a part of a text cuts the rest. -/
theorem exists_of_isBoundary_append {a cs : List Char} {n : Nat} (hn : byteLength a ≤ n)
    (h : isBoundary n (a ++ cs) = true) : ∃ b c, cs = b ++ c ∧ byteLength (a ++ b) = n := by
  obtain ⟨m, rfl⟩ := Nat.exists_eq_add_of_le hn
  rw [isBoundary, splitAt?_append, Option.isSome_map] at h
  obtain ⟨⟨b, c⟩, hbc⟩ := Option.isSome_iff_exists.mp h
  refine ⟨b, c, (append_of_splitAt? hbc).symm, ?_⟩
  rw [byteLength_append, byteLength_of_splitAt? hbc]

end Text

/-! ## Tokens and their segments -/

/-- The category and the text of a segment that a token covers. -/
def Segment.covered? (s : Segment) : Option (Category × String) :=
  s.category.map fun category => (category, s.text)

theorem covered_gap (cs : List Char) : (Segment.gap cs).filterMap Segment.covered? = [] := by
  cases cs <;> rfl

namespace Token

/-- Whether a token has any text. -/
def isProper (t : Token) : Bool := t.start < t.stop

/-- A category and a text are those of a token. -/
structure Covers (code : String) (x : Category × String) (t : Token) : Prop where
  category : x.1 = t.category
  text : t.text? code = some x.2

theorem firstFault?_mono {code : List Char} {previous later : Nat} (hle : previous ≤ later)
    {ts : List Token} (h : firstFault? code later ts = none) :
    firstFault? code previous ts = none := by
  rw [firstFault?_eq_none_iff] at h ⊢
  exact ⟨fun t ht => Nat.le_trans hle (h.1 t ht), h.2⟩

/-- A token that fits cuts the rest of a code text in three: what is before it, its text and what
comes after. -/
theorem Fits.exists_cut {code : String} {t : Token} (h : t.Fits code.toList)
    {before rest : List Char} (hcode : code.toList = before ++ rest)
    (hstart : Text.byteLength before ≤ t.start) :
    ∃ gap text after, rest = gap ++ (text ++ after) ∧ Text.byteLength (before ++ gap) = t.start ∧
      Text.byteLength text = t.stop - t.start ∧ t.text? code = some (String.ofList text) := by
  obtain ⟨gap, fromStart, rfl, hgap⟩ := Text.exists_of_isBoundary_append hstart (hcode ▸ h.start)
  rw [← List.append_assoc] at hcode
  obtain ⟨text, after, rfl, htext⟩ :=
    Text.exists_of_isBoundary_append (hgap ▸ h.ordered) (hcode ▸ h.stop)
  rw [Text.byteLength_append, hgap] at htext
  have hslice := Text.slice?_byteLength (before ++ gap) text after
  rw [hgap, htext, ← hcode] at hslice
  refine ⟨gap, text, after, rfl, hgap, by omega, ?_⟩
  rw [text?, hslice]
  rfl

/-- A token with some text is cut out of the rest of a code text. -/
theorem segmentsFrom_cut {before gap text after : List Char} {t : Token} (ht : t.start < t.stop)
    (hgap : Text.byteLength (before ++ gap) = t.start)
    (htext : Text.byteLength text = t.stop - t.start) (ts : List Token) :
    segmentsFrom (Text.byteLength before) (gap ++ (text ++ after)) (t :: ts) =
      Segment.gap gap ++ ⟨String.ofList text, some t.category⟩ :: segmentsFrom t.stop after ts := by
  have hpos : Text.byteLength before ≤ t.start := by
    rw [← hgap, Text.byteLength_append]
    omega
  have hstart : Text.splitAt? (t.start - Text.byteLength before) (gap ++ (text ++ after)) =
      some (gap, text ++ after) := by
    rw [← hgap, Text.byteLength_append, Nat.add_sub_cancel_left, Text.splitAt?_byteLength]
  have hstop : Text.splitAt? (t.stop - t.start) (text ++ after) = some (text, after) := by
    rw [← htext, Text.splitAt?_byteLength]
  rw [segmentsFrom_gap hpos ht hstart, segmentsFrom_start ht hstop]

theorem segmentsFrom_pass {pos : Nat} {t : Token} (ht : ¬ t.start < t.stop) (rest : List Char)
    (ts : List Token) : segmentsFrom pos rest (t :: ts) = segmentsFrom pos rest ts := by
  have hguard : (t.start < pos || decide (t.stop ≤ t.start)) = true := by
    simp only [Bool.or_eq_true, decide_eq_true_eq]
    omega
  rw [segmentsFrom, if_pos hguard]

theorem covers_segmentsFrom (code : String) (tokens : List Token) {before rest : List Char}
    (hcode : code.toList = before ++ rest)
    (h : firstFault? code.toList (Text.byteLength before) tokens = none) :
    List.Forall₂ (Covers code)
      ((segmentsFrom (Text.byteLength before) rest tokens).filterMap Segment.covered?)
      (tokens.filter isProper) := by
  induction tokens generalizing before rest with
  | nil =>
    rw [segmentsFrom, covered_gap]
    exact .nil
  | cons t ts ih =>
    obtain ⟨hstart, hfits, hrest⟩ := (firstFault?_cons _ _ t ts).mp h
    rw [List.filter_cons]
    by_cases ht : t.start < t.stop
    · obtain ⟨gap, text, after, rfl, hgap, htext, hslice⟩ := hfits.exists_cut hcode hstart
      have hstop : Text.byteLength (before ++ gap ++ text) = t.stop := by
        rw [Text.byteLength_append, hgap, htext]
        omega
      have hnext := ih (by simpa using hcode) (hstop ▸ hrest)
      rw [hstop] at hnext
      rw [segmentsFrom_cut ht hgap htext, List.filterMap_append, covered_gap, List.nil_append,
        if_pos (by simpa [isProper] using ht)]
      exact .cons ⟨rfl, hslice⟩ hnext
    · rw [segmentsFrom_pass ht, if_neg (by simpa [isProper] using ht)]
      exact ih hcode (firstFault?_mono (Nat.le_trans hstart hfits.ordered) hrest)

/-- **Tokens that fit have their segments**: those that are not empty, in order, each with its
category and the text of its range. -/
theorem covers_segments {code : String} {tokens : List Token} (h : check code tokens = .ok ()) :
    List.Forall₂ (Covers code) ((segments code tokens).filterMap Segment.covered?)
      (tokens.filter isProper) := by
  have hfault : firstFault? code.toList 0 tokens = none := by
    rw [check] at h
    split at h
    · cases h
    · assumption
  exact covers_segmentsFrom code tokens (List.nil_append _).symm hfault

/-- What is covered in code for which a highlighter answers with some tokens: the range of each
token that is not empty when the tokens fit, and nothing when they do not. -/
def CoversAll (code : String) (tokens : List Token) (covered : List (Category × String)) : Prop :=
  match check code tokens with
  | .ok _ => List.Forall₂ (Covers code) covered (tokens.filter isProper)
  | .error _ => covered = []

end Token

/-! ## Rendered code -/

/-- The segments in which a code text is rendered; without tokens that fit, it is one piece. -/
def codeSegments (highlighter : Option Highlighter) (language : Option String)
    (literal : String) : List Segment :=
  match highlighter.bind (·.fittingTokens? literal language) with
  | some tokens => segments literal tokens
  | none => [⟨literal, none⟩]

/-- The segments in which a code text is rendered make up the code text. -/
theorem join_codeSegments (highlighter : Option Highlighter) (language : Option String)
    (literal : String) :
    String.join ((codeSegments highlighter language literal).map (·.text)) = literal := by
  unfold codeSegments
  split
  · exact join_segments literal _
  · simp

/-- **What is covered in rendered code.** -/
theorem covers_codeSegments (h : Highlighter) (language : Option String) (literal : String) :
    Token.CoversAll literal (h.tokenize literal language)
      ((codeSegments (some h) language literal).filterMap Segment.covered?) := by
  cases ht : h.tokenize literal language with
  | nil =>
    have hfit : h.fittingTokens? literal language = none := by
      simp only [Highlighter.fittingTokens?, ht]
    simp only [codeSegments, Option.bind_some, hfit]
    exact .nil
  | cons t ts =>
    unfold Token.CoversAll
    cases hc : Token.check literal (t :: ts) with
    | ok =>
      have hfit : h.fittingTokens? literal language = some (t :: ts) := by
        simp only [Highlighter.fittingTokens?, ht, hc]
      simp only [codeSegments, Option.bind_some, hfit]
      exact Token.covers_segments hc
    | error fault =>
      have hfit : h.fittingTokens? literal language = none := by
        simp only [Highlighter.fittingTokens?, ht, hc]
      simp only [codeSegments, Option.bind_some, hfit]
      rfl

end RichMarkdown
