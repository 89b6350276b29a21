import RichMarkdown.Proofs.Html.Shown
import RichMarkdown.Proofs.Html.Spans

/-!
# Highlighted pages

A highlighter adds spans to a page and changes nothing else. The walks with and without it go in
step: a reader who passes over the tags of highlighted words (`isHighlightTag`) sees the same pages
(`Unmarked`). Only code blocks write these tags, and there the segments make up the code, so without
them the code is left.

* `highlights_renderIn`: what is left of a highlighted page without its spans, and which spans its
  code blocks have.
-/

set_option autoImplicit false

namespace RichMarkdown.Html

/-! ## Tags of highlighted words -/

/-- Whether a tag starts a span for a token, or ends a span. -/
def isHighlightTag (inner : List Char) : Bool :=
  tokenStart.isPrefixOf inner || inner == endInner .span

/-- The lexemes of pieces apart from the tags of highlighted words. -/
def unmarked (ps : List Piece) : List Lexeme :=
  (ps.flatMap Piece.lexemes).filter (! ·.isTag isHighlightTag)

theorem unmarked_append (ps qs : List Piece) :
    unmarked (ps ++ qs) = unmarked ps ++ unmarked qs := by
  rw [unmarked, List.flatMap_append, List.filter_append]
  rfl

/-- No tag of another element is one of highlighted words. -/
theorem isTag_of_avoids {p : Piece} (h : p.avoids [.span]) :
    ∀ l ∈ p.lexemes, (! l.isTag isHighlightTag) = true := by
  cases p with
  | startTag tag attributes =>
    have hne : tag ≠ .span := fun he => by simp [Piece.avoids, he] at h
    have hstart : tokenStart.isPrefixOf (startInner tag attributes) = false := by
      rw [Bool.eq_false_iff]
      intro hp
      have hspan : spanStart <+: startInner tag attributes :=
        List.IsPrefix.trans (by decide) (List.isPrefixOf_iff_prefix.mp hp)
      rw [← List.isPrefixOf_iff_prefix, isPrefixOf_startInner hne] at hspan
      cases hspan
    have hend := startInner_ne_endInner tag .span attributes
    simp [Piece.lexemes, Lexeme.isTag, isHighlightTag, hstart, hend]
  | endTag tag =>
    have hne : tag ≠ .span := fun he => by simp [Piece.avoids, he] at h
    have hinner : tag ≠ .span → isHighlightTag (endInner tag) = false := by
      cases tag <;> decide
    simpa [Piece.lexemes, Lexeme.isTag] using hinner hne
  | text s => simp [Piece.lexemes, Lexeme.isTag]
  | raw s => cases h

theorem unmarked_of_avoids {ps : List Piece} (h : ps.all (Piece.avoids [.span])) :
    unmarked ps = ps.flatMap Piece.lexemes := by
  refine List.filter_eq_self.mpr fun l hl => ?_
  obtain ⟨p, hp, hl⟩ := List.mem_flatMap.mp hl
  exact isTag_of_avoids (List.all_eq_true.mp h p hp) l hl

/-- Without its tags, a segment is its text. -/
theorem unmarked_segmentPieces (x : Segment) :
    unmarked (segmentPieces x) = (escapeChars x.text.toList).map .char := by
  have htext : unmarked [.text x.text] = (escapeChars x.text.toList).map .char := by
    rw [unmarked_of_avoids rfl]
    exact List.append_nil _
  unfold segmentPieces
  split
  · rename_i category _
    have hinner : isHighlightTag (startInner .span [attr "class" category.cssClass]) = true := by
      rw [startInner_span, isHighlightTag, Bool.or_eq_true]
      exact .inl (List.isPrefixOf_iff_prefix.mpr (List.prefix_append _ _))
    have hstart : unmarked [classTag .span category.cssClass] = [] := by
      simp [unmarked, Piece.lexemes, classTag, Lexeme.isTag, hinner]
    have hend : unmarked [Piece.endTag .span] = [] := by decide
    have hsplit : [classTag .span category.cssClass, .text x.text, .endTag .span] =
        [classTag .span category.cssClass] ++ ([.text x.text] ++ [.endTag .span]) := rfl
    rw [hsplit, unmarked_append, unmarked_append, hstart, hend, htext, List.nil_append,
      List.append_nil]
  · exact htext

/-- Without the tags of highlighted words, code is its text. -/
theorem unmarked_codePieces (settings : Settings) (language : Option String) (literal : String) :
    unmarked (codePieces settings language literal) =
      (escapeChars literal.toList).map .char := by
  have hjoin := congrArg String.toList (join_codeSegments settings.highlighter language literal)
  rw [codePieces_eq, ← hjoin]
  generalize codeSegments settings.highlighter language literal = xs
  induction xs with
  | nil => rfl
  | cons x xs ih =>
    rw [List.flatMap_cons, unmarked_append, unmarked_segmentPieces, ih, List.map_cons,
      String.join_cons, String.toList_append, escapeChars_append, List.map_append]

theorem unmarked_codeBlock (settings : Settings) (language : Option String) (literal : String) :
    unmarked (codeBlock settings language literal) =
      (codeBlock { settings with highlighter := none } language literal).flatMap Piece.lexemes := by
  have hplain : (codePieces { settings with highlighter := none } language literal).flatMap
      Piece.lexemes = (escapeChars literal.toList).map .char := List.append_nil _
  rw [codeBlock, codeBlock, unmarked_append, unmarked_append, unmarked_codePieces,
    List.flatMap_append, List.flatMap_append, hplain, unmarked_of_avoids rfl,
    unmarked_of_avoids rfl]

/-! ## Walks in step -/

/-- The second page is the first without the tags of highlighted words. -/
structure Unmarked (s t : PageState) : Prop where
  openAlerts : s.openAlerts = t.openAlerts
  pieces : unmarked s.pieces.toList = t.pieces.toList.flatMap Piece.lexemes

theorem Unmarked.write {s t : PageState} (h : Unmarked s t) {ps qs : List Piece}
    (hp : unmarked ps = qs.flatMap Piece.lexemes) : Unmarked (s.write ps) (t.write qs) where
  openAlerts := h.openAlerts
  pieces := by
    rw [toList_pieces_write, toList_pieces_write, unmarked_append, List.flatMap_append, h.pieces,
      hp]

/-- Pieces that avoid the tags of spans are the same on both pages. -/
theorem Unmarked.write_avoiding {s t : PageState} (h : Unmarked s t) {ps : List Piece}
    (hp : ps.all (Piece.avoids [.pre, .span])) : Unmarked (s.write ps) (t.write ps) :=
  h.write (unmarked_of_avoids (all_avoids_mono (by decide) hp))

theorem Unmarked.openDirective {s t : PageState} (h : Unmarked s t) (f : Frame) :
    Unmarked (s.openDirective f) (t.openDirective f) := by
  cases f with
  | directive head => exact ⟨congrArg (_ :: ·) h.openAlerts, h.pieces⟩
  | _ => exact h

theorem Unmarked.closeDirective {s t : PageState} (h : Unmarked s t) :
    Unmarked s.closeDirective t.closeDirective := by
  have htail : Unmarked { s with openAlerts := t.openAlerts.tail }
      { t with openAlerts := t.openAlerts.tail } := ⟨rfl, h.pieces⟩
  simp only [PageState.closeDirective, h.openAlerts]
  split
  · exact htail.write_avoiding rfl
  · exact htail

/-- **A highlighter adds the tags of highlighted words and nothing else**, at every visit. -/
theorem simulation_unmarked (settings : Settings) :
    Walk.Simulation (backend settings) (backend { settings with highlighter := none })
      (fun l => isRaw l = false) Unmarked where
  leaf := by
    intro c l s t hr h
    cases l with
    | codeBlock language literal => exact h.write (unmarked_codeBlock settings language literal)
    | inlineHtml t => cases hr
    | htmlBlock t => cases hr
    | _ => exact h.write_avoiding rfl
  space := rfl
  start := by
    intro c f s t h
    have hstart : startPieces { settings with highlighter := none } f = startPieces settings f := by
      cases f <;> rfl
    simp only [backend, hstart]
    cases f.defaultFlow with
    | skip => exact ⟨rfl, h⟩
    | enter => exact ⟨rfl, (h.openDirective f).write_avoiding (startPieces_avoid settings f)⟩
  finish := by
    intro c f s t h
    have hclose := closingPieces_avoid f
    cases f with
    | directive head => exact h.closeDirective
    | _ => exact h.write_avoiding hclose

/-! ## Pages -/

/-- The spans in a code block when a highlighter answers with some tokens: one for each token that
is not empty, in order, with its class around the escaped text of its range, when the tokens fit,
and none when they do not. -/
def SpansOf (tokens : List Token) (literal : String) (found : List (String × String)) : Prop :=
  match Token.check literal tokens with
  | .ok _ =>
    List.Forall₂
      (fun span t => span.1 = t.category.cssClass ∧ (t.text? literal).map escape = some span.2)
      found (tokens.filter fun t => t.start < t.stop)
  | .error _ => found = []

theorem spansOf_codeContent (settings : Settings) (h : Highlighter) (language : Option String)
    (literal : String) :
    SpansOf (h.tokenize literal language) literal
      (spans ((codeContent { settings with highlighter := some h } language literal).flatMap
        Piece.lexemes)) := by
  have hcovers := covers_codeSegments h language literal
  rw [spans_codeContent]
  unfold Token.CoversAll at hcovers
  unfold SpansOf
  cases hc : Token.check literal (h.tokenize literal language) with
  | ok =>
    simp only [hc] at hcovers
    refine List.forall₂_map_left_iff.mpr (hcovers.imp fun x t hx => ⟨?_, ?_⟩)
    · rw [hx.category]
    · rw [hx.text]
      rfl
  | error fault =>
    simp only [hc] at hcovers
    simp only [hcovers, List.map_nil]

/-- **A highlighter adds spans to a page and changes nothing else.** Without the tags of highlighted
words the page is the one without a highlighter, and the code blocks of the page, which are those
that the document shows, have the spans of the tokens that the highlighter gives for them. -/
theorem highlights_renderIn (settings : Settings) (h : Highlighter) {d : Document}
    (hd : NoRawMarkup d) (c : Context) :
    let highlighted := (renderIn { settings with highlighter := some h } d c).1.toList
    deleteTags isHighlightTag highlighted =
        (renderIn { settings with highlighter := none } d c).1.toList ∧
      List.Forall₂ (fun b found => SpansOf (h.tokenize b.2 b.1) b.2 found) (shownCode d)
        ((codeBlocks (lexemes highlighted)).map spans) := by
  intro highlighted
  have hsound := pagePieces_sound { settings with highlighter := some h } hd c
  have hpage : lexemes highlighted =
      (pagePieces { settings with highlighter := some h } d c).flatMap Piece.lexemes :=
    lexemes_render hsound
  constructor
  · have hwalks := simulation_unmarked { settings with highlighter := some h }
    obtain ⟨⟨-, hpieces⟩, -⟩ := hwalks.document hd c (s := {}) (t := {}) ⟨rfl, rfl⟩
    rw [deleteTags, hpage, renderIn_eq,
      ← writeLexemes_flatMap (pagePieces_sound { settings with highlighter := none } hd c)]
    exact congrArg writeLexemes hpieces
  · have hcode := (reads_pagePieces { settings with highlighter := some h } hd c).code []
    rw [List.append_nil, ← hpage] at hcode
    rw [hcode]
    simp only [codeLexemes, codeBlocks, List.append_nil, List.map_map]
    refine List.forall₂_map_right_iff.mpr (List.forall₂_same.mpr fun b _ => ?_)
    exact spansOf_codeContent settings h b.1 b.2

/-- A highlighter whose tokens fit code in a known language only. -/
def fussy : Highlighter where
  tokenize _ language :=
    if language.isSome then [⟨0, 2, .keyword⟩, ⟨2, 2, .comment⟩, ⟨3, 4, .operator⟩]
    else [⟨3, 4, .operator⟩, ⟨0, 2, .keyword⟩]
  supports _ := true

def twoBlocks : Document := [.code (some "rust") "if <", .quote none [.code none "if <"]]

theorem highlights_twoBlocks :
    let highlighted := (renderIn { highlighter := some fussy } twoBlocks {}).1.toList
    NoRawMarkup twoBlocks ∧
      deleteTags isHighlightTag highlighted = (renderIn {} twoBlocks {}).1.toList ∧
      (codeBlocks (lexemes highlighted)).map spans =
        [[("token-keyword", "if"), ("token-operator", "&lt;")], []] := by
  intro highlighted
  have h : NoRawMarkup twoBlocks := by
    simp [NoRawMarkup, twoBlocks, blocksEveryLeaf, Block.EveryLeaf, isRaw]
  obtain ⟨hdeleted, -⟩ := highlights_renderIn {} fussy h {}
  exact ⟨h, hdeleted, by decide +kernel⟩

end RichMarkdown.Html
