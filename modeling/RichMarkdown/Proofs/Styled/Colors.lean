import Mathlib.Data.List.Forall2
import RichMarkdown.Proofs.Html.Nesting
import RichMarkdown.Proofs.Html.Spans
import RichMarkdown.Proofs.Styled.Letters
import RichMarkdown.Proofs.Theme.Reading

/-!
# The colours of code

Code is coloured by spans and a stylesheet on a page, and by the styles of its runs in styled text.
Both come from the same segments, so they can be compared character by character (`ShownAlike`).

* `colors_agree`: a character of code has the same colour and slant in both.
-/

set_option autoImplicit false

namespace RichMarkdown

/-! ## Pages -/

/-- The letters of the page of a code block are those of its segments, each with its class. -/
theorem Html.letters_code (settings : Html.Settings) (language : Option String)
    (literal : String) (c : Context) :
    letters (lexemes (renderIn settings [.code language literal] c).1.toList) =
      (codeSegments settings.highlighter language literal).flatMap fun x =>
        x.text.toList.map (·, segmentClass? x) := by
  have hpage : (renderIn settings [.code language literal] c).1 =
      render (codeBlock settings language literal) := by
    simp [renderIn, Walk.document, Walk.blocks, Walk.block, Walk.leaf, backend, leafPieces,
      PageState.write]
  have hlexemes : (codeBlock settings language literal).flatMap Piece.lexemes =
      .tag (startInner .pre []) ::
        ((codeContent settings language literal).flatMap Piece.lexemes ++
          [.tag (endInner .pre)]) := by
    rw [codeBlock_eq, List.flatMap_cons, List.flatMap_append]
    rfl
  have hempty (cls : Option String) : Stretch.letters ⟨cls, []⟩ = [] := rfl
  rw [hpage, lexemes_render (balanced_codeBlock settings language literal).sound, hlexemes,
    lexemes_codeContent, letters, List.cons_append, List.append_assoc, stretchesFrom,
    classAfter_other (by decide), stretchesFrom, classAfter_other (by decide), List.flatMap_cons,
    List.flatMap_cons, hempty, List.nil_append, List.nil_append]
  exact (letters_segments _ [] _ _).trans (List.append_nil _)

/-! ## Both -/

/-- The letters of segments, line feeds apart. -/
def segmentLetters {α : Type} (f : Segment → α) (xs : List Segment) : List (Char × α) :=
  xs.flatMap fun x => (x.text.toList.filter (· ≠ '\n')).map (·, f x)

theorem withoutFeeds_map {α : Type} (cs : List Char) (a : α) :
    withoutFeeds (cs.map (·, a)) = (cs.filter (· ≠ '\n')).map (·, a) := by
  rw [withoutFeeds, List.filter_map]
  rfl

/-- A character is shown alike by a page with a stylesheet, where it has the class of the span
around it, and in styled text. -/
def ShownAlike (css : String) (mode : ColorMode) (x : Char × Option String) (y : Char × TextStyle) :
    Prop :=
  x.1 = y.1 ∧
    match x.2 with
    | none => y.2.foreground = none ∧ y.2.italic = false
    | some cls => ∃ name color, cls = "token-" ++ name ∧
        (declaredValues css mode.path ("--syntax-" ++ name)).map Color.ofHex = [.ok color] ∧
        declaredValues css ["." ++ cls] "color" = ["var(" ++ ("--syntax-" ++ name) ++ ")"] ∧
        y.2.foreground = some color ∧
        (y.2.italic = true ↔ declaredValues css ["." ++ cls] "font-style" = ["italic"])

/-- The stylesheet of a theme and the style of a segment agree. -/
theorem alike_segment (theme : Theme) (mode : ColorMode) (x : Segment) (c : Char) :
    ShownAlike theme.stylesheet mode (c, Html.segmentClass? x)
      (c, Layout.State.segmentStyle theme mode { monospace := true } x) := by
  refine ⟨rfl, ?_⟩
  cases hx : x.category with
  | none => simp [Html.segmentClass?, Layout.State.segmentStyle, hx]
  | some category =>
    simp only [Html.segmentClass?, Layout.State.segmentStyle, hx, Option.map_some, Bool.false_or]
    refine ⟨category.name, theme.resolve mode category, rfl, ?_,
      declaredValues_rule theme category, rfl, ?_⟩
    · have hcolor := congrArg (List.map Color.ofHex) (declaredValues_color theme category mode)
      rwa [List.map_singleton, Color.ofHex_toHex] at hcolor
    · rw [declaredValues_style]
      cases category.isItalic <;> simp

theorem forall₂_segmentLetters {α β : Type} {R : Char × α → Char × β → Prop} {f : Segment → α}
    {g : Segment → β} (h : ∀ x c, R (c, f x) (c, g x)) (xs : List Segment) :
    List.Forall₂ R (segmentLetters f xs) (segmentLetters g xs) := by
  induction xs with
  | nil => exact .nil
  | cons x xs ih =>
    refine List.rel_append ?_ ih
    exact List.forall₂_map_left_iff.mpr
      (List.forall₂_map_right_iff.mpr (List.forall₂_same.mpr fun c _ => h x c))

theorem map_segmentLetters {α : Type} (f : Segment → α) (xs : List Segment) :
    (segmentLetters f xs).map (·.1) =
      (String.join (xs.map (·.text))).toList.filter (· ≠ '\n') := by
  induction xs with
  | nil => rfl
  | cons x xs ih =>
    rw [segmentLetters, List.flatMap_cons, List.map_append, ← segmentLetters, ih, List.map_cons,
      String.join_cons, String.toList_append, List.filter_append, List.map_map]
    congr 1
    exact List.map_id _

/-- **Pages, stylesheets and styled text give code the same colours.** Whatever highlights it, the
characters of a code block other than line feeds are the same on its page and in styled text, each
outside of all spans and without a colour and a slant, or in a span of a class whose colour and
slant in the stylesheet of the theme are those of its style. -/
theorem colors_agree (settings : Styled.Settings) (anchors : Bool) (language : Option String)
    (literal : String) (c : Context) :
    let page := Html.renderIn ⟨settings.highlighter, anchors⟩ [.code language literal] c
    let shown := withoutFeeds (Html.letters (Html.lexemes page.1.toList))
    let styled := withoutFeeds (Styled.renderIn settings [.code language literal] c).1.letters
    shown.map (·.1) = literal.toList.filter (· ≠ '\n') ∧
      List.Forall₂ (ShownAlike settings.theme.stylesheet c.mode) shown styled := by
  intro page shown styled
  have hshown : shown = segmentLetters Html.segmentClass?
      (codeSegments settings.highlighter language literal) := by
    show withoutFeeds (Html.letters _) = _
    rw [Html.letters_code, withoutFeeds, List.filter_flatMap]
    exact List.flatMap_congr fun x _ => withoutFeeds_map _ _
  have hstyled : styled = segmentLetters
      (Layout.State.segmentStyle settings.theme c.mode { monospace := true })
      (codeSegments settings.highlighter language literal) := by
    show withoutFeeds (Styled.renderIn _ _ _).1.letters = _
    rw [Styled.letters_code]
    exact List.flatMap_congr fun x _ => withoutFeeds_map _ _
  rw [hshown, hstyled]
  constructor
  · rw [map_segmentLetters, join_codeSegments]
  · exact forall₂_segmentLetters (alike_segment settings.theme c.mode) _

end RichMarkdown
