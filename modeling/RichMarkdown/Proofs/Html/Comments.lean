import RichMarkdown.Proofs.Html.Telling
import RichMarkdown.Render.PlainText
import RichMarkdown.Styled.Render

/-!
# Comments in renderings

What the renderings of a document show (`Outcome`) is settled by the document apart from its
comments and by the texts that are read flat. A comment has a part in these texts, so it shows in
the heading, the image or the title of a call-out that holds it.

* `outcome_eq_iff`: documents that are alike apart from their comments have the same outcome exactly
  when their flat texts are the same.
-/

set_option autoImplicit false

namespace RichMarkdown.Html

/-! ## Layouts -/

theorem layoutStart_alike {τ : Type} (k : Layout.Sink τ) {f f' : Frame} {ts ts' : List String}
    (h : f.Alike f' ts ts') (s : Layout.State τ) : Layout.start k f s = Layout.start k f' s := by
  cases h <;> rfl

theorem discreet_layout {τ : Type} (k : Layout.Sink τ) (colors : Option Layout.CodeColors) :
    Walk.Discreet (Layout.backend k colors) where
  start c s hf _ := by
    simp only [Layout.backend, hf.defaultFlow_eq, layoutStart_alike k hf]
  finish c s hf _ := by cases hf <;> rfl
  comment c s hf := by simp only [Layout.backend, hf]

/-! ## What shows -/

/-- What the renderings of a document show. -/
structure Outcome where
  html : String
  text : String
  styled : StyledText
  title : Option String
  toc : List TocEntry

/-- What the renderings of a document from a context show. -/
def outcome (settings : Settings) (styled : Styled.Settings) (d : Document) (c : Context) :
    Outcome :=
  let (html, after) := renderIn settings d c
  { html
    text := (PlainText.renderIn d c).1
    styled := (Styled.renderIn styled d c).1
    title := after.title
    toc := after.toc }

theorem outcome_congr (settings : Settings) (styled : Styled.Settings) {d d' : Document}
    (hd : BlocksAlike d d') (h : blocksFlatTexts d = blocksFlatTexts d') (c : Context) :
    outcome settings styled d c = outcome settings styled d' c := by
  simp only [outcome, renderIn, PlainText.renderIn, Styled.renderIn, Layout.renderIn,
    (discreet settings).document_eq hd h, (discreet_layout _ _).document_eq hd h]

/-! ## Outcomes -/

/-- **Comments show in flat texts only, and there they do.** Documents that are alike apart from
their comments have the same outcome exactly when the same texts are read flat from both. -/
theorem outcome_eq_iff {d d' : Document} (hd : BlocksAlike d d') (settings : Settings)
    (styled : Styled.Settings) (c : Context) :
    outcome settings styled d c = outcome settings styled d' c ↔
      blocksFlatTexts d = blocksFlatTexts d' := by
  refine ⟨fun h => ?_, fun h => outcome_congr settings styled hd h c⟩
  obtain ⟨hnear, hback⟩ := (tells_comparison settings).blocks hd ⟨c, {}⟩ ⟨c, {}⟩ (.refl _)
  have hpieces := hnear.pieces.eq_of_render_eq (congrArg Outcome.html h)
  exact (hback ⟨Array.toList_inj.mp hpieces, congrArg Outcome.title h, congrArg Outcome.toc h⟩).2

/-- Two documents with different comments between and inside their paragraphs. -/
def remarked (remark : String) : Document :=
  [.heading 1 [.text "Title"],
    .directive ⟨"Comment", .container, [.text remark], {}⟩ [.heading 1 [.text remark]],
    .paragraph [.text "Body", .directive "comment" {} [.footnote remark]],
    .paragraph [.image "a.png" "" [.text "Picture"]]]

theorem outcome_remarked :
    BlocksAlike (remarked "one") (remarked "two") ∧
      outcome {} {} (remarked "one") {} = outcome {} {} (remarked "two") {} := by
  have hbody : Inline.Alike (.directive "comment" {} [.footnote "one"])
      (.directive "comment" {} [.footnote "two"]) := .comment _ _ _ _ (by decide)
  have h : BlocksAlike (remarked "one") (remarked "two") :=
    .cons (.heading 1 (.cons (.text _) .nil)) <|
    .cons (.comment _ _ _ _ _ _ _ (by decide)) <|
    .cons (.paragraph (.cons (.text _) (.cons hbody .nil))) <|
    .cons (.paragraph (.cons (.image _ _ (.cons (.text _) .nil)) .nil)) .nil
  exact ⟨h, (outcome_eq_iff h {} {} {}).mpr (by decide)⟩

/-- A heading with a comment in it. -/
def remarkedHeading (remark : String) : Document :=
  [.heading 1 [.text "Title", .directive "comment" {} [.text remark]]]

/-- The title of a document includes the comments in its heading. -/
theorem not_outcome_eq :
    ¬ ∀ (settings : Settings) (styled : Styled.Settings) (d d' : Document) (c : Context),
      BlocksAlike d d' → outcome settings styled d c = outcome settings styled d' c := by
  intro h
  have halike : BlocksAlike (remarkedHeading " secret") (remarkedHeading "") :=
    .cons (.heading 1 (.cons (.text _) (.cons (.comment _ _ _ _ (by decide)) .nil))) .nil
  have htitle := congrArg Outcome.title (h {} {} _ _ {} halike)
  revert htitle
  decide +kernel

end RichMarkdown.Html
