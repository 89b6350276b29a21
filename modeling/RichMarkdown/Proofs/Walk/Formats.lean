import RichMarkdown.Html.Page
import RichMarkdown.Proofs.Walk.Calls
import RichMarkdown.Render.PlainText
import RichMarkdown.Styled.Render

/-!
# Formats

A backend has no part in the numbers of footnotes and the anchors of headings but by what it skips.
Backends that skip alike are told the same in the same contexts (`Walk.Alike.calls_eq`), and all
formats skip comments and nothing else.

* `renderings_agree`: the renderings of a document as a page, as plain text and as styled text are
  told the same and leave the same context behind.
-/

set_option autoImplicit false

namespace RichMarkdown

namespace Walk

variable {σ τ : Type}

/-- Two backends that skip the same frames, whatever they have made so far. -/
def Alike (b : Backend σ) (b' : Backend τ) : Prop :=
  ∀ c f s t, (b.start c f s).1 = (b'.start c f t).1

namespace Alike

variable {b : Backend σ} {b' : Backend τ} (h : Alike b b')
include h

theorem simulation :
    Simulation b.recording b'.recording (fun _ => True) fun s t => s.2 = t.2 where
  leaf {c l s t} _ hst := congrArg (· ++ [Call.mk c (.leaf l)]) hst
  space := trivial
  start {c f s t} hst := by
    have hflow := h c f s.1 t.1
    refine ⟨hflow, ?_⟩
    simp only [Backend.recording, hst, hflow]
  finish {c f s t} hst := congrArg (· ++ [Call.mk c (.finish f)]) hst

/-- Backends that skip alike are told the same. -/
theorem calls_eq (d : Document) (c : Context) (out : σ) (out' : τ) :
    calls b d c out = calls b' d c out' :=
  (h.simulation.document (blocksEveryLeaf_of_forall (fun _ => trivial) d) c rfl).1

/-- Backends that skip alike leave the same context behind. -/
theorem context_eq (d : Document) (c : Context) (out : σ) (out' : τ) :
    (document b d c out).2 = (document b' d c out').2 := by
  rw [← (document_recording b d c out []).2, ← (document_recording b' d c out' []).2]
  exact (h.simulation.document (blocksEveryLeaf_of_forall (fun _ => trivial) d) c rfl).2

end Alike

end Walk

/-! ## Pages and layouts -/

theorem Html.flow_start (settings : Html.Settings) (c : Context) (f : Frame) (s : Html.PageState) :
    ((Html.backend settings).start c f s).1 = f.defaultFlow := by
  simp only [Html.backend]
  cases f.defaultFlow <;> rfl

theorem Layout.flow_start {τ : Type} (k : Layout.Sink τ) (colors : Option Layout.CodeColors)
    (c : Context) (f : Frame) (s : Layout.State τ) :
    ((Layout.backend k colors).start c f s).1 = f.defaultFlow := by
  simp only [Layout.backend]
  cases f.defaultFlow <;> rfl

/-- What is told to the backend of a page. -/
def Html.calls (settings : Html.Settings) (d : Document) (c : Context) : List Call :=
  Walk.calls (Html.backend settings) d c {}

/-- What is told to the backend of a plain text. -/
def PlainText.calls (d : Document) (c : Context) : List Call :=
  Walk.calls (Layout.backend PlainText.sink none) d c { out := "" }

/-- What is told to the backend of a styled text. -/
def Styled.calls (settings : Styled.Settings) (d : Document) (c : Context) : List Call :=
  Walk.calls (Layout.backend Styled.sink settings.codeColors) d c { out := {} }

/-- **The formats agree.** From one context, a document leaves the same context behind as a page, as
plain text and as styled text, whatever highlights code, and on the way all three are told the same:
the same nodes with the same numbers and anchors. -/
theorem renderings_agree (page : Html.Settings) (styled : Styled.Settings) (d : Document)
    (c : Context) :
    (Html.renderIn page d c).2 = (PlainText.renderIn d c).2 ∧
      (Styled.renderIn styled d c).2 = (PlainText.renderIn d c).2 ∧
      Html.calls page d c = PlainText.calls d c ∧
      Styled.calls styled d c = PlainText.calls d c := by
  have hpage : Walk.Alike (Html.backend page) (Layout.backend PlainText.sink none) :=
    fun c f s t => (Html.flow_start page c f s).trans (Layout.flow_start _ _ c f t).symm
  have hstyled : Walk.Alike (Layout.backend Styled.sink styled.codeColors)
      (Layout.backend PlainText.sink none) :=
    fun c f s t => (Layout.flow_start _ _ c f s).trans (Layout.flow_start _ _ c f t).symm
  exact ⟨hpage.context_eq d c _ _, hstyled.context_eq d c _ _, hpage.calls_eq d c _ _,
    hstyled.calls_eq d c _ _⟩

end RichMarkdown
