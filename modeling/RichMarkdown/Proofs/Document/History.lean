import RichMarkdown.Proofs.Walk.Congruence

/-!
# The histories of a context

A context is new once, and from then on it is used: for single headings and footnotes, for whole
renderings by any backend, and to take out what it has collected. `run` follows a list of such uses,
and `anchorsOf` gives the anchors that they have handed out, in order. A backend is told an anchor
with the frame of its heading, so a rendering hands out what `Backend.withAnchors` writes down.

* `document_withAnchors`: writing the anchors down changes nothing about a rendering.
-/

set_option autoImplicit false

namespace RichMarkdown

/-! ## Writing anchors down -/

/-- The anchor that a backend is told with a frame. -/
def Frame.anchors : Frame → List String
  | .heading _ id => [id]
  | _ => []

theorem Frame.anchors_of_isFree {f : Frame} (h : Walk.isFree f = true) : f.anchors = [] := by
  cases f with
  | heading level id => cases h
  | _ => rfl

/-- A backend that writes down all anchors it is told. -/
def Backend.withAnchors {σ : Type} (b : Backend σ) : Backend (σ × List String) where
  leaf c l s := (b.leaf c l s.1, s.2)
  start c f s := ((b.start c f s.1).1, (b.start c f s.1).2, s.2 ++ f.anchors)
  finish c f s := (b.finish c f s.1, s.2)

theorem simulation_withAnchors {σ : Type} (b : Backend σ) :
    Walk.Simulation b.withAnchors b (fun _ => True) fun s t => s.1 = t where
  leaf := by
    rintro c l s _ - rfl
    rfl
  space := trivial
  start := by
    rintro c f s _ rfl
    exact ⟨rfl, rfl⟩
  finish := by
    rintro c f s _ rfl
    rfl

theorem document_withAnchors {σ : Type} (b : Backend σ) (d : Document) (c : Context) (out : σ)
    (ids : List String) :
    (Walk.document b.withAnchors d c (out, ids)).1.1 = (Walk.document b d c out).1 ∧
      (Walk.document b.withAnchors d c (out, ids)).2 = (Walk.document b d c out).2 :=
  (simulation_withAnchors b).document (blocksEveryLeaf_of_forall (fun _ => trivial) d) c rfl

/-! ## Uses -/

/-- What a context can be used for once. -/
inductive Use : Type 1 where
  | heading (level : Nat) (text : String)
  | footnote (label : String)
  | takeToc
  | takeTitle
  | render {σ : Type} (b : Backend σ) (d : Document) (out : σ)

namespace Use

/-- The context after a use. -/
def apply : Use → Context → Context
  | heading level text, c => (c.registerHeading level text).2
  | footnote label, c => (c.footnoteNumber label).2
  | takeToc, c => { c with toc := [] }
  | takeTitle, c => { c with title := none }
  | render b d out, c => (Walk.document b d c out).2

/-- The anchors that a use hands out, in order. -/
def anchors : Use → Context → List String
  | heading level text, c => [(c.registerHeading level text).1]
  | render b d out, c => (Walk.document b.withAnchors d c (out, [])).1.2
  | _, _ => []

end Use

/-- The context after some uses. -/
def run : List Use → Context → Context
  | [], c => c
  | u :: us, c => run us (u.apply c)

/-- The anchors that some uses hand out, in order. -/
def anchorsOf : List Use → Context → List String
  | [], _ => []
  | u :: us, c => u.anchors c ++ anchorsOf us (u.apply c)

end RichMarkdown
