import RichMarkdown.Proofs.Walk.Calls
import RichMarkdown.Render.Trace

/-!
# Places in a document

Where in a document a walk is, the context says by its open containers: those in which the walk was
started, and inside them the containers on the path to the node. So the depth of lists, the
tightness of the innermost list and whether a paragraph is tight can be read off that path
(`Walk.Stands`).

* `Walk.stands_calls`: every call of a walk is made where its node stands, and a walk ends where it
  was started.
-/

set_option autoImplicit false

namespace RichMarkdown

/-- The tightness of a container that is a list. -/
def Container.tightness? : Container → Option Bool
  | .list tight _ => some tight
  | _ => none

namespace Walk

/-- The context of a call describes the path to its node, innermost container first, inside the
containers in which the walk was started. -/
structure Stands (start : Context) (path : List Container) (call : Call) : Prop where
  containers : call.context.containers = path ++ start.containers
  listDepth : call.context.listDepth =
    (path.filterMap Container.tightness?).length + start.listDepth
  currentListTight : call.context.currentListTight? =
    (path.filterMap Container.tightness?).head?.or start.currentListTight?
  inTightItem : call.context.inTightItem = true ↔
    (path ++ start.containers).head? = some (.item true)
  /-- A paragraph is told as tight exactly when it is directly in an item of a tight list. -/
  paragraph : ∀ tight, call.hook.frame? = some (.paragraph tight) →
    (tight = true ↔ (path ++ start.containers).head? = some (.item true))

theorem listDepth_eq {c start : Context} {path : List Container}
    (h : c.containers = path ++ start.containers) :
    c.listDepth = (path.filterMap Container.tightness?).length + start.listDepth := by
  rw [Context.listDepth, h, List.countP_append, List.length_filterMap_eq_countP]
  refine congrArg (· + start.listDepth) (List.countP_congr fun k _ => ?_)
  cases k <;> simp [Container.tightness?]

theorem currentListTight?_eq {c start : Context} {path : List Container}
    (h : c.containers = path ++ start.containers) :
    c.currentListTight? =
      (path.filterMap Container.tightness?).head?.or start.currentListTight? := by
  rw [Context.currentListTight?, h, List.findSome?_append, List.head?_filterMap]
  rfl

theorem InPlace.stands {start : Context} {path : List Container} {call : Call}
    (h : InPlace start path call) : Stands start path call where
  containers := h.containers
  listDepth := listDepth_eq h.containers
  currentListTight := currentListTight?_eq h.containers
  inTightItem := by rw [Context.inTightItem, h.containers, beq_iff_eq]
  paragraph tight ht := by rw [h.tight tight ht, beq_iff_eq]

/-- **Every call is made where its node stands**, whatever the backend answers: the context of each
call describes the path to the node. Rows of tables are no paragraphs, and a backend that takes them
for paragraphs takes them for loose ones. In the end the context is where it was started, in the
same mode, and has all that it had. -/
theorem stands_calls {σ : Type} (b : Backend σ) (d : Document) (c : Context) (out : σ) :
    Told (Stands c) [] (blocksOutline d) (calls b d c out) ∧
      (∀ header, Trace.start (.row header) = [.start (.paragraph false)] ∧
        Trace.finish (.row header) = [.finish (.paragraph false)]) ∧
      c.Kept (document b d c out).2 := by
  obtain ⟨htold, hkept⟩ := told_calls b d c out
  refine ⟨htold.mono fun _ _ => InPlace.stands, fun _ => ⟨rfl, rfl⟩, ?_⟩
  rw [← (document_recording b d c out []).2]
  exact hkept

end Walk

end RichMarkdown
