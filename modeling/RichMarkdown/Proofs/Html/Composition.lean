import RichMarkdown.Proofs.Html.Shown

/-!
# Pages of documents put together

A visit adds pieces to a page, and leaves a context, that are settled by the context it starts in
alone: neither the page so far nor the call-outs that are open have a part in them, and the open
call-outs are afterwards what they were (`Settled`). So everything that one block does to the next
goes through the context.

* `renderIn_append`: the page of two documents one after the other is their pages one after the
  other, the second from the context that the first leaves behind.
-/

set_option autoImplicit false

namespace RichMarkdown

theorem Walk.blocks_append {σ : Type} (b : Backend σ) (xs ys : List Block) :
    Walk.blocks b (xs ++ ys) = Walk.blocks b ys ∘ Walk.blocks b xs := by
  induction xs with
  | nil => rfl
  | cons x xs ih =>
    rw [List.cons_append, Walk.blocks, Walk.blocks, ih]
    rfl

namespace Html

/-- From the first context the visit adds these pieces to any page, and leaves the second. -/
def Adds (v : Visit) (c : Context) (ps : List Piece) (c' : Context) : Prop :=
  ∀ out, v ⟨c, out⟩ = ⟨c', out.write ps⟩

/-- What the visit adds to a page and the context after it depend on the context before it and on
nothing else, and the open call-outs stay as they were. -/
def Settled (v : Visit) : Prop :=
  ∀ c, ∃ ps c', ∀ out, v ⟨c, out⟩ = ⟨c', out.write ps⟩

section

variable {settings : Settings} {v w : Visit} {c c' c'' : Context} {ps qs : List Piece}

theorem Adds.seq (hv : Adds v c ps c') (hw : Adds w c' qs c'') :
    Adds (w ∘ v) c (ps ++ qs) c'' := by
  intro out
  rw [Function.comp_apply, hv, hw, write_write]

/-- A frame that is entered opens a call-out at most for its inside, and its finish closes it. -/
theorem Adds.framed {f : Frame} (hflow : f.defaultFlow = .enter) (hv : Adds v c ps c') :
    Adds (Walk.framed (backend settings) f v) c
      (startPieces settings f ++ (ps ++ closingPieces f)) c' := by
  intro out
  have hinner : v (opening settings f ⟨c, out⟩) =
      ⟨c', (opening settings f ⟨c, out⟩).out.write ps⟩ := hv _
  rw [framed_around hflow (congrArg Walk.State.out hinner), hinner]

theorem adds_skipped {f : Frame} (hflow : f.defaultFlow = .skip) (v : Visit) (c : Context) :
    Adds (Walk.framed (backend settings) f v) c [] c := by
  intro out
  simp only [Walk.framed, backend, hflow, write_nil]

theorem Settled.adds (hv : Settled v) (c : Context) : ∃ ps c', Adds v c ps c' := hv c

theorem Settled.seq (hv : Settled v) (hw : Settled w) : Settled (w ∘ v) := by
  intro c
  obtain ⟨ps, c', hv⟩ := hv.adds c
  obtain ⟨qs, c'', hw⟩ := hw.adds c'
  exact ⟨ps ++ qs, c'', hv.seq hw⟩

theorem Settled.framed (f : Frame) (hv : Settled v) :
    Settled (Walk.framed (backend settings) f v) := by
  intro c
  cases hflow : f.defaultFlow with
  | skip => exact ⟨[], c, adds_skipped hflow v c⟩
  | enter =>
    obtain ⟨ps, c', hv⟩ := hv.adds c
    exact ⟨_, c', hv.framed hflow⟩

/-- **Every visit is settled by its context.** -/
theorem settled_uniform (settings : Settings) :
    Walk.Uniform (backend settings) (backend settings) (fun _ => True)
      fun v _ => Settled v where
  idle c := ⟨[], c, fun out => by rw [write_nil, id]⟩
  seq hv hw := hv.seq hw
  withContext f c := ⟨[], f c, fun out => by rw [write_nil, Walk.withContext]⟩
  choose hv c := hv c c
  leaf {l} _ c := ⟨leafPieces settings l, c, fun _ => rfl⟩
  space := trivial
  framed _ _ hv := hv.framed _
  table hh hr := ((hh.framed _).seq hr).framed _

theorem settled_blocks (settings : Settings) (d : Document) :
    Settled (Walk.blocks (backend settings) d) :=
  (settled_uniform settings).congruence.blocks d (blocksEveryLeaf_of_forall (fun _ => trivial) d)

end

/-- **Pages are put together block by block.** From any context, whatever highlights code and
whether headings carry their anchors, two documents one after the other are written as the first,
followed by the second from the context that the first leaves behind, and leave the context that the
second leaves then. -/
theorem renderIn_append (settings : Settings) (xs ys : Document) (c : Context) :
    renderIn settings (xs ++ ys) c =
      ((renderIn settings xs c).1 ++ (renderIn settings ys (renderIn settings xs c).2).1,
        (renderIn settings ys (renderIn settings xs c).2).2) := by
  obtain ⟨ps, c', hxs⟩ := settled_blocks settings xs c
  obtain ⟨qs, c'', hys⟩ := settled_blocks settings ys c'
  have hfirst : renderIn settings xs c = (render ps, c') := by
    simp [renderIn, Walk.document, hxs, PageState.write]
  have hsecond : renderIn settings ys c' = (render qs, c'') := by
    simp [renderIn, Walk.document, hys, PageState.write]
  have hboth : renderIn settings (xs ++ ys) c = (render (ps ++ qs), c'') := by
    simp [renderIn, Walk.document, Walk.blocks_append, hxs, hys, PageState.write]
  rw [hboth, hfirst, hsecond, render_append]

end Html

end RichMarkdown
