import RichMarkdown.Proofs.Document.Contexts
import RichMarkdown.Proofs.Walk.Congruence
import RichMarkdown.Proofs.Walk.Outline

/-!
# Hook calls

What a backend is told in the course of a walk, as a list of calls, each with the context that it
sees (`Walk.calls`). A backend may answer every start as it likes, so the calls follow the outline
of the document as far as the backend lets the walk enter. `Told P path os calls` says that the
calls tell of the nodes `os`, which stand inside the containers `path`: every node in its turn, what
is in it between its start and its finish, and nothing of a node that is skipped; and that each call
has the property `P` at its place.

* `Walk.told_calls`: the calls of a walk tell the outline, each in its place.
* `Walk.nested_calls`: they are well nested, and every node is told once.
-/

set_option autoImplicit false

namespace RichMarkdown

/-! ## Calls -/

/-- What a backend is told, with its answer to a start. -/
inductive Hook where
  | leaf (l : Leaf)
  | start (f : Frame) (flow : Flow)
  | finish (f : Frame)

/-- The frame that a hook starts or finishes. -/
def Hook.frame? : Hook → Option Frame
  | .leaf _ => none
  | .start f _ | .finish f => some f

structure Call where
  context : Context
  hook : Hook

/-- A backend that writes down all calls. -/
def Backend.recording {σ : Type} (b : Backend σ) : Backend (σ × List Call) where
  leaf c l s := (b.leaf c l s.1, s.2 ++ [⟨c, .leaf l⟩])
  start c f s :=
    ((b.start c f s.1).1, (b.start c f s.1).2, s.2 ++ [⟨c, .start f (b.start c f s.1).1⟩])
  finish c f s := (b.finish c f s.1, s.2 ++ [⟨c, .finish f⟩])

theorem simulation_recording {σ : Type} (b : Backend σ) :
    Walk.Simulation b.recording b (fun _ => True) fun s t => s.1 = t where
  leaf := by
    rintro c l s _ - rfl
    rfl
  space := trivial
  start := by
    rintro c f s _ rfl
    exact ⟨rfl, rfl⟩
  finish := by
    rintro c f s _ rfl
    rfl

/-- Writing the calls down changes nothing about a walk. -/
theorem document_recording {σ : Type} (b : Backend σ) (d : Document) (c : Context) (out : σ)
    (calls : List Call) :
    (Walk.document b.recording d c (out, calls)).1.1 = (Walk.document b d c out).1 ∧
      (Walk.document b.recording d c (out, calls)).2 = (Walk.document b d c out).2 :=
  (simulation_recording b).document (blocksEveryLeaf_of_forall (fun _ => trivial) d) c rfl

namespace Walk

/-- The calls that the walk of a document makes, in order. -/
def calls {σ : Type} (b : Backend σ) (d : Document) (c : Context) (out : σ) : List Call :=
  (document b.recording d c (out, [])).1.2

/-! ## Telling an outline -/

/-- The calls tell of nodes that stand inside the containers of a path, innermost first. The frame
of a node is the one that the context before it gives, and its finish is told with the same frame
as its start. -/
inductive Told (P : List Container → Call → Prop) :
    List Container → List Outline → List Call → Prop
  | nil {path : List Container} : Told P path [] []
  | leaf {path : List Container} {l : Leaf} {os : List Outline} {calls : List Call} (c : Context) :
      P path ⟨c, .leaf l⟩ → Told P path os calls →
      Told P path (.leaf l :: os) (⟨c, .leaf l⟩ :: calls)
  | reference {path : List Container} {label : String} {os : List Outline} {calls : List Call}
      (c : Context) :
      P path ⟨(c.footnoteNumber label).2,
        .leaf (.footnoteReference label (c.footnoteNumber label).1)⟩ →
      Told P path os calls →
      Told P path (.reference label :: os) (⟨(c.footnoteNumber label).2,
        .leaf (.footnoteReference label (c.footnoteNumber label).1)⟩ :: calls)
  | skipped {path : List Container} {n : Node} {inside os : List Outline} {calls : List Call}
      (c : Context) :
      P path ⟨n.noted c, .start (n.frame c) .skip⟩ → Told P path os calls →
      Told P path (.node n inside :: os) (⟨n.noted c, .start (n.frame c) .skip⟩ :: calls)
  | entered {path : List Container} {n : Node} {inside os : List Outline}
      {inner calls : List Call} (c c' : Context) :
      P path ⟨n.noted c, .start (n.frame c) .enter⟩ →
      Told P (n.container?.toList ++ path) inside inner →
      P path ⟨c', .finish (n.frame c)⟩ → Told P path os calls →
      Told P path (.node n inside :: os)
        (⟨n.noted c, .start (n.frame c) .enter⟩ :: inner ++ ⟨c', .finish (n.frame c)⟩ :: calls)

namespace Told

variable {P Q : List Container → Call → Prop} {path : List Container} {xs ys : List Outline}
  {calls calls' : List Call}

theorem append (h : Told P path xs calls) (h' : Told P path ys calls') :
    Told P path (xs ++ ys) (calls ++ calls') := by
  induction h with
  | nil => exact h'
  | leaf c hp _ ih => exact .leaf c hp (ih h')
  | reference c hp _ ih => exact .reference c hp (ih h')
  | skipped c hp _ ih => exact .skipped c hp (ih h')
  | @entered path n inside os inner calls c c' hp hi hp' _ _ ih =>
    rw [List.cons_append, List.cons_append, List.cons_append, List.append_assoc, List.cons_append]
    exact .entered c c' hp hi hp' (ih h')

theorem mono (h : Told P path xs calls) (hpq : ∀ path call, P path call → Q path call) :
    Told Q path xs calls := by
  induction h with
  | nil => exact .nil
  | leaf c hp _ ih => exact .leaf c (hpq _ _ hp) ih
  | reference c hp _ ih => exact .reference c (hpq _ _ hp) ih
  | skipped c hp _ ih => exact .skipped c (hpq _ _ hp) ih
  | entered c c' hp _ hp' _ ihi ih => exact .entered c c' (hpq _ _ hp) ihi (hpq _ _ hp') ih

end Told

/-! ## Places -/

/-- The call sees the containers of its path open inside those that were open at the start of the
walk, and a paragraph is told as tight exactly when the innermost one is an item of a tight list. -/
structure InPlace (start : Context) (path : List Container) (call : Call) : Prop where
  containers : call.context.containers = path ++ start.containers
  tight : ∀ tight, call.hook.frame? = some (.paragraph tight) →
    tight = ((path ++ start.containers).head? == some (.item true))

theorem inPlace_leaf {start c : Context} {path : List Container}
    (h : c.containers = path ++ start.containers) (l : Leaf) :
    InPlace start path ⟨c, .leaf l⟩ :=
  ⟨h, fun _ => nofun⟩

/-- The context of a paragraph is the one that gives it its tightness. -/
theorem tight_of_frame {n : Node} {c : Context} {path : List Container} {tight : Bool}
    (h : c.containers = path) (hn : n.frame c = .paragraph tight) :
    tight = (path.head? == some (.item true)) := by
  cases n with
  | paragraph =>
    rw [← h, ← Frame.paragraph.inj hn]
    rfl
  | _ => cases hn

theorem kept_noted (n : Node) (c : Context) : c.Kept (n.noted c) := by
  cases n with
  | heading level text => exact c.kept_registerHeading level text
  | footnote label => exact c.kept_footnoteNumber label
  | _ => exact .refl c

theorem inPlace_start {start c : Context} {path : List Container}
    (h : c.containers = path ++ start.containers) (n : Node) (flow : Flow) :
    InPlace start path ⟨n.noted c, .start (n.frame c) flow⟩ :=
  ⟨(kept_noted n c).containers.trans h, fun _ ht => tight_of_frame h (Option.some.inj ht)⟩

theorem inPlace_finish {start c c' : Context} {path : List Container}
    (h : c.containers = path ++ start.containers) (h' : c.Kept c') (n : Node) :
    InPlace start path ⟨c', .finish (n.frame c)⟩ :=
  ⟨h'.containers.trans h, fun _ ht => tight_of_frame h (Option.some.inj ht)⟩

/-! ## Visits -/

/-- The visit makes calls that tell the outlines, wherever it starts, and the context keeps what it
must. -/
def Follows {σ : Type} (start : Context)
    (v : State (σ × List Call) → State (σ × List Call)) (os : List Outline) : Prop :=
  ∀ (path : List Container) (s : State (σ × List Call)),
    s.context.containers = path ++ start.containers →
    s.context.Kept (v s).context ∧
      ∃ calls, (v s).out.2 = s.out.2 ++ calls ∧ Told (InPlace start) path os calls

section

variable {σ : Type} {b : Backend σ} {start : Context}
  {v w : State (σ × List Call) → State (σ × List Call)} {xs ys : List Outline}

theorem follows_id : Follows start (id : State (σ × List Call) → _) [] :=
  fun _ _ _ => ⟨.refl _, [], (List.append_nil _).symm, .nil⟩

theorem Follows.seq (hv : Follows start v xs) (hw : Follows start w ys) :
    Follows start (w ∘ v) (xs ++ ys) := by
  intro path s hs
  obtain ⟨hkv, cs, hcs, htv⟩ := hv path s hs
  obtain ⟨hkw, ds, hds, htw⟩ := hw path (v s) (hkv.containers.trans hs)
  refine ⟨hkv.trans hkw, cs ++ ds, ?_, htv.append htw⟩
  rw [Function.comp_apply, hds, hcs, List.append_assoc]

theorem follows_leaf (l : Leaf) : Follows start (leaf b.recording l) [.leaf l] :=
  fun _ s hs => ⟨.refl _, _, rfl, .leaf s.context (inPlace_leaf hs l) .nil⟩

theorem follows_reference (label : String) :
    Follows start (numbered label fun n => leaf b.recording (.footnoteReference label n))
      [.reference label] := by
  intro path s hs
  have hkept := s.context.kept_footnoteNumber label
  exact ⟨hkept, _, rfl,
    .reference s.context (inPlace_leaf (hkept.containers.trans hs) _) .nil⟩

/-- What is told inside a container has it on its path. -/
theorem Follows.insideOf (hv : Follows start v xs) (k : Option Container) {path : List Container}
    {s : State (σ × List Call)} (hs : s.context.containers = path ++ start.containers) :
    s.context.Kept (Walk.insideOf k v s).context ∧
      ∃ calls, (Walk.insideOf k v s).out.2 = s.out.2 ++ calls ∧
        Told (InPlace start) (k.toList ++ path) xs calls := by
  cases k with
  | none => exact hv path s hs
  | some k =>
    obtain ⟨hkept, calls, hcalls, htold⟩ :=
      hv (k :: path) { s with context := s.context.push k } (congrArg (k :: ·) hs)
    exact ⟨hkept.inside, calls, hcalls, htold⟩

theorem Follows.node (n : Node) (hv : Follows start v xs) :
    Follows start (Walk.node b.recording n v) [.node n xs] := by
  intro path s hs
  have hnoted := kept_noted n s.context
  rcases hb : b.start (n.noted s.context) (n.frame s.context) s.out.1 with ⟨flow, out⟩
  have hstart : b.recording.start (n.noted s.context) (n.frame s.context) s.out =
      (flow, out, s.out.2 ++ [⟨n.noted s.context, .start (n.frame s.context) flow⟩]) := by
    simp only [Backend.recording, hb]
  simp only [Walk.node, framed, hstart]
  cases flow with
  | skip => exact ⟨hnoted, _, rfl, .skipped s.context (inPlace_start hs n .skip) .nil⟩
  | enter =>
    obtain ⟨hinner, inner, hcalls, htold⟩ := hv.insideOf n.container?
      (s := ⟨n.noted s.context, out,
        s.out.2 ++ [⟨n.noted s.context, .start (n.frame s.context) .enter⟩]⟩)
      (hnoted.containers.trans hs)
    have hkept := hnoted.trans hinner
    refine ⟨hkept, _, ?_, .entered s.context _ (inPlace_start hs n .enter) htold
      (inPlace_finish hs hkept n) .nil⟩
    simp only [Backend.recording, hcalls]
    simp

mutual

theorem follows_outline (b : Backend σ) (start : Context) :
    ∀ o : Outline, Follows start (outline b.recording o) [o]
  | .leaf l => follows_leaf l
  | .reference label => follows_reference label
  | .node n inside => (follows_outlines b start inside).node n

theorem follows_outlines (b : Backend σ) (start : Context) :
    ∀ os : List Outline, Follows start (outlines b.recording os) os
  | [] => follows_id
  | o :: os => (follows_outline b start o).seq (follows_outlines b start os)

end

/-- **The calls of a walk** tell the outline of the document, each in its place, and the context
keeps what it must. -/
theorem told_calls (b : Backend σ) (d : Document) (c : Context) (out : σ) :
    Told (InPlace c) [] (blocksOutline d) (calls b d c out) ∧
      c.Kept (document b.recording d c (out, [])).2 := by
  obtain ⟨hkept, cs, hcs, htold⟩ := follows_outlines b c (blocksOutline d) [] ⟨c, out, []⟩ rfl
  rw [List.nil_append] at hcs
  rw [calls, document, blocks_eq]
  exact ⟨hcs ▸ htold, hkept⟩

end

/-! ## Nesting -/

/-- From the frames that are open, innermost first, every finish is that of the innermost open
frame, and at the end all frames have been finished. A frame that is skipped is not opened. -/
def Nested : List Frame → List Hook → Prop
  | opened, [] => opened = []
  | opened, .leaf _ :: rest => Nested opened rest
  | opened, .start f .enter :: rest => Nested (f :: opened) rest
  | opened, .start _ .skip :: rest => Nested opened rest
  | f :: opened, .finish g :: rest => g = f ∧ Nested opened rest
  | [], .finish _ :: _ => False

theorem Told.nested {P : List Container → Call → Prop} {path : List Container}
    {os : List Outline} {calls : List Call} (h : Told P path os calls) :
    ∀ {opened : List Frame} {rest : List Hook}, Nested opened rest →
      Nested opened (calls.map Call.hook ++ rest) := by
  induction h with
  | nil => exact id
  | leaf _ _ _ ih => exact fun hr => ih hr
  | reference _ _ _ ih => exact fun hr => ih hr
  | skipped _ _ _ ih => exact fun hr => ih hr
  | entered c c' _ _ _ _ ihi ih =>
    intro opened rest hr
    simp only [List.map_append, List.map_cons, List.cons_append, List.append_assoc, Nested]
    exact ihi ⟨rfl, ih hr⟩

/-- The calls tell of every node once, in order, and of nothing in a node that is skipped. -/
def Tells (os : List Outline) (calls : List Call) : Prop := Told (fun _ _ => True) [] os calls

/-- **Calls are well nested.** Whatever a backend answers, every finish that it is told is that of
the innermost frame that it has entered and that is not finished, and it is told of the nodes of the
document in order, each once, but of nothing in those that it skips. -/
theorem nested_calls {σ : Type} (b : Backend σ) (d : Document) (c : Context) (out : σ) :
    Nested [] ((calls b d c out).map Call.hook) ∧ Tells (blocksOutline d) (calls b d c out) := by
  have htold := (told_calls b d c out).1
  have hclosed : Nested [] [] := rfl
  refine ⟨?_, htold.mono fun _ _ _ => trivial⟩
  rw [← List.append_nil ((calls b d c out).map Call.hook)]
  exact htold.nested hclosed

end Walk

end RichMarkdown
