import RichMarkdown.Proofs.Layout.Behind

/-!
# Blank lines between blocks

The blocks of a document are set apart by one blank line in plain text. A block asks for it, perhaps
again and again, before its first content, and the first block asks in vain; a block without content
leaves no trace.

* `Outermost.block`: a block leaves no container open.
* `keepsBehind_blocks`: blocks behind a text are in step with the same blocks alone, whether they
  ask for a gap at once or have no content.
* `renderIn_eq_intercalate`: the plain text of a document is that of its blocks, joined by blank
  lines.
-/

set_option autoImplicit false

namespace RichMarkdown.Layout

open State

/-! ## Blocks in no container -/

namespace State

theorem fresh_request (s : State String) (gap : Gap) : (s.request gap).fresh = s.fresh := by
  unfold request
  split <;> rfl

theorem fresh_blockStart (s : State String) : s.blockStart.fresh = s.fresh := by
  unfold blockStart
  split
  · rfl
  · exact fresh_request s _

theorem request_request (s : State String) (gap : Gap) :
    (s.request gap).request gap = s.request gap := by
  cases hs : s.started with
  | true =>
    have hmax (n m : Nat) : max (max n m) m = max n m := by omega
    simp only [request, hs, if_true, hmax]
  | false => simp only [request, hs, Bool.false_eq_true, if_false]

/-- To ask for a gap once more changes nothing. -/
theorem blockStart_blockStart (s : State String) : s.blockStart.blockStart = s.blockStart := by
  cases hf : s.fresh with
  | true => simp only [blockStart, hf, if_true]
  | false =>
    have htight (gap : Gap) : (s.request gap).tightness = s.tightness := by
      unfold request
      split <;> rfl
    simp only [blockStart, hf, Bool.false_eq_true, if_false, fresh_request, htight,
      request_request]

theorem fresh_writeStyled {s : State String} (h : s.fresh = false) (text : String)
    (style : TextStyle) : (s.writeStyled PlainText.sink text style).fresh = false := by
  rw [writeStyled_eq_foldl joins_plainText]
  generalize text.toList = cs
  induction cs generalizing s with
  | nil => exact h
  | cons c cs ih =>
    refine ih ?_
    unfold writeChar
    split
    · exact h
    · exact (inLine_writeLine s style (by simp)).fresh

end State

section

variable {s t : State String}

theorem fresh_leaf (h : s.fresh = false) (c : Context) (l : Leaf) :
    (leaf PlainText.sink none c l s).fresh = false := by
  cases l with
  | text t => exact fresh_writeStyled h t _
  | code t => exact fresh_writeStyled (s := s.pushStyle _) h t _
  | softBreak => exact fresh_writeStyled h " " _
  | image source title alt => exact fresh_writeStyled h alt _
  | footnoteReference label n => exact fresh_writeStyled h _ _
  | codeBlock language literal =>
    have hcode := fresh_writeStyled
      (s := s.blockStart.pushStyle ({ · with monospace := true }))
      ((fresh_blockStart s).trans h) literal
    simp only [leaf, codeBlock, writeCode]
    split
    · exact hcode _
    · exact hcode _
  | rule => exact fresh_writeStyled ((fresh_blockStart s).trans h) "---" _
  | lineBreak | inlineHtml | htmlBlock | metadata => exact h

/-- No frame leaves the next block in a line that it has opened. -/
theorem fresh_finish (h : s.fresh = false) {f : Frame}
    (ht : (start PlainText.sink f s).fresh = false → t.fresh = false) :
    (finish PlainText.sink f t).fresh = false := by
  have hstart := (fresh_blockStart s).trans h
  cases f with
  | item | quote | footnote => rfl
  | row header =>
    have hrow := (fresh_request s .line).trans h
    cases header <;> exact ht hrow
  | cell header column alignment =>
    refine ht ?_
    simp only [start]
    split
    · exact h
    · exact fresh_writeStyled h "\t" _
  | paragraph | heading | list | table => exact ht hstart
  | marked | inlineDirective | directive | command => exact ht h

end

/-- The visit leaves no line open for the next block if there was none before it. -/
def Settles (v : Visit) : Prop := ∀ s, s.out.fresh = false → (v s).out.fresh = false

theorem Settles.framed {v : Visit} (hv : Settles v) (f : Frame) :
    Settles (Walk.framed plain f v) := by
  intro s hs
  cases hflow : f.defaultFlow with
  | skip =>
    simp only [Walk.framed, backend, hflow]
    exact hs
  | enter =>
    simp only [Walk.framed, backend, hflow]
    exact fresh_finish hs (hv ⟨s.context, start PlainText.sink f s.out⟩)

theorem Settles.insideOf {v : Visit} (hv : Settles v) (container : Option Container) :
    Settles (Walk.insideOf container v) := by
  cases container with
  | none => exact hv
  | some c => exact fun s hs => hv { s with context := s.context.push c } hs

mutual

theorem settles_outline : ∀ o : Outline, Settles (Walk.outline plain o)
  | .leaf l => fun s hs => fresh_leaf hs s.context l
  | .reference label => fun s hs => fresh_leaf hs (s.context.footnoteNumber label).2 _
  | .node n inside => fun s hs =>
    ((settles_outlines inside).insideOf n.container?).framed (n.frame s.context)
      { s with context := n.noted s.context } hs

theorem settles_outlines : ∀ os : List Outline, Settles (Walk.outlines plain os)
  | [] => fun _ hs => hs
  | o :: os => fun s hs => settles_outlines os _ (settles_outline o s hs)

end

/-- A layout between blocks that are in no container. -/
structure Outermost (s : State String) : Prop where
  steady : s.Steady
  margins : s.margins = []
  tightness : s.tightness = []
  styles : s.styles = []
  fresh : s.fresh = false

theorem outermost_empty : Outermost { out := "" } := ⟨steady_empty, rfl, rfl, rfl, rfl⟩

theorem Outermost.block {s : State String} (h : Outermost s) (x : Block) (c : Context) :
    Outermost (Walk.block plain x ⟨c, s⟩).out := by
  have hgo := goesOn_outline x.outline ⟨c, s⟩ h.steady
  have hfresh := settles_outline x.outline ⟨c, s⟩ h.fresh
  rw [← Walk.block_eq] at hgo hfresh
  exact ⟨hgo.steady, hgo.margins_nil h.margins, hgo.tightness.trans h.tightness,
    hgo.styles.trans h.styles, hfresh⟩

/-- Between blocks there is at most a gap. -/
structure AtRest (s : State String) : Prop extends Outermost s where
  tidy : s.Tidy

theorem atRest_empty : AtRest { out := "" } :=
  ⟨outermost_empty, Nat.zero_le 2, rfl, fun _ => rfl⟩

namespace AtRest

variable {s : State String}

theorem eq_empty (h : AtRest s) (hs : s.started = false) : s = { out := "" } := by
  obtain ⟨⟨hsteady, hm, ht, hst, hf⟩, htidy⟩ := h
  have howed := htidy.unstarted hs
  have hcode := htidy.owedByCode
  have hline := hsteady.lineStart
  have hout := (hsteady.untouched hs).1
  cases s
  simp_all

/-- The next block asks for a blank line. -/
theorem behind (h : AtRest s) (hs : s.started = true) :
    Behind s.out s.blockStart { out := "" } where
  steady := steady_empty
  tidy := atRest_empty.tidy
  eq := by
    obtain ⟨⟨hsteady, hm, ht, hst, hf⟩, htidy⟩ := h
    have hgap : max s.owed (s.owedByCode + 2) = 2 := by
      have howed := htidy.owed
      have hcode := htidy.owedByCode
      omega
    have hcode := htidy.owedByCode
    have hline := hsteady.lineStart
    rw [behind_of_not_started rfl]
    cases s
    simp_all [State.blockStart, State.request, Gap.lines]

theorem block (h : AtRest s) {x : Block} (hx : x.EveryLeaf Unbroken) (c : Context) :
    AtRest (Walk.block plain x ⟨c, s⟩).out where
  toOutermost := h.toOutermost.block x c
  tidy := by
    -- what is owed after the block does not depend on the text before it
    have hp : EndsInContent "x" := ⟨'x', rfl, by decide⟩
    have hstep := related_behind hp hx ⟨c, s.behind "x"⟩ ⟨c, s⟩ ⟨rfl, h.steady, h.tidy, rfl⟩
    exact hstep.out.tidy

end AtRest

/-! ## Blocks behind a text -/

/-- The first layout is behind a text where the second one is alone. Either both have asked for a
gap, or neither has. -/
inductive Follows (p : String) : State String → State String → Prop
  | behind {s a : State String} : Behind p s a → Follows p s a
  | atRest {s : State String} : AtRest s → s.started = true → s.out = p → Follows p s { out := "" }

/-- The text of a layout that is behind another one. -/
theorem Follows.out {p : String} {s a : State String} (h : Follows p s a) :
    s.out = p ++ if a.out.isEmpty then "" else "\n\n" ++ a.out := by
  cases h with
  | atRest _ _ hout => simpa using hout
  | behind h =>
    rw [h.eq]
    cases hs : a.started with
    | true =>
      rw [behind_of_started hs, h.steady.isEmpty_out hs]
      exact String.append_assoc ..
    | false =>
      rw [behind_of_not_started hs, (h.steady.untouched hs).1]
      exact String.append_empty.symm

theorem Follows.started {p : String} {s a : State String} (h : Follows p s a) :
    s.started = true := by
  cases h with
  | atRest _ hs _ => exact hs
  | behind h => exact h.eq ▸ started_behind a

/-- The visit keeps a layout behind a text in step with that alone. -/
def KeepsBehind (p : String) (v : Visit) : Prop :=
  ∀ s t, Walk.Related (Follows p) s t → Walk.Related (Follows p) (v s) (v t)

theorem KeepsBehind.seq {p : String} {v w : Visit} (hv : KeepsBehind p v) (hw : KeepsBehind p w) :
    KeepsBehind p (w ∘ v) := fun s t hst => hw _ _ (hv s t hst)

/-- A visit that asks for a gap at once may as well be given it. -/
theorem KeepsBehind.of_asks {p : String} {v : Visit}
    (hv : ∀ s t, Walk.Related (Behind p) s t → Walk.Related (Behind p) (v s) (v t))
    (hasks : ∀ s, v { s with out := s.out.blockStart } = v s) : KeepsBehind p v := by
  rintro ⟨c, s⟩ ⟨c', a⟩ ⟨hc, hout⟩
  obtain rfl : c = c' := hc
  have hbehind (s' : State String) (h : Behind p s' a) :
      Walk.Related (Follows p) (v ⟨c, s'⟩) (v ⟨c, a⟩) := by
    obtain ⟨hcontext, hstep⟩ := hv ⟨c, s'⟩ ⟨c, a⟩ ⟨rfl, h⟩
    exact ⟨hcontext, .behind hstep⟩
  cases hout with
  | behind h => exact hbehind s h
  | atRest h hs hp =>
    rw [← hasks ⟨c, s⟩]
    exact hbehind s.blockStart (hp ▸ h.behind hs)

/-- The frames that begin with a gap. -/
def asksFirst : Frame → Bool
  | .paragraph _ | .heading _ _ | .list _ _ | .quote _ | .table _ | .footnote _ _ => true
  | .marked _ | .inlineDirective _ _ | .item _ _ | .row _ | .cell _ _ _ | .directive _
  | .command _ => false

theorem start_blockStart {f : Frame} (hf : asksFirst f = true) (s : State String) :
    start PlainText.sink f s.blockStart = start PlainText.sink f s := by
  cases f with
  | paragraph | heading | list | quote | table | footnote =>
    simp only [start, openList, openQuote, openFootnote, blockStart_blockStart]
  | _ => cases hf

theorem framed_blockStart {f : Frame} (hf : asksFirst f = true) (v : Visit)
    (s : Walk.State (State String)) :
    Walk.framed plain f v { s with out := s.out.blockStart } = Walk.framed plain f v s := by
  have hflow : f.defaultFlow = .enter := by
    cases f with
    | inlineDirective | directive => cases hf
    | _ => rfl
  simp only [Walk.framed, backend, hflow, start_blockStart hf]

/-- What is in no frame of its own is in step if what it holds is. -/
theorem KeepsBehind.directive {p : String} {v : Visit} (hv : KeepsBehind p v) (head : Directive) :
    KeepsBehind p (Walk.framed plain (.directive head) (Walk.inside .directive v)) := by
  intro s t hst
  cases hflow : (Frame.directive head).defaultFlow with
  | skip =>
    simp only [Walk.framed, backend, hflow]
    exact hst
  | enter =>
    simp only [Walk.framed, backend, hflow]
    obtain ⟨hcontext, hout⟩ := hv { s with context := s.context.push .directive }
      { t with context := t.context.push .directive } ⟨by rw [hst.context], hst.out⟩
    exact ⟨congrArg Context.pop hcontext, hout⟩

theorem keepsBehind_leafLabel {p : String} (hp : EndsInContent p) {head : Directive}
    (h : head.kind = .leaf → inlinesEveryLeaf Unbroken head.label) :
    KeepsBehind p (Walk.leafLabel plain head) := by
  have hlabel := (simulation_behind hp).uniform.congruence.leafLabel head h
  unfold Walk.leafLabel at hlabel ⊢
  split
  · rename_i hk
    rw [if_pos hk] at hlabel
    exact .of_asks hlabel fun s => framed_blockStart (f := .paragraph _) rfl _ s
  · exact fun _ _ hst => hst

mutual

/-- A block behind a text. Only directives hold blocks that are behind the text as they are. -/
theorem keepsBehind_block {p : String} (hp : EndsInContent p) : ∀ x : Block,
    x.EveryLeaf Unbroken → KeepsBehind p (Walk.block plain x)
  | .html _, _ | .metadata _, _ => fun _ _ hst => hst
  | .directive head children, hx =>
    ((keepsBehind_leafLabel hp hx.1).seq (keepsBehind_blocks hp children hx.2)).directive head
  | .paragraph content, hx => .of_asks (related_behind hp hx) fun s =>
    framed_blockStart (f := .paragraph _) rfl _ s
  | .heading level content, hx => .of_asks (related_behind hp hx) fun s =>
    framed_blockStart (f := .heading level _) rfl _
      { s with context := (s.context.registerHeading level (plainText content)).2 }
  | .list start tight children, hx => .of_asks (related_behind hp hx) fun s =>
    framed_blockStart (f := .list start tight) rfl _ s
  | .quote alert children, hx => .of_asks (related_behind hp hx) fun s =>
    framed_blockStart (f := .quote alert) rfl _ s
  | .table t, hx => .of_asks (related_behind hp hx) fun s =>
    framed_blockStart (f := .table t) rfl _ s
  | .footnote label children, hx => .of_asks (related_behind hp hx) fun s =>
    framed_blockStart (f := .footnote label _) rfl _
      { s with context := (s.context.footnoteNumber label).2 }
  | .command c, hx => .of_asks (related_behind hp hx) fun s =>
    framed_blockStart (f := .paragraph _) rfl _ s
  | .code language literal, hx => .of_asks (related_behind hp hx) fun s => by
    simp only [Walk.block, Walk.leaf, backend, leaf, codeBlock, blockStart_blockStart]
  | .rule, hx => .of_asks (related_behind hp hx) fun s => by
    simp only [Walk.block, Walk.leaf, backend, leaf, blockStart_blockStart]

theorem keepsBehind_blocks {p : String} (hp : EndsInContent p) : ∀ xs : List Block,
    blocksEveryLeaf Unbroken xs → KeepsBehind p (Walk.blocks plain xs)
  | [], _ => fun _ _ hst => hst
  | x :: xs, hx => (keepsBehind_block hp x hx.1).seq (keepsBehind_blocks hp xs hx.2)

end

/-! ## The text of a document -/

/-- The plain texts of blocks, each of them alone, from the context that the one before leaves. -/
def textsInTurn : List Block → Context → List String
  | [], _ => []
  | x :: xs, c =>
    (PlainText.renderIn [x] c).1 :: textsInTurn xs (PlainText.renderIn [x] c).2

theorem intercalate_cons (sep t : String) (ts : List String) :
    sep.intercalate (t :: ts) = t ++ String.join (ts.map (sep ++ ·)) := by
  induction ts generalizing t with
  | nil => simp
  | cons u ts ih =>
    rw [String.intercalate_cons_cons, ih, List.map_cons, String.join_cons]
    simp only [String.append_assoc]

theorem filter_cons_join (t : String) (ts : List String) :
    String.join (((t :: ts).filter (! ·.isEmpty)).map ("\n\n" ++ ·)) =
      (if t.isEmpty then "" else "\n\n" ++ t) ++
        String.join ((ts.filter (! ·.isEmpty)).map ("\n\n" ++ ·)) := by
  rw [List.filter_cons]
  cases t.isEmpty with
  | true => exact String.empty_append.symm
  | false => exact String.join_cons

/-- Blocks behind a text. -/
theorem out_blocks {xs : List Block} (hx : blocksEveryLeaf Unbroken xs) (c : Context)
    {s : State String} (h : AtRest s) (hs : s.started = true) :
    (Walk.blocks plain xs ⟨c, s⟩).out.out = s.out ++
      String.join (((textsInTurn xs c).filter (! ·.isEmpty)).map ("\n\n" ++ ·)) := by
  induction xs generalizing c s with
  | nil => exact String.append_empty.symm
  | cons x xs ih =>
    obtain ⟨hcontext, hfollows⟩ := keepsBehind_block (h.steady.ended hs) x hx.1 ⟨c, s⟩
      ⟨c, { out := "" }⟩ ⟨rfl, .atRest h hs rfl⟩
    have hrest : AtRest (Walk.block plain x ⟨c, s⟩).out := h.block hx.1 c
    have htail := ih hx.2 (Walk.block plain x ⟨c, s⟩).context hrest hfollows.started
    have hcons : Walk.blocks plain (x :: xs) ⟨c, s⟩ =
        Walk.blocks plain xs (Walk.block plain x ⟨c, s⟩) := rfl
    have halone : PlainText.renderIn [x] c = ((Walk.block plain x ⟨c, { out := "" }⟩).out.out,
        (Walk.block plain x ⟨c, { out := "" }⟩).context) := rfl
    rw [hcons, htail, hcontext, hfollows.out, textsInTurn, halone, filter_cons_join,
      String.append_assoc]

/-- **Blocks are set apart by one blank line.** Where no text, code or alternative text has a line
end, nothing breaks a line, and no code block begins or ends in one: the plain text of a document is
that of its blocks, each alone in its turn, joined by blank lines. Blocks without text are left
out. -/
theorem renderIn_eq_intercalate {d : Document} (hd : blocksEveryLeaf Unbroken d) (c : Context) :
    (PlainText.renderIn d c).1 =
      "\n\n".intercalate ((textsInTurn d c).filter (! ·.isEmpty)) := by
  induction d generalizing c with
  | nil => rfl
  | cons x xs ih =>
    have hrest : AtRest (Walk.block plain x ⟨c, { out := "" }⟩).out :=
      atRest_empty.block hd.1 c
    have hcons : (PlainText.renderIn (x :: xs) c).1 =
        (Walk.blocks plain xs (Walk.block plain x ⟨c, { out := "" }⟩)).out.out := rfl
    have halone : PlainText.renderIn [x] c = ((Walk.block plain x ⟨c, { out := "" }⟩).out.out,
        (Walk.block plain x ⟨c, { out := "" }⟩).context) := rfl
    rw [hcons, textsInTurn, halone, List.filter_cons]
    generalize Walk.block plain x ⟨c, { out := "" }⟩ = s at hrest
    cases hs : s.out.started with
    | false =>
      -- the block has left no trace but in the context
      obtain ⟨context, out⟩ := s
      obtain rfl : out = { out := "" } := hrest.eq_empty hs
      exact ih hd.2 context
    | true =>
      rw [hrest.steady.isEmpty_out hs]
      exact (out_blocks hd.2 s.context hrest hs).trans (intercalate_cons ..).symm

/-- A quote that opens with nothing to show, code with an empty line inside, and a footnote that the
list before it has numbered. -/
def report : Document :=
  [.html "<hr>", .list none true [⟨none, [.paragraph [.text "a", .footnote "n"]]⟩, ⟨none, []⟩],
    .quote (some .note) [.html "<!-- -->", .quote none [.paragraph [.text "b"]]],
    .code none "c\n\nd", .footnote "n" [.paragraph [.text "e"]]]

/-- The block of HTML leaves no gap, and the gaps that the quotes ask for are one. -/
theorem renderIn_report : blocksEveryLeaf Unbroken report ∧
    (PlainText.renderIn report {}).1 = "\n\n".intercalate
      ["- a[1]\n-", "> Note\n> > b", "c\n\nd", "[1] e"] := by
  have hleaves : blocksEveryLeaf Unbroken report := by
    have hcode : Solid "c\n\nd" := ⟨by decide, by decide⟩
    simp [report, blocksEveryLeaf, itemsEveryLeaf, Block.EveryLeaf, inlinesEveryLeaf,
      Inline.EveryLeaf, Unbroken, hcode]
  have htexts : (textsInTurn report {}).filter (! ·.isEmpty) =
      ["- a[1]\n-", "> Note\n> > b", "c\n\nd", "[1] e"] := by decide
  exact ⟨hleaves, htexts ▸ renderIn_eq_intercalate hleaves {}⟩

end RichMarkdown.Layout
