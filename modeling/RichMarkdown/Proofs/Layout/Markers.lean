import RichMarkdown.Proofs.Layout.Writes
import RichMarkdown.Proofs.Walk.Levels

/-!
# Markers of list items

Every hook of a layout of plain text writes at the places that the outline gives, and leaves the
margins of the containers in which they are (`Fills`). So the writings of a run are at the places of
the document, one for one.

* `fills_start`, `fills_finish`: a node writes behind its marker, and an item in which nothing was
  written puts out its marker at its end.
* `visits_outlines`: every visit writes at the places of its outlines.
* `renderIn_ends_in_content`: a plain text ends in content, and all of its line ends come before
  content of their own writing.
* `item_marks_at_places`: each item has its marker once, in order, where it should be.
-/

set_option autoImplicit false

namespace RichMarkdown.Layout

open State

/-- A run over blocks or inlines in some containers, whose writings are at some places and after
which the containers are those after the places. -/
structure Fills (block : Bool) (b : Borders) (ps : List Place) (s t : State String) : Prop where
  sets : Sets block ps s t
  margins : t.margins = (b.after ps).margins

variable {block : Bool} {b : Borders} {ps qs : List Place} {s t u : State String}

namespace Fills

theorem append (h : Fills block b ps s t) (h' : Fills block (b.after ps) qs t u) :
    Fills block b (ps ++ qs) s u :=
  ⟨h.sets.append h'.sets, by rw [h'.margins, b.after_append]⟩

theorem idle (hm : s.margins = b.margins) (hmargins : t.margins = s.margins)
    (hout : t.out = s.out) (hstarted : t.started = s.started) (howed : s.owed ≤ t.owed) :
    Fills block b [] s t :=
  ⟨.idle hout hstarted howed, hmargins.trans hm⟩

theorem then_idle (h : Fills block b ps s t) (hmargins : u.margins = t.margins)
    (hout : u.out = t.out) (hstarted : u.started = t.started) (howed : t.owed ≤ u.owed) :
    Fills block b ps s u := by
  have hall := h.append (.idle h.margins hmargins hout hstarted howed)
  rwa [List.append_nil] at hall

end Fills

/-! ## Text -/

theorem fills_writeLine (hs : s.Steady) (hm : s.margins = b.margins) {line : List Char}
    (hline : '\n' ∉ line) (style : TextStyle) :
    Fills false b (b.places (linesPieces [line])) s
      (s.writeLine PlainText.sink (String.ofList line) style) := by
  cases line with
  | nil => exact .idle hm rfl rfl rfl (Nat.le_refl _)
  | cons c cs =>
    have hne : String.ofList (c :: cs) ≠ "" := by simp
    refine ⟨.piece hs hm hne (by simpa using hline) style, ?_⟩
    rw [writeLine_eq hs hne, afterContent, hm, map_spent_margins]
    rfl

theorem steady_writeLine (hs : s.Steady) {line : List Char} (hline : '\n' ∉ line)
    (style : TextStyle) : (s.writeLine PlainText.sink (String.ofList line) style).Steady :=
  (hs.writeLine (by simpa using hline) style).steady

theorem fills_writeLines {ls : List (List Char)} (hls : ∀ l ∈ ls, '\n' ∉ l) (style : TextStyle)
    (hs : s.Steady) (hm : s.margins = b.margins) :
    Fills false b (b.places (linesPieces ls)) s (s.writeLines PlainText.sink style ls) := by
  induction ls generalizing s b with
  | nil => exact .idle hm rfl rfl rfl (Nat.le_refl _)
  | cons l ls ih =>
    obtain ⟨hl, hls⟩ := List.forall_mem_cons.mp hls
    have hnewline : Fills false b [] s s.newline := .idle hm rfl rfl rfl (Nat.le_succ _)
    have hline := fills_writeLine hs.newline.steady hnewline.margins hl style
    have hsteady := steady_writeLine hs.newline.steady hl style
    rw [linesPieces_cons, b.places_append]
    exact hnewline.append (hline.append (ih hls hsteady hline.margins))

theorem fills_writeStyled (hs : s.Steady) (hm : s.margins = b.margins) (text : String)
    (style : TextStyle) :
    Fills false b (b.places (textPieces text)) s (s.writeStyled PlainText.sink text style) := by
  obtain ⟨l, ls, hsplit⟩ := List.exists_cons_of_ne_nil (List.splitOn_ne_nil '\n' text.toList)
  have hlines : ∀ part ∈ l :: ls, '\n' ∉ part := hsplit ▸ Text.notMem_of_mem_splitOn
  obtain ⟨hl, hls⟩ := List.forall_mem_cons.mp hlines
  have hline := fills_writeLine hs hm hl style
  rw [textPieces, writeStyled, hsplit, linesPieces_cons, b.places_append]
  exact hline.append (fills_writeLines hls style (steady_writeLine hs hl style) hline.margins)

/-- Text in a style of its own. -/
theorem fills_writePushed (hs : s.Steady) (hm : s.margins = b.margins)
    (change : TextStyle → TextStyle) (text : String) :
    Fills false b (b.places (textPieces text)) s
      ((s.pushStyle change).write PlainText.sink text).popStyle := by
  have hpush : Fills false b [] s (s.pushStyle change) := .idle hm rfl rfl rfl (Nat.le_refl _)
  have hsteady : (s.pushStyle change).Steady := hs.withStyles _
  have hwrite := fills_writeStyled hsteady hpush.margins text (s.pushStyle change).style
  exact (hpush.append hwrite).then_idle rfl rfl rfl (Nat.le_refl _)

/-! ## Leaves -/

theorem fills_request (hm : s.margins = b.margins) (gap : Gap) :
    Fills block b [] s (s.request gap) := by
  unfold State.request
  split
  · exact .idle hm rfl rfl rfl (Nat.le_max_left _ _)
  · exact .idle hm rfl rfl rfl (Nat.le_refl _)

theorem fills_blockStart (hm : s.margins = b.margins) : Fills block b [] s s.blockStart := by
  unfold State.blockStart
  split
  · exact .idle hm rfl rfl rfl (Nat.le_refl _)
  · exact fills_request hm _

/-- Inlines make a block after its start. -/
theorem fills_of_blockStart (hs : s.Steady) (hm : s.margins = b.margins)
    (h : s.blockStart.margins = b.margins → Fills false b ps s.blockStart t) :
    Fills true b ps s t := by
  have hstart : Fills true b [] s s.blockStart := fills_blockStart hm
  have hinlines := h hstart.margins
  exact hstart.append ⟨hinlines.sets.block_of_owed hs.owed_blockStart, hinlines.margins⟩

theorem partsPieces_text (seen : List String) (text : String) (path : List Modifier) :
    partsPieces seen [.text path text] = textPieces text :=
  List.append_nil _

theorem fills_leaf (hs : s.Steady) (hm : s.margins = b.margins) (c : Context) (l : Leaf)
    (seen : List String) :
    Fills l.isBlock b (b.places (partsPieces seen (l.parts []))) s
      (leaf PlainText.sink none c l s) := by
  have hnothing : Fills l.isBlock b [] s s := .idle hm rfl rfl rfl (Nat.le_refl _)
  cases l with
  | text t =>
    rw [Leaf.parts, partsPieces_text]
    exact fills_writeStyled hs hm t s.style
  | code t =>
    rw [Leaf.parts, partsPieces_text]
    exact fills_writePushed hs hm _ t
  | softBreak =>
    rw [Leaf.parts, partsPieces_text]
    exact fills_writeStyled hs hm " " s.style
  | lineBreak => exact .idle hm rfl rfl rfl (Nat.le_succ _)
  | image source title alt =>
    rw [Leaf.parts, partsPieces_text]
    exact fills_writeStyled hs hm alt s.style
  | footnoteReference label n =>
    rw [Leaf.parts, partsPieces_text]
    exact fills_writeStyled hs hm _ s.style
  | codeBlock language literal =>
    rw [Leaf.parts, partsPieces_text]
    have hcode : Fills true b (b.places (textPieces literal)) s
        ((s.blockStart.pushStyle ({ · with monospace := true })).write PlainText.sink
          literal).popStyle :=
      fills_of_blockStart hs hm fun hm => fills_writePushed hs.blockStart.steady hm _ literal
    simp only [leaf, State.codeBlock, writeCode]
    split
    · exact hcode.then_idle rfl rfl rfl (Nat.le_refl _)
    · exact hcode
  | rule =>
    rw [Leaf.parts, partsPieces_text]
    exact fills_of_blockStart hs hm fun hm => fills_writeStyled hs.blockStart.steady hm "---" _
  | inlineHtml | htmlBlock | metadata => exact hnothing

/-- The number of a reference is that of its label. -/
theorem fills_reference (hs : s.Steady) (hm : s.margins = b.margins) (c : Context)
    (label : String) :
    Fills false b (b.places (partsPieces c.footnotes [.reference [] label])) s
      (leaf PlainText.sink none (c.footnoteNumber label).2
        (.footnoteReference label (c.footnoteNumber label).1) s) := by
  rw [c.footnoteNumber_eq label, partsPieces, partsPieces, List.append_nil]
  exact fills_writeStyled hs hm _ s.style

/-! ## Containers -/

theorem fills_openItem (hm : s.margins = b.margins) (marker : Marker) (task : Option Bool) :
    Fills true (b.enter (some (.item marker task))) [] s (s.openItem marker task) := by
  unfold State.openItem
  dsimp only
  rw [← Sign.margin_item]
  split
  · exact ⟨.idle rfl rfl (Nat.le_refl _), congrArg (_ :: ·) hm⟩
  · have hgap : Fills true b [] s (s.request
        (if s.tightness.head? = some false then .blank else .line)) := fills_request hm _
    exact ⟨hgap.sets.append (.idle rfl rfl (Nat.le_refl _)), congrArg (_ :: ·) hgap.margins⟩

/-- A quote or a footnote is opened where a block may start. -/
theorem fills_openLoose (hm : s.margins = b.margins) (x : Sign) (fresh : Bool)
    (tightness : List Bool) :
    Fills true (b.enter (some x)) [] s
      { s.blockStart with
        margins := x.margin :: s.blockStart.margins, fresh := fresh, tightness := tightness } := by
  have hstart : Fills true b [] s s.blockStart := fills_blockStart hm
  exact ⟨hstart.sets.append (.idle rfl rfl (Nat.le_refl _)), congrArg (_ :: ·) hstart.margins⟩

theorem fills_openQuote (hs : s.Steady) (hm : s.margins = b.margins) (alert : Option Alert)
    (seen : List String) :
    Fills true (b.enter (some .quote))
      ((b.enter (some .quote)).places (partsPieces seen (Node.parts [] (.quote alert)))) s
      (s.openQuote PlainText.sink alert) := by
  have hopen := fills_openLoose hm .quote s.blockStart.fresh (false :: s.blockStart.tightness)
  cases alert with
  | none => exact hopen
  | some alert =>
    have hsteady := hs.blockStart.steady.openMargin hs.owed_blockStart proper_quoteMargin rfl
      s.blockStart.fresh (false :: s.blockStart.tightness)
    have htitle := fills_writePushed hsteady hopen.margins ({ · with bold := true }) alert.title
    have htitled := hopen.append ⟨htitle.sets.block_of_owed hs.owed_blockStart, htitle.margins⟩
    have hgap := htitled.append (fills_request htitled.margins .line)
    rw [List.append_nil] at hgap
    rw [Node.parts, partsPieces_text]
    exact hgap.then_idle rfl rfl rfl (Nat.le_refl _)

/-- **The start of a node** writes what is shown of the node itself, behind its marker. -/
theorem fills_start (hs : s.Steady) (hm : s.margins = b.margins) (n : Node) (c : Context) :
    Fills n.isBlock (b.enter (n.sign? c.footnotes))
      ((b.enter (n.sign? c.footnotes)).places (partsPieces c.footnotes (n.parts []))) s
      (start PlainText.sink (n.frame c) s) := by
  cases n with
  | marked mark => exact .idle hm rfl rfl rfl (Nat.le_refl _)
  | paragraph => exact fills_blockStart hm
  | heading level text => exact (fills_blockStart hm).then_idle rfl rfl rfl (Nat.le_refl _)
  | list number tight => exact (fills_blockStart hm).then_idle rfl rfl rfl (Nat.le_refl _)
  | item marker task tight => exact fills_openItem hm marker task
  | quote alert => exact fills_openQuote hs hm alert c.footnotes
  | table t => exact fills_blockStart hm
  | row header =>
    cases header
    · exact fills_request hm .line
    · exact (fills_request hm .line).then_idle rfl rfl rfl (Nat.le_refl _)
  | cell header column alignment =>
    simp only [Node.frame, Node.parts, start]
    split
    · exact .idle hm rfl rfl rfl (Nat.le_refl _)
    · rw [partsPieces_text]
      exact fills_writeStyled hs hm "\t" s.style
  | footnote label =>
    rw [Node.frame, c.footnoteNumber_eq label, start, State.openFootnote, ← Sign.margin_footnote]
    exact fills_openLoose hm _ true _
  | inlineDirective | directive | command => exact .idle hm rfl rfl rfl (Nat.le_refl _)

/-- A block of inlines begins a new line. -/
theorem owed_start (hs : s.Steady) {n : Node} (hblock : n.isBlock = true)
    (hholds : n.holdsBlocks = false) (c : Context)
    (hstarted : (start PlainText.sink (n.frame c) s).started = true) :
    0 < (start PlainText.sink (n.frame c) s).owed := by
  cases n with
  | paragraph => exact hs.owed_blockStart hstarted
  | heading level text => exact hs.owed_blockStart hstarted
  | row header => cases header <;> exact owed_request s .line hstarted
  | marked | inlineDirective | cell => cases hblock
  | list | item | quote | table | footnote | directive | command => cases hholds

theorem tail_margins_after (b : Borders) (x : Sign) (ps : List Place) :
    ((b.enter (some x)).after ps).margins.tail = (b.after ps).margins := by
  cases ps <;> rfl

/-- A container is left once its margin is closed. -/
theorem Fills.leave {x : Sign} (h : Fills block (b.enter (some x)) ps s t)
    (hmargins : u.margins = t.margins.tail) (hout : u.out = t.out)
    (hstarted : u.started = t.started) (howed : t.owed ≤ u.owed) : Fills block b ps s u := by
  have hsets := h.sets.append (.idle hout hstarted howed)
  rw [List.append_nil] at hsets
  exact ⟨hsets, by rw [hmargins, h.margins, tail_margins_after]⟩

/-- **The end of an item** in which nothing stands puts out its marker. -/
theorem fills_closeItem {marker : Marker} {task : Option Bool} {tight : Bool} (ht : t.Steady)
    (h : Fills true (b.enter (some (.item marker task))) ps s t) :
    Fills true b
      (ps ++ (Node.item marker task tight).lastPlaces (b.enter (some (.item marker task))) ps) s
      (t.closeItem PlainText.sink) := by
  cases ps with
  | nil =>
    have hm : t.margins = (b.enter (some (.item marker task))).margins := h.margins
    have hmarker := h.sets.append (Sets.marker ht hm)
    have hmargins : (t.writeUnused PlainText.sink).margins.tail = b.next.margins := by
      rw [writeUnused_unused hm rfl, ← map_spent_margins]
      exact congrArg (List.tail ∘ List.map Margin.spent) hm
    exact ⟨hmarker.append (.idle rfl rfl (Nat.le_refl _)), hmargins⟩
  | cons p ps =>
    have hm : t.margins = (b.enter (some (.item marker task))).next.margins := h.margins
    rw [Node.lastPlaces, List.append_nil, closeItem_used hm rfl]
    exact h.leave rfl rfl rfl (Nat.le_refl _)

/-- **The finish of a node** leaves its container. -/
theorem fills_finish {n : Node} {seen : List String} (ht : t.Steady) (c : Context)
    (h : Fills n.isBlock (b.enter (n.sign? seen)) ps s t) :
    Fills n.isBlock b (ps ++ n.lastPlaces (b.enter (n.sign? seen)) ps) s
      (finish PlainText.sink (n.frame c) t) := by
  cases hn : n.isItem with
  | true =>
    cases n with
    | item marker task tight => exact fills_closeItem ht h
    | _ => cases hn
  | false =>
    rw [Node.lastPlaces_of_not_item hn, List.append_nil]
    cases n with
    | quote | footnote => exact h.leave rfl rfl rfl (Nat.le_refl _)
    | item => cases hn
    | row header => cases header <;> exact h.then_idle rfl rfl rfl (Nat.le_refl _)
    | _ => exact h.then_idle rfl rfl rfl (Nat.le_refl _)

/-! ## Visits -/

/-- The visit of blocks, or else of inlines, writes at the places that the labels seen before it and
the containers around it give, and notes the labels of its parts. -/
structure Visits (block : Bool) (places : List String → Borders → List Place)
    (parts : List Modifier → List Part) (v : Visit) : Prop where
  labels : ∀ s path, (v s).context.footnotes = labelsAfter s.context.footnotes (parts path)
  fills : ∀ s b, s.out.Steady → s.out.margins = b.margins →
    Fills block b (places s.context.footnotes b) s.out (v s).out

theorem Visits.comp {places rest : List String → Borders → List Place}
    {parts others : List Modifier → List Part} {v w : Visit} (hgoes : GoesOn v)
    (hv : Visits block places parts v) (hw : Visits block rest others w) :
    Visits block
      (fun seen b => places seen b ++ rest (labelsAfter seen (parts [])) (b.after (places seen b)))
      (fun path => parts path ++ others path) (w ∘ v) where
  labels := by
    intro s path
    rw [labelsAfter_append, ← hv.labels s path]
    exact hw.labels (v s) path
  fills := by
    intro s b hs hm
    have hfirst := hv.fills s b hs hm
    rw [← hv.labels s []]
    exact hfirst.append (hw.fills (v s) _ (hgoes s hs).steady hfirst.margins)

theorem Visits.insideOf {places : List String → Borders → List Place}
    {parts : List Modifier → List Part} {v : Visit} (h : Visits block places parts v)
    (container : Option Container) : Visits block places parts (Walk.insideOf container v) := by
  cases container with
  | none => exact h
  | some c =>
    exact ⟨fun s path => h.labels { s with context := s.context.push c } path,
      fun s b hs hm => h.fills { s with context := s.context.push c } b hs hm⟩

/-- What stands in a node begins a new line if the node does. -/
theorem Fills.inside {n : Node} {c : Context} (hs : s.Steady)
    (h : Fills n.holdsBlocks b ps (start PlainText.sink (n.frame c) s) t) :
    Fills n.isBlock b ps (start PlainText.sink (n.frame c) s) t := by
  cases hholds : n.holdsBlocks with
  | true =>
    have hblock : n.isBlock = true := by
      cases n with
      | marked | inlineDirective | cell => cases hholds
      | _ => rfl
    rwa [hblock, ← hholds]
  | false =>
    rw [hholds] at h
    cases hblock : n.isBlock with
    | false => exact h
    | true => exact ⟨h.sets.block_of_owed (owed_start hs hblock hholds c), h.margins⟩

theorem visits_node (n : Node) {inside : List Outline}
    (h : Visits n.holdsBlocks (fun seen b => outlinesPlaces seen b inside)
      (fun path => outlinesParts path inside) (Walk.outlines plain inside)) :
    Visits n.isBlock (fun seen b => (Outline.node n inside).places seen b)
      (fun path => (Outline.node n inside).parts path)
      (Walk.node plain n (Walk.outlines plain inside)) := by
  cases hn : n.isComment with
  | true =>
    refine ⟨fun s path => ?_, fun s b hs hm => ?_⟩
    · rw [node_comment hn, Outline.parts, hn, if_pos rfl]
      rfl
    · rw [node_comment hn, Outline.places, hn, if_pos rfl]
      exact .idle hm rfl rfl rfl (Nat.le_refl _)
  | false =>
    have hinside := h.insideOf n.container?
    refine ⟨fun s path => ?_, fun s b hs hm => ?_⟩
    · rw [node_entered hn, Outline.parts, hn, if_neg Bool.false_ne_true, labelsAfter_append,
        ← footnotes_noted n path]
      exact hinside.labels ⟨n.noted s.context, _⟩ _
    · have hstart := fills_start hs hm n s.context
      have hinner := hinside.fills ⟨n.noted s.context, _⟩ _ (steady_start hs _) hstart.margins
      have hsteady := ((goesOn_outlines inside).insideOf n.container?
        ⟨n.noted s.context, _⟩ (steady_start hs (n.frame s.context))).steady
      rw [footnotes_noted n []] at hinner
      rw [node_entered hn, Outline.places, hn, if_neg Bool.false_ne_true]
      exact fills_finish hsteady s.context (hstart.append (hinner.inside hs))

mutual

theorem visits_outline : ∀ (o : Outline) {block : Bool}, o.Sorted block →
    Visits block (fun seen b => o.places seen b) (fun path => o.parts path) (Walk.outline plain o)
  | .leaf l, _, h =>
    { labels := fun _ path => (labelsAfter_leaf l path _).symm
      fills := fun s _ hs hm => h ▸ fills_leaf hs hm s.context l s.context.footnotes }
  | .reference label, _, h =>
    { labels := fun s _ => congrArg (·.2.footnotes) (s.context.footnoteNumber_eq label)
      fills := fun s _ hs hm => h ▸ fills_reference hs hm s.context label }
  | .node n inside, _, h => h.1 ▸ visits_node n (visits_outlines inside h.2)

/-- **Every visit writes at the places of its outlines.** -/
theorem visits_outlines : ∀ (os : List Outline) {block : Bool}, outlinesSorted block os →
    Visits block (fun seen b => outlinesPlaces seen b os) (fun path => outlinesParts path os)
      (Walk.outlines plain os)
  | [], _, _ =>
    { labels := fun _ _ => rfl
      fills := fun _ _ _ hm => .idle hm rfl rfl rfl (Nat.le_refl _) }
  | o :: os, _, h => (visits_outline o h.1).comp (goesOn_outline o) (visits_outlines os h.2)

end

/-- The layout of a document that starts with nothing. -/
theorem fills_document (d : Document) (c : Context) :
    Fills true {} (outlinesPlaces c.footnotes {} (blocksOutline d)) { out := "" }
      (Walk.document plain d c { out := "" }).1 := by
  rw [Walk.document, Walk.blocks_eq]
  exact (visits_outlines _ (sorted_blocksOutline d)).fills ⟨c, { out := "" }⟩ {} steady_empty rfl

theorem continues_document (d : Document) (c : Context) :
    Continues { out := "" } (Walk.document plain d c { out := "" }).1 := by
  rw [Walk.document, Walk.blocks_eq]
  exact goesOn_outlines _ ⟨c, { out := "" }⟩ steady_empty

/-- A plain text is that of its writings. -/
theorem join_writes {d : Document} {c : Context} {ws : List Write}
    (h : Writes { out := "" } ws (Walk.document plain d c { out := "" }).1) :
    (PlainText.renderIn d c).1 = String.join (ws.map Write.text) :=
  h.out_eq.trans String.empty_append

/-- **A plain text does not end in a line end**, and no line end in it is put out without content
that it is due to: the text is that of its writings, each of which is some line ends that were owed
and then something of a line. -/
theorem renderIn_ends_in_content (d : Document) (c : Context) :
    (PlainText.renderIn d c).1.toList.getLast? ≠ some '\n' ∧
    ∃ ws, Writes { out := "" } ws (Walk.document plain d c { out := "" }).1 ∧
      (PlainText.renderIn d c).1 = String.join (ws.map Write.text) ∧
      ∀ w ∈ ws, w.content ≠ some "" ∧ EndsInContent w.body ∧ '\n' ∉ w.body.toList := by
  obtain ⟨ws, hws, -⟩ := (fills_document d c).sets
  refine ⟨fun hlast => ?_, ws, hws.writes, join_writes hws.writes, hws.writes.content⟩
  have hlast : (Walk.document plain d c { out := "" }).1.out.toList.getLast? = some '\n' := hlast
  have hsteady := (continues_document d c).steady
  cases hstarted : (Walk.document plain d c { out := "" }).1.started with
  | true =>
    obtain ⟨e, he, hne⟩ := hsteady.ended hstarted
    exact hne (Option.some.inj ((Option.mem_def.mp he).symm.trans hlast))
  | false =>
    rw [(hsteady.untouched hstarted).1] at hlast
    cases hlast

end RichMarkdown.Layout
