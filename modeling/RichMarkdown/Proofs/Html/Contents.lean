import RichMarkdown.Proofs.Html.Shown

/-!
# The contents of a page

The title and the table of contents of a page are collected apart from its markup, yet they agree
with it. The step is one visit (`Lists`): it adds pieces in which headings stand with their anchors,
and the context notes these headings with the same anchors and no others. What is not a heading
leaves title and contents as they are and writes no tag of a heading.

* `lists_block`: what a block lists, by recursion on the tree.
* `contents_page`: the headings on a page, its title and its table of contents are those of the
  document.
-/

set_option autoImplicit false

namespace RichMarkdown.Html

/-- The visit adds the headings to the page, and the context notes them with their anchors. -/
def Lists (v : Visit) (hs : List String → List Heading) : Prop :=
  ∀ s, ∃ ps ids, (v s).out = s.out.write ps ∧ Headed ps (hs s.context.footnotes) ids ∧
    s.context.Notes (entries (hs s.context.footnotes) ids) (v s).context

/-- The visit adds no heading. -/
abbrev Quiet (v : Visit) : Prop := Lists v fun _ => []

section

variable {settings : Settings} {v w : Visit} {hs hs' : List String → List Heading}

/-! ## Steps -/

theorem Lists.idle : Quiet id := fun s =>
  ⟨[], [], (write_nil s.out).symm, .nil, .none rfl rfl⟩

theorem Lists.leaf {l : Leaf} (hl : isRaw l = false) :
    Quiet (Walk.leaf (backend settings) l) := by
  intro s
  refine ⟨leafPieces settings l, [], rfl, .of_avoids ?_, .none rfl rfl⟩
  cases l with
  | codeBlock language literal =>
    have hcode : (codePieces settings language literal).all (Piece.avoids headingTags) :=
      avoids_codePieces (by decide) settings language literal
    simp only [leafPieces, codeBlock, List.all_append, hcode]
    rfl
  | inlineHtml t => cases hl
  | htmlBlock t => cases hl
  | _ => rfl

/-- One visit after the other. The headings of the second depend on the footnotes that the first
leaves. -/
theorem Lists.comp {all : List String → List Heading} (hv : Lists v hs)
    (hw : Lists w hs')
    (hall : ∀ s, all s.context.footnotes = hs s.context.footnotes ++ hs' (v s).context.footnotes) :
    Lists (w ∘ v) all := by
  intro s
  obtain ⟨ps, ids, hout, hheaded, hnotes⟩ := hv s
  obtain ⟨qs, ids', hout', hheaded', hnotes'⟩ := hw (v s)
  rw [hall]
  refine ⟨ps ++ qs, ids ++ ids', ?_, hheaded.append hheaded', ?_⟩
  · rw [Function.comp_apply, hout', hout, write_write]
  · rw [entries, List.zipWith_append hheaded.length_ids.symm]
    exact hnotes.trans hnotes'

theorem Lists.seq {xs : List Shown} (hv : Lists v hs) (hx : Shows settings v xs)
    (hw : Lists w hs') :
    Lists (w ∘ v) fun seen => hs seen ++ hs' (seenAfter seen xs) := by
  refine hv.comp hw fun s => ?_
  obtain ⟨_, _, hseen, _⟩ := hx s
  rw [hseen]

theorem Lists.quiet (hv : Quiet v) (hw : Quiet w) : Quiet (w ∘ v) :=
  hv.comp hw fun _ => rfl

theorem Lists.inside (c : Container) (hv : Lists v hs) :
    Lists (Walk.inside c v) hs := by
  intro s
  obtain ⟨ps, ids, hout, hheaded, hnotes⟩ := hv { s with context := s.context.push c }
  exact ⟨ps, ids, hout, hheaded, ⟨hnotes.title, hnotes.toc⟩⟩

theorem Lists.numbered (label : String) {v : Nat → Visit} (hv : ∀ n, Lists (v n) hs) :
    Lists (Walk.numbered label v) fun seen => hs (seeLabel seen label) := by
  intro s
  simp only [Walk.numbered, s.context.footnoteNumber_eq label]
  obtain ⟨ps, ids, hout, hheaded, hnotes⟩ := hv
    (labelNumber (seeLabel s.context.footnotes label) label)
    { s with context := { s.context with footnotes := seeLabel s.context.footnotes label } }
  exact ⟨ps, ids, hout, hheaded, ⟨hnotes.title, hnotes.toc⟩⟩

theorem Lists.framed {f : Frame} (hf : isHeading f = false) (hflow : f.defaultFlow = .enter)
    (hv : Lists v hs) : Lists (Walk.framed (backend settings) f v) hs := by
  intro s
  obtain ⟨ps, ids, hout, hheaded, hnotes⟩ := hv (opening settings f s)
  rw [framed_around hflow hout]
  have hstart : Headed (startPieces settings f) [] [] :=
    .of_avoids (all_avoids_mono (by decide) (startPieces_plain settings hf))
  have hclose : Headed (closingPieces f) [] [] :=
    .of_avoids (all_avoids_mono (by decide) (closingPieces_plain hf))
  refine ⟨_, ids, rfl, ?_, hnotes⟩
  have hall := hstart.append (hheaded.append hclose)
  rwa [List.nil_append, List.nil_append, List.append_nil, List.append_nil] at hall

/-- Nothing is listed of a frame that is skipped. -/
theorem Lists.skipped {f : Frame} (v : Visit) (hflow : f.defaultFlow = .skip) :
    Quiet (Walk.framed (backend settings) f v) := fun s =>
  ⟨[], [], by simp [Walk.framed, backend, hflow, write_nil], .nil,
    by simpa [Walk.framed, backend, hflow] using .none rfl rfl⟩

theorem Lists.paragraph (hv : Lists v hs) :
    Lists (Walk.paragraph (backend settings) v) hs := fun s =>
  hv.framed (f := .paragraph s.context.inTightItem) rfl rfl s

/-- The pieces that a visit adds are determined by the page. -/
theorem write_injective (s : PageState) {ps qs : List Piece} (h : s.write ps = s.write qs) :
    ps = qs := by
  have hpieces := congrArg (·.pieces.toList) h
  simpa [toList_pieces_write] using hpieces

/-- **A heading is listed** with the anchor that the page carries. -/
theorem Lists.headed (ha : settings.anchors = true) (level : Nat) (content : List Inline)
    (hv : Quiet v) (hx : Shows settings v (inlinesShown content)) :
    Lists (Walk.headed (backend settings) level (plainText content) v)
      fun seen => [⟨level, content, seen⟩] := by
  intro s
  have hseen := s.context.footnotes_registerHeading level (plainText content)
  have hnoted := s.context.notes_registerHeading level (plainText content)
  rw [Walk.headed]
  generalize s.context.registerHeading level (plainText content) = r at hseen hnoted ⊢
  obtain ⟨id, c⟩ := r
  obtain ⟨ps, ids, hout, hheaded, hnotes⟩ := hv (opening settings (.heading level id) ⟨c, s.out⟩)
  obtain ⟨qs, hout', -, hread⟩ := hx (opening settings (.heading level id) ⟨c, s.out⟩)
  obtain rfl : ps = qs := write_injective _ (hout.symm.trans hout')
  have htext : ps.flatMap Piece.shown = shownText s.context.footnotes (inlinesShown content) :=
    hseen ▸ hread.text
  rw [framed_around rfl hout]
  refine ⟨_, [id], rfl, ?_, hnoted.trans hnotes⟩
  have hheading := Headed.heading (h := ⟨level, content, s.context.footnotes⟩) id hheaded.avoids
    htext .nil
  simpa [startPieces, closingPieces, finishPieces, ha] using hheading

end

/-! ## Walks -/

section

variable {settings : Settings}

mutual

theorem quiet_inline : ∀ i : Inline, i.EveryLeaf (fun l => isRaw l = false) →
    Quiet (Walk.inline (backend settings) i)
  | .text _, hi | .code _, hi | .softBreak, hi | .lineBreak, hi | .html _, hi
  | .image _ _ _, hi => .leaf hi
  | .footnote label, hi => .numbered label fun n => .leaf (hi n)
  | .marked _ children, hi => (quiet_inlines children hi).framed rfl rfl
  | .directive name attributes content, hi => by
    cases hflow : (Frame.inlineDirective name attributes).defaultFlow with
    | skip => exact .skipped _ hflow
    | enter => exact (quiet_inlines content hi).framed rfl hflow

theorem quiet_inlines : ∀ is : List Inline, inlinesEveryLeaf (fun l => isRaw l = false) is →
    Quiet (Walk.inlines (backend settings) is)
  | [], _ => .idle
  | i :: is, hi => (quiet_inline i hi.1).quiet (quiet_inlines is hi.2)

end

theorem quiet_cells (t : Table) (header : Bool) : ∀ (column : Nat) (cs : List (List Inline)),
    rowEveryLeaf (fun l => isRaw l = false) cs →
    Quiet (Walk.cells (backend settings) t header column cs)
  | _, [], _ => .idle
  | column, cell :: rest, hc =>
    ((quiet_inlines cell (hc cell List.mem_cons_self)).framed rfl rfl).quiet
      (quiet_cells t header (column + 1) rest fun c hm => hc c (List.mem_cons_of_mem _ hm))

theorem quiet_rows (t : Table) : ∀ rs : List (List (List Inline)),
    (∀ r ∈ rs, rowEveryLeaf (fun l => isRaw l = false) r) →
    Quiet (Walk.rows (backend settings) t rs)
  | [], _ => .idle
  | r :: rs, hr =>
    ((quiet_cells t false 0 r (hr r List.mem_cons_self)).framed rfl rfl).quiet
      (quiet_rows t rs fun r' hm => hr r' (List.mem_cons_of_mem _ hm))

theorem quiet_commandArgument (c : Command) :
    Quiet (Walk.commandArgument (backend settings) c) := by
  unfold Walk.commandArgument
  cases c.argument with
  | none => exact .idle
  | some argument =>
    refine Lists.quiet (.leaf rfl) ?_
    split
    · exact .idle
    · exact .leaf rfl

theorem quiet_leafLabel (head : Directive)
    (hl : head.kind = .leaf → inlinesEveryLeaf (fun l => isRaw l = false) head.label) :
    Quiet (Walk.leafLabel (backend settings) head) := by
  unfold Walk.leafLabel
  split
  · rename_i hk
    exact (quiet_inlines head.label (hl hk.1)).paragraph
  · exact .idle

mutual

/-- What a block lists. -/
theorem lists_block (ha : settings.anchors = true) : ∀ x : Block,
    x.EveryLeaf (fun l => isRaw l = false) →
    Lists (Walk.block (backend settings) x) fun seen => x.headings seen
  | .paragraph content, hx => (quiet_inlines content hx).paragraph
  | .heading level content, hx =>
    .headed ha level content (quiet_inlines content hx)
      ((shows_showing settings).inlines content hx)
  | .code _ _, hx | .rule, hx | .html _, hx | .metadata _, hx => .leaf hx
  | .list start tight children, hx =>
    ((lists_items ha tight start children hx).inside _).framed rfl rfl
  | .quote _ children, hx => ((lists_blocks ha children hx).inside _).framed rfl rfl
  | .table t, hx =>
    (((quiet_cells t true 0 t.header hx.1).framed rfl rfl).quiet
      (quiet_rows t t.rows hx.2)).framed rfl rfl
  | .footnote label children, hx =>
    .numbered label fun _ => ((lists_blocks ha children hx).inside _).framed rfl rfl
  | .directive head children, hx => by
    simp only [Block.headings]
    split
    · rename_i hn
      exact .skipped _ (if_pos hn)
    · rename_i hn
      exact (((quiet_leafLabel head hx.1).seq ((shows_showing settings).leafLabel head hx.1)
        (lists_blocks ha children hx.2)).inside _).framed rfl (if_neg hn)
  | .command c, hx =>
    ((quiet_commandArgument c).quiet (quiet_inlines c.content hx.2)).paragraph.framed rfl rfl

theorem lists_blocks (ha : settings.anchors = true) : ∀ xs : List Block,
    blocksEveryLeaf (fun l => isRaw l = false) xs →
    Lists (Walk.blocks (backend settings) xs) fun seen => blocksHeadings seen xs
  | [], _ => .idle
  | x :: xs, hx =>
    (lists_block ha x hx.1).seq ((shows_showing settings).block x hx.1) (lists_blocks ha xs hx.2)

theorem lists_items (ha : settings.anchors = true) (tight : Bool) :
    ∀ (number : Option UInt64) (is : List Item), itemsEveryLeaf (fun l => isRaw l = false) is →
    Lists (Walk.items (backend settings) tight number is) fun seen => itemsHeadings seen is
  | _, [], _ => .idle
  | number, ⟨task, children⟩ :: rest, hi => by
    have hitem : Lists (Walk.framed (backend settings) (.item (Walk.marker number) task)
        (Walk.inside (.item tight) (Walk.blocks (backend settings) children)))
        fun seen => blocksHeadings seen children :=
      ((lists_blocks ha children hi.1).inside _).framed rfl rfl
    have hshown := (shows_showing settings).framed (f := .item (Walk.marker number) task) rfl rfl
      ((shows_showing settings).inside (.item tight)
        ((shows_showing settings).blocks children hi.1))
    refine hitem.comp (lists_items ha tight (number.map Walk.nextNumber) rest hi.2) fun s => ?_
    obtain ⟨_, _, hseen, _⟩ := hshown s
    rw [hseen, seenAfter_append, seenAfter_texts]
    rfl

end

end

/-! ## Pages -/

/-- **The contents of a page are those of its document.** With anchors, the headings on the page of
a document without raw markup are those of the document, in their order, each with an id of its
own; the first of level one gives the title, and all others are listed in the table of contents
under these ids. -/
theorem contents_page {settings : Settings} (ha : settings.anchors = true) {d : Document}
    (hd : NoRawMarkup d) :
    ∃ ids, ids.length = (blocksHeadings [] d).length ∧
      headingElements (lexemes (page settings d).html.toList) =
        List.zipWith headingElement (blocksHeadings [] d) ids ∧
      (page settings d).title = titleOf (blocksHeadings [] d) ∧
      (page settings d).toc = (entries (blocksHeadings [] d) ids).eraseP (·.level = 1) := by
  obtain ⟨ps, ids, hout, hheaded, hnotes⟩ := lists_blocks ha d hd ⟨{}, {}⟩
  have hlength := hheaded.length_ids
  have hpieces := pagePieces_eq hout
  have hread : headingElements (lexemes (page settings d).html.toList) =
      List.zipWith headingElement (blocksHeadings [] d) ids := by
    show headingElements (lexemes (renderIn settings d {}).1.toList) = _
    rw [renderIn_eq, lexemes_render (pagePieces_sound settings hd {}), hpieces]
    exact hheaded.read
  refine ⟨ids, hlength, hread, ?_, ?_⟩
  · exact hnotes.title.trans (title_entries hlength)
  · exact hnotes.toc

/-- A document with its title in a quote and after another heading, with a heading that is repeated
and an empty one, and with one in a comment. -/
def report : Document :=
  [.heading 2 [.text "Scope"],
    .quote none [.heading 1 [.text " On ", .footnote "x"]],
    .directive ⟨"Comment", .container, [], {}⟩ [.heading 1 [.text "hidden"]],
    .list none true [⟨none, [.directive ⟨"box", .container, [], {}⟩ [.heading 2 [.text "Scope"]]]⟩],
    .footnote "x" [.heading 1 []]]

theorem noRawMarkup_report : NoRawMarkup report := by
  simp [NoRawMarkup, report, blocksEveryLeaf, Block.EveryLeaf, itemsEveryLeaf, inlinesEveryLeaf,
    Inline.EveryLeaf, isRaw]

theorem contents_report :
    NoRawMarkup report ∧ ∃ a b c e,
      headingElements (lexemes (page {} report).html.toList) =
        [⟨.h2, some a, "Scope".toList⟩, ⟨.h1, some b, " On 1".toList⟩,
          ⟨.h2, some c, "Scope".toList⟩, ⟨.h1, some e, []⟩] ∧
      (page {} report).title = some "On" ∧
      (page {} report).toc = [⟨2, "Scope", a⟩, ⟨2, "Scope", c⟩, ⟨1, "", e⟩] := by
  obtain ⟨ids, hlength, hread, htitle, htoc⟩ :=
    contents_page (rfl : ({} : Settings).anchors) noRawMarkup_report
  match ids, hlength with
  | [a, b, c, e], _ =>
    exact ⟨noRawMarkup_report, a, b, c, e, hread.trans rfl, htitle.trans rfl, htoc.trans rfl⟩

end RichMarkdown.Html
