import RichMarkdown.Html.Page
import RichMarkdown.Proofs.Html.Grammar
import RichMarkdown.Proofs.Walk.Congruence

/-!
# The nesting of a page

Whatever a walk visits, it adds balanced pieces to the page and leaves the open call-outs as they
were (`Writes`), as long as it meets no raw markup. The step is one frame: what its start and its
finish write around balanced pieces is balanced (`balanced_frame`), where the two tags agree
although each is computed for itself. A table is one step with its header row, which opens the body
of the table that the finish of the table closes (`balanced_table`).

* `fragment_renderIn`: a page without raw markup is a well-formed fragment.
-/

set_option autoImplicit false

namespace RichMarkdown.Html

/-! ## Pieces of leaves -/

/-- Whether a leaf is markup that goes to the page as it is. -/
def isRaw : Leaf → Bool
  | .inlineHtml _ | .htmlBlock _ => true
  | _ => false

/-- A document in which no block and no inline is raw markup. -/
def NoRawMarkup (d : Document) : Prop := blocksEveryLeaf (fun l => isRaw l = false) d

theorem named_nil : Named [] := fun _ h => absurd h List.not_mem_nil

theorem named_cons {a : Attribute} {as : List Attribute} (ha : IsName a.name.toList)
    (has : Named as) : Named (a :: as) :=
  List.forall_mem_cons.mpr ⟨ha, has⟩

theorem named_attr {name value : String} {as : List Attribute} (hn : IsName name.toList)
    (has : Named as) : Named (attr name value :: as) :=
  named_cons hn has

theorem named_append {as bs : List Attribute} (ha : Named as) (hb : Named bs) : Named (as ++ bs) :=
  List.forall_mem_append.mpr ⟨ha, hb⟩

theorem named_titleAttr (title : String) : Named (titleAttr title) := by
  unfold titleAttr
  split
  · exact named_nil
  · exact named_attr (by decide) named_nil

theorem balanced_text (s : String) : Balanced [.text s] := .text s .nil

/-- A text in an element with a class. -/
theorem balanced_classTag {t : Tag} (ht : t.isVoid = false) (cls s : String) :
    Balanced [classTag t cls, .text s, .endTag t] :=
  .around ht (named_attr (by decide) named_nil) (balanced_text s)

theorem balanced_segments (segments : List Segment) :
    Balanced (segments.flatMap segmentPieces) := by
  induction segments with
  | nil => exact .nil
  | cons x xs ih =>
    rw [List.flatMap_cons]
    refine .append ?_ ih
    unfold segmentPieces
    split
    · exact balanced_classTag rfl _ _
    · exact balanced_text x.text

theorem balanced_codePieces (settings : Settings) (language : Option String) (literal : String) :
    Balanced (codePieces settings language literal) := by
  unfold codePieces
  split
  · exact balanced_segments _
  · exact balanced_text literal

theorem balanced_codeBlock (settings : Settings) (language : Option String) (literal : String) :
    Balanced (codeBlock settings language literal) := by
  have hname : Named (language.toList.map fun l => attr "class" ("language-" ++ l)) := by
    cases language with
    | none => exact named_nil
    | some l => exact named_attr (by decide) named_nil
  have hcode := Balanced.around (t := .code) rfl hname
    (balanced_codePieces settings language literal)
  have hpre := Balanced.around (t := .pre) rfl named_nil hcode
  simpa [codeBlock, plainTag] using hpre

theorem balanced_leafPieces (settings : Settings) {l : Leaf} (h : isRaw l = false) :
    Balanced (leafPieces settings l) := by
  cases l with
  | text s => exact balanced_text s
  | code s => exact .around rfl named_nil (balanced_text s)
  | softBreak => exact balanced_text "\n"
  | lineBreak => exact .void rfl named_nil .nil
  | image source title alt =>
    exact .void rfl (named_attr (by decide)
      (named_append (named_titleAttr title) (named_attr (by decide) named_nil))) .nil
  | footnoteReference label n =>
    exact .around (i := [.startTag .a [attr "href" ("#fn-" ++ label)], .text (toString n),
        .endTag .a]) rfl (named_attr (by decide) named_nil)
      (.around rfl (named_attr (by decide) named_nil) (balanced_text _))
  | codeBlock language literal => exact balanced_codeBlock settings language literal
  | rule => exact .void rfl named_nil .nil
  | metadata s => exact .nil
  | inlineHtml s => cases h
  | htmlBlock s => cases h

/-! ## Pieces of frames -/

theorem isVoid_markTag (mark : Mark) : (markTag mark).isVoid = false := by cases mark <;> rfl

theorem isVoid_ofLevel (level : Nat) : (Tag.ofLevel level).isVoid = false := by
  unfold Tag.ofLevel
  split <;> rfl

theorem isVoid_cellTag (header : Bool) : (cellTag header).isVoid = false := by
  cases header <;> rfl

theorem named_markAttributes (mark : Mark) : Named (markAttributes mark) := by
  cases mark with
  | link destination title => exact named_attr (by decide) (named_titleAttr title)
  | _ => exact named_nil

theorem named_alignmentAttributes (a : Alignment) : Named (alignmentAttributes a) := by
  cases a with
  | none => exact named_nil
  | _ => exact named_attr (by decide) named_nil

theorem balanced_taskPieces (task : Option Bool) : Balanced (taskPieces task) := by
  cases task with
  | none => exact .nil
  | some checked =>
    refine .void rfl (named_attr (by decide) (named_append ?_ (named_cons (by decide) named_nil)))
      (balanced_text " ")
    cases checked
    · exact named_nil
    · exact named_cons (by decide) named_nil

/-- A call-out around balanced pieces. -/
theorem balanced_alert (alert : Alert) (title : String) {ps : List Piece} (h : Balanced ps) :
    Balanced (alertStart alert title ++ ps ++ alertFinish) := by
  have hclass (v : String) : Named [attr "class" v] := named_attr (by decide) named_nil
  have hcontent := Balanced.around (t := .div) rfl (hclass "alert-content") h
  have htitle := balanced_classTag (t := .div) rfl "alert-title" title
  have hall := Balanced.around (t := .div) rfl (hclass ("alert alert-" ++ alert.name))
    (htitle.append hcontent)
  simpa [alertStart, alertFinish, classTag] using hall

/-- **What a frame writes around balanced pieces is balanced.** Block directives and tables have
rules of their own. -/
theorem balanced_frame (settings : Settings) {f : Frame} (ht : ∀ t, f ≠ .table t)
    (hr : f ≠ .row true) (hd : ∀ head, f ≠ .directive head) {ps : List Piece} (h : Balanced ps) :
    Balanced (startPieces settings f ++ ps ++ finishPieces f) := by
  cases f with
  | marked mark => exact .around (isVoid_markTag mark) (named_markAttributes mark) h
  | inlineDirective name attributes => simpa [startPieces, finishPieces] using h
  | paragraph tight =>
    cases tight
    · exact .around rfl named_nil h
    · simpa [startPieces, finishPieces] using h
  | heading level id =>
    refine .around (isVoid_ofLevel level) ?_ h
    cases settings.anchors
    · exact named_nil
    · exact named_attr (by decide) named_nil
  | list start tight =>
    cases start with
    | none => exact .around rfl named_nil h
    | some n =>
      simp only [startPieces, listStart, finishPieces]
      split
      · exact .around rfl named_nil h
      · exact .around rfl (named_attr (by decide) named_nil) h
  | item marker task =>
    exact .around (i := taskPieces task ++ ps) rfl named_nil
      ((balanced_taskPieces task).append h)
  | quote alert =>
    cases alert with
    | none => exact .around rfl named_nil h
    | some alert => exact balanced_alert alert alert.title h
  | row header =>
    cases header
    · exact .around rfl named_nil h
    · exact absurd rfl hr
  | cell header column alignment =>
    exact .around (isVoid_cellTag header) (named_alignmentAttributes alignment) h
  | footnote label n =>
    have hlabel := balanced_classTag (t := .sup) rfl "footnote-definition-label" (toString n)
    exact .around rfl (named_attr (by decide) (named_attr (by decide) named_nil))
      (hlabel.append h)
  | command c => simpa [startPieces, finishPieces] using h
  | table t => exact absurd rfl (ht t)
  | directive head => exact absurd rfl (hd head)

/-- What a table writes around its header row and its other rows is balanced. -/
theorem balanced_table (settings : Settings) (t : Table) {header rows : List Piece}
    (hh : Balanced header) (hr : Balanced rows) :
    Balanced (startPieces settings (.table t) ++
      ((startPieces settings (.row true) ++ header ++ finishPieces (.row true)) ++ rows) ++
      finishPieces (.table t)) := by
  have hrow := Balanced.around (t := .tr) rfl named_nil hh
  have hhead := Balanced.around (t := .thead) rfl named_nil hrow
  have hbody := Balanced.around (t := .tbody) rfl named_nil hr
  have htable := Balanced.around (t := .table) rfl named_nil (hhead.append hbody)
  simpa [startPieces, finishPieces, plainTag] using htable

/-! ## Visits -/

theorem write_nil (s : PageState) : s.write [] = s := by
  simp [PageState.write]

theorem write_write (s : PageState) (a b : List Piece) :
    (s.write a).write b = s.write (a ++ b) := by
  have h : s.pieces ++ a ++ b = s.pieces ++ (a ++ b) := Array.toList_inj.mp (by simp)
  simp only [PageState.write, h]

theorem openDirective_of_ne (s : PageState) {f : Frame} (hd : ∀ head, f ≠ .directive head) :
    s.openDirective f = s := by
  cases f with
  | directive head => exact absurd rfl (hd head)
  | _ => rfl

/-- The visit adds balanced pieces to the page and leaves the open call-outs as they were. -/
def Writes (v : Walk.State PageState → Walk.State PageState) : Prop :=
  ∀ s, ∃ ps, Balanced ps ∧ (v s).out = s.out.write ps

theorem writes_id : Writes id := fun s => ⟨[], .nil, (write_nil s.out).symm⟩

theorem Writes.comp {v w : Walk.State PageState → Walk.State PageState} (hv : Writes v)
    (hw : Writes w) : Writes (w ∘ v) := by
  intro s
  obtain ⟨ps, hps, hv⟩ := hv s
  obtain ⟨qs, hqs, hw⟩ := hw (v s)
  exact ⟨ps ++ qs, hps.append hqs, by rw [Function.comp_apply, hw, hv, write_write]⟩

section

variable (settings : Settings) {v w : Walk.State PageState → Walk.State PageState}

/-- The page after a frame that is not skipped and is no block directive. -/
theorem framed_write {f : Frame} (hd : ∀ head, f ≠ .directive head)
    (hf : f.defaultFlow = .enter) {s : Walk.State PageState} {ps : List Piece}
    (hv : (v { s with out := s.out.write (startPieces settings f) }).out =
      (s.out.write (startPieces settings f)).write ps) :
    (Walk.framed (backend settings) f v s).out =
      s.out.write (startPieces settings f ++ ps ++ finishPieces f) := by
  have hstart : (backend settings).start s.context f s.out =
      (.enter, s.out.write (startPieces settings f)) := by
    simp only [backend, hf, openDirective_of_ne s.out hd]
  have hfinish (c : Context) (out : PageState) :
      (backend settings).finish c f out = out.write (finishPieces f) := by
    cases f with
    | directive head => exact absurd rfl (hd head)
    | _ => rfl
  simp only [Walk.framed, hstart, hfinish]
  rw [hv, write_write, write_write, List.append_assoc]

/-- The finish of a block directive closes the call-out that its start has opened, if any. -/
theorem closeDirective_write (s : PageState) (head : Directive) (ps : List Piece) :
    ((s.openDirective (.directive head)).write ps).closeDirective =
      s.write (ps ++ if (Alert.ofName? head.name).isSome then alertFinish else []) := by
  rw [← write_write]
  cases ha : Alert.ofName? head.name with
  | none => simp [PageState.closeDirective, PageState.openDirective, ha, PageState.write]
  | some alert => simp [PageState.closeDirective, PageState.openDirective, ha, PageState.write]

theorem balanced_directive (head : Directive) {ps : List Piece} (h : Balanced ps) :
    Balanced (startPieces settings (.directive head) ++ ps ++
      if (Alert.ofName? head.name).isSome then alertFinish else []) := by
  cases ha : Alert.ofName? head.name with
  | none => simpa [startPieces, ha] using h
  | some alert => simpa [startPieces, ha] using balanced_alert alert (alertTitle alert head.label) h

theorem Writes.framed_directive (head : Directive) (hv : Writes v) :
    Writes (Walk.framed (backend settings) (.directive head) v) := by
  intro s
  cases hf : (Frame.directive head).defaultFlow with
  | skip => exact ⟨[], .nil, by simp [Walk.framed, backend, hf, write_nil]⟩
  | enter =>
    have hstart : (backend settings).start s.context (.directive head) s.out =
        (.enter, (s.out.openDirective (.directive head)).write
          (startPieces settings (.directive head))) := by
      simp only [backend, hf]
    obtain ⟨ps, hps, hv⟩ := hv ⟨s.context,
      (s.out.openDirective (.directive head)).write (startPieces settings (.directive head))⟩
    refine ⟨_, balanced_directive settings head hps, ?_⟩
    simp only [Walk.framed, hstart]
    rw [hv]
    dsimp only [backend]
    rw [write_write, closeDirective_write]

theorem Writes.framed {f : Frame} (ht : ∀ t, f ≠ .table t) (hr : f ≠ .row true) (hv : Writes v) :
    Writes (Walk.framed (backend settings) f v) := by
  by_cases hd : ∀ head, f ≠ .directive head
  · intro s
    cases hf : f.defaultFlow with
    | skip => exact ⟨[], .nil, by simp [Walk.framed, backend, hf, write_nil]⟩
    | enter =>
      obtain ⟨ps, hps, hv⟩ := hv { s with out := s.out.write (startPieces settings f) }
      exact ⟨_, balanced_frame settings ht hr hd hps,
        framed_write settings hd hf hv⟩
  · obtain ⟨head, rfl⟩ : ∃ head, f = .directive head := by
      simpa using hd
    exact hv.framed_directive settings head

theorem Writes.framed_table (t : Table) (hv : Writes v) (hw : Writes w) :
    Writes (Walk.framed (backend settings) (.table t)
      (w ∘ Walk.framed (backend settings) (.row true) v)) := by
  intro s
  -- the header row starts from the page with the start of the table, the rows from what it leaves
  obtain ⟨header, hh, hv⟩ := hv ⟨s.context,
    (s.out.write (startPieces settings (.table t))).write (startPieces settings (.row true))⟩
  have hrow := framed_write settings (f := .row true) (fun _ => nofun) rfl
    (s := ⟨s.context, s.out.write (startPieces settings (.table t))⟩) hv
  obtain ⟨rows, hr, hw⟩ := hw (Walk.framed (backend settings) (.row true) v
    ⟨s.context, s.out.write (startPieces settings (.table t))⟩)
  rw [hrow, write_write] at hw
  exact ⟨_, balanced_table settings t hh hr,
    framed_write settings (f := .table t) (fun _ => nofun) rfl hw⟩

/-- **Every visit adds balanced pieces**, as long as it meets no raw markup. -/
theorem writes_uniform : Walk.Uniform (backend settings) (backend settings)
    (fun l => isRaw l = false) fun v _ => Writes v where
  idle := writes_id
  seq hv hw := hv.comp hw
  withContext _ s := ⟨[], .nil, (write_nil s.out).symm⟩
  choose hv s := hv s.context s
  leaf hl _ := ⟨_, balanced_leafPieces settings hl, rfl⟩
  space := rfl
  framed ht hr hv := hv.framed settings ht hr
  table hv hw := hv.framed_table settings _ hw

end

/-- **A page is well-formed.** A document without raw markup is written as a well-formed fragment,
whatever highlights code and whether headings carry their anchors, and no block directive is left
open as a call-out. -/
theorem fragment_renderIn (settings : Settings) {d : Document} (hd : NoRawMarkup d) (c : Context) :
    Fragment (renderIn settings d c).1.toList ∧
      (Walk.document (backend settings) d c {}).1.openAlerts = [] := by
  obtain ⟨ps, hps, hout⟩ := (writes_uniform settings).congruence.blocks d hd ⟨c, {}⟩
  have hpieces : (Walk.document (backend settings) d c {}).1.pieces.toList = ps := by
    simp [Walk.document, hout, PageState.write]
  refine ⟨?_, ?_⟩
  · show Fragment (render (Walk.document (backend settings) d c {}).1.pieces.toList).toList
    rw [hpieces]
    exact hps.fragment
  · simp [Walk.document, hout, PageState.write]

/-- A document whose label, link, code and image try to leave the markup around them. -/
def hostileDocument : Document :=
  [.directive ⟨"Warning", .leaf, [.text "</div><script>"], {}⟩
      [.paragraph [.marked (.link "\" onclick='x'" "</a>") [.text "</p><!-- & -->"]]],
    .list (some 3) false [⟨some true, [.code (some "\"><b>") "</code></pre>"]⟩],
    .table ⟨[.left], [[.image "'>" "\"" [.text "<hr>"]]], [[[.footnote "</sup>"]]]⟩]

theorem fragment_hostileDocument :
    NoRawMarkup hostileDocument ∧ Fragment (renderIn {} hostileDocument {}).1.toList ∧
      (Walk.document (backend {}) hostileDocument {} {}).1.openAlerts = [] := by
  have h : NoRawMarkup hostileDocument := by
    simp [NoRawMarkup, hostileDocument, blocksEveryLeaf, Block.EveryLeaf, itemsEveryLeaf,
      rowEveryLeaf, inlinesEveryLeaf, Inline.EveryLeaf, isRaw]
  exact ⟨h, fragment_renderIn _ h _⟩

end RichMarkdown.Html
