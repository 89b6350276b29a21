import RichMarkdown.Proofs.Html.Distinct
import RichMarkdown.Proofs.Walk.Comparison

/-!
# What can be told from a page

Two documents that differ at most inside comments give two pages that differ at most in the texts
that were read flat (`Near`). Each of these texts can be told from the page: the alternative text of
an image and the title of a call-out stand in its markup, the text of a heading in its title or in
its table of contents. The step is one visit (`Tells`): it keeps two pages near each other, and if
they are the same afterwards, they were the same before and the visit has read the same texts.

* `discreet`: pages have nothing of a comment but what is read flat.
* `tells_comparison`: every visit tells the texts that it reads flat.
-/

set_option autoImplicit false

namespace RichMarkdown.Html

/-! ## Frames that are alike -/

section

variable {f f' : Frame} {ts ts' : List String}

theorem openDirective_alike (h : f.Alike f' ts ts') (s : PageState) :
    s.openDirective f = s.openDirective f' := by
  cases h <;> rfl

theorem finish_alike (settings : Settings) (h : f.Alike f' ts ts') (c : Context) (s : PageState) :
    (backend settings).finish c f s = (backend settings).finish c f' s := by
  cases h <;> rfl

/-- The start of a frame shows the texts that are read flat for it, and no more of what may
differ. -/
theorem startPieces_eq_iff (settings : Settings) (h : f.Alike f' ts ts') :
    startPieces settings f = startPieces settings f' ↔ ts = ts' := by
  cases h with
  | directive name kind label label' attributes =>
    simp only [startPieces, titleTexts]
    cases Alert.ofName? name with
    | none => simp
    | some alert => simp [alertStart]
  | _ => simp [startPieces]

theorem piecesAlike_startPieces (settings : Settings) (h : f.Alike f' ts ts') :
    PiecesAlike (startPieces settings f) (startPieces settings f') := by
  cases h with
  | directive name kind label label' attributes =>
    simp only [startPieces]
    cases Alert.ofName? name with
    | none => exact .nil
    | some alert => exact .same _ (.same _ (.text _ _ _ (.refl _)))
  | _ => exact .refl _

end

theorem discreet (settings : Settings) : Walk.Discreet (backend settings) where
  start c s hf hts := by
    simp only [backend, hf.defaultFlow_eq, openDirective_alike hf,
      (startPieces_eq_iff settings hf).mpr hts]
  finish c s hf _ := finish_alike settings hf c s
  comment c s hf := by simp only [backend, hf]

/-! ## Pages near each other -/

/-- What a walk does to the page and to the context. -/
abbrev Visit : Type := Walk.State PageState → Walk.State PageState

/-- Two walks under way that differ at most in the texts that were read flat and in what was made of
them. -/
structure Near (s s' : Walk.State PageState) : Prop where
  containers : s.context.containers = s'.context.containers
  footnotes : s.context.footnotes = s'.context.footnotes
  untitled : s.context.title.isNone = s'.context.title.isNone
  openAlerts : s.out.openAlerts = s'.out.openAlerts
  pieces : PiecesAlike s.out.pieces.toList s'.out.pieces.toList

/-- Two walks under way that have shown the same. -/
structure SamePage (s s' : Walk.State PageState) : Prop where
  pieces : s.out.pieces = s'.out.pieces
  title : s.context.title = s'.context.title
  toc : s.context.toc = s'.context.toc

/-- The visits keep pages near each other, and if the pages are the same afterwards, they were the
same before and the texts are the same. -/
def Tells (v v' : Visit) (ts ts' : List String) : Prop :=
  ∀ s s', Near s s' → Near (v s) (v' s') ∧ (SamePage (v s) (v' s') → SamePage s s' ∧ ts = ts')

theorem Near.refl (s : Walk.State PageState) : Near s s := ⟨rfl, rfl, rfl, rfl, .refl _⟩

variable {v v' w w' : Visit} {ts ts' us us' : List String}

theorem Tells.idle : Tells id id [] [] := fun _ _ hn => ⟨hn, fun h => ⟨h, rfl⟩⟩

theorem Tells.seq (hv : Tells v v' ts ts') (hw : Tells w w' us us') :
    Tells (w ∘ v) (w' ∘ v') (ts ++ us) (ts' ++ us') := by
  intro s s' hn
  obtain ⟨hnv, hv⟩ := hv s s' hn
  obtain ⟨hnw, hw⟩ := hw _ _ hnv
  refine ⟨hnw, fun h => ?_⟩
  obtain ⟨hpage, hus⟩ := hw h
  obtain ⟨hpage, hts⟩ := hv hpage
  exact ⟨hpage, by rw [hts, hus]⟩

/-- What is written at the end of two pages can be told from them. -/
theorem Near.write {s s' : Walk.State PageState} (hn : Near s s') {out out' : PageState}
    {ps ps' : List Piece} (hp : PiecesAlike ps ps')
    (hout : out.pieces.toList = s.out.pieces.toList ++ ps)
    (hout' : out'.pieces.toList = s'.out.pieces.toList ++ ps')
    (ha : out.openAlerts = out'.openAlerts) :
    Near ⟨s.context, out⟩ ⟨s'.context, out'⟩ ∧
      (SamePage ⟨s.context, out⟩ ⟨s'.context, out'⟩ → SamePage s s' ∧ ps = ps') := by
  refine ⟨⟨hn.containers, hn.footnotes, hn.untitled, ha, ?_⟩, fun h => ?_⟩
  · rw [hout, hout']
    exact hn.pieces.append hp
  · have happ := congrArg Array.toList h.pieces
    rw [hout, hout'] at happ
    obtain ⟨hpieces, hps⟩ := List.append_inj happ hn.pieces.length_eq
    exact ⟨⟨Array.toList_inj.mp hpieces, h.title, h.toc⟩, hps⟩

theorem toList_pieces_write (s : PageState) (ps : List Piece) :
    (s.write ps).pieces.toList = s.pieces.toList ++ ps := by
  simp [PageState.write]

section

variable (settings : Settings)

theorem Tells.leaf {l l' : Leaf} (hp : PiecesAlike (leafPieces settings l) (leafPieces settings l'))
    (hts : leafPieces settings l = leafPieces settings l' → ts = ts') :
    Tells (Walk.leaf (backend settings) l) (Walk.leaf (backend settings) l') ts ts' := by
  intro s s' hn
  obtain ⟨hnear, hback⟩ := hn.write hp (toList_pieces_write s.out _)
    (toList_pieces_write s'.out _) hn.openAlerts
  exact ⟨hnear, fun h => ⟨(hback h).1, hts (hback h).2⟩⟩

/-! ## Frames -/

/-- The start of a frame that is entered. -/
def opening (f : Frame) : Visit := fun s =>
  ⟨s.context, (s.out.openDirective f).write (startPieces settings f)⟩

/-- The finish of a frame. -/
def closing (f : Frame) : Visit := fun s =>
  ⟨s.context, (backend settings).finish s.context f s.out⟩

theorem framed_eq {f : Frame} (hf : f.defaultFlow = .enter) (v : Visit) :
    Walk.framed (backend settings) f v = closing settings f ∘ v ∘ opening settings f := by
  funext s
  have hstart : (backend settings).start s.context f s.out =
      (.enter, (s.out.openDirective f).write (startPieces settings f)) := by
    simp only [backend, hf]
  simp only [Walk.framed, hstart]
  rfl

theorem Tells.opening {f f' : Frame}
    (hp : PiecesAlike (startPieces settings f) (startPieces settings f'))
    (ho : ∀ s : PageState, s.openDirective f = s.openDirective f')
    (hts : startPieces settings f = startPieces settings f' → ts = ts') :
    Tells (opening settings f) (opening settings f') ts ts' := by
  intro s s' hn
  have hpieces (out : PageState) (f : Frame) : ((out.openDirective f).write
      (startPieces settings f)).pieces.toList = out.pieces.toList ++ startPieces settings f := by
    rw [toList_pieces_write]
    cases f <;> rfl
  have halerts : ((s.out.openDirective f).write (startPieces settings f)).openAlerts =
      ((s'.out.openDirective f').write (startPieces settings f')).openAlerts := by
    rw [← ho]
    unfold PageState.write PageState.openDirective
    cases f <;> simp [hn.openAlerts]
  obtain ⟨hnear, hback⟩ := hn.write hp (hpieces s.out f) (hpieces s'.out f') halerts
  exact ⟨hnear, fun h => ⟨(hback h).1, hts (hback h).2⟩⟩

theorem Tells.closing (f : Frame) : Tells (closing settings f) (closing settings f) [] [] := by
  intro s s' hn
  obtain ⟨ps, halerts, hpieces, hpieces'⟩ : ∃ ps,
      ((backend settings).finish s.context f s.out).openAlerts =
        ((backend settings).finish s'.context f s'.out).openAlerts ∧
      ((backend settings).finish s.context f s.out).pieces.toList = s.out.pieces.toList ++ ps ∧
      ((backend settings).finish s'.context f s'.out).pieces.toList =
        s'.out.pieces.toList ++ ps := by
    cases f with
    | directive head =>
      simp only [backend, PageState.closeDirective, hn.openAlerts]
      split
      · exact ⟨alertFinish, rfl, toList_pieces_write _ _, toList_pieces_write _ _⟩
      · exact ⟨[], rfl, (List.append_nil _).symm, (List.append_nil _).symm⟩
    | _ => exact ⟨_, hn.openAlerts, toList_pieces_write _ _, toList_pieces_write _ _⟩
  obtain ⟨hnear, hback⟩ := hn.write (.refl ps) hpieces hpieces' halerts
  exact ⟨hnear, fun h => ⟨(hback h).1, rfl⟩⟩

theorem Tells.framed {f f' : Frame} (hf : f.defaultFlow = .enter) (hf' : f'.defaultFlow = .enter)
    (ho : Tells (Html.opening settings f) (Html.opening settings f') ts ts')
    (hc : Tells (Html.closing settings f) (Html.closing settings f') [] [])
    (hv : Tells v v' us us') :
    Tells (Walk.framed (backend settings) f v) (Walk.framed (backend settings) f' v') (ts ++ us)
      (ts' ++ us') := by
  rw [framed_eq settings hf, framed_eq settings hf']
  simpa using (ho.seq hv).seq hc

theorem Tells.framed_alike {f f' : Frame} (hf : f.Alike f' ts ts')
    (hflow : f.defaultFlow = .enter) (hv : Tells v v' us us') :
    Tells (Walk.framed (backend settings) f v) (Walk.framed (backend settings) f' v') (ts ++ us)
      (ts' ++ us') := by
  have hclosing : Html.closing settings f = Html.closing settings f' := by
    funext s
    simp only [Html.closing, finish_alike settings hf]
  exact .framed settings hflow (hf.defaultFlow_eq ▸ hflow)
    (.opening settings (piecesAlike_startPieces settings hf) (openDirective_alike hf)
      (startPieces_eq_iff settings hf).mp)
    (hclosing ▸ .closing settings f) hv

/-! ## Contexts -/

/-- Notes a heading. -/
def registering (level : Nat) (text : String) : Visit := fun s =>
  ⟨(s.context.registerHeading level text).2, s.out⟩

/-- The text of a heading can be told from the title or from the table of contents. -/
theorem Tells.registering (level : Nat) (text text' : String) :
    Tells (registering level text) (registering level text') [Text.trimmed text]
      [Text.trimmed text'] := by
  intro s s' hn
  have huntitled : (level = 1 && s'.context.title.isNone) =
      (level = 1 && s.context.title.isNone) := by
    rw [hn.untitled]
  have htitle := Context.title_registerHeading s.context level text
  have htitle' := Context.title_registerHeading s'.context level text'
  have htoc := Context.toc_registerHeading s.context level text
  have htoc' := Context.toc_registerHeading s'.context level text'
  rw [huntitled] at htitle' htoc'
  refine ⟨⟨?_, ?_, ?_, hn.openAlerts, hn.pieces⟩, fun h => ?_⟩
  · rw [Html.registering, Html.registering, Context.containers_registerHeading,
      Context.containers_registerHeading, hn.containers]
  · rw [Html.registering, Html.registering, Context.footnotes_registerHeading,
      Context.footnotes_registerHeading, hn.footnotes]
  · rw [Html.registering, Html.registering, htitle, htitle']
    split
    · rfl
    · exact hn.untitled
  · have ht : (s.context.registerHeading level text).2.title =
        (s'.context.registerHeading level text').2.title := h.title
    have hc : (s.context.registerHeading level text).2.toc =
        (s'.context.registerHeading level text').2.toc := h.toc
    rw [htitle, htitle'] at ht
    rw [htoc, htoc'] at hc
    split at ht
    · rename_i hfirst
      rw [if_pos hfirst, if_pos hfirst] at hc
      have hnone : s.context.title = none := by simpa using (Bool.and_eq_true_iff.mp hfirst).2
      have hnone' : s'.context.title = none := by simpa [hnone] using hn.untitled
      exact ⟨⟨h.pieces, hnone.trans hnone'.symm, hc⟩, congrArg ([·]) (Option.some.inj ht)⟩
    · rename_i hfirst
      rw [if_neg hfirst, if_neg hfirst] at hc
      obtain ⟨hc, hentry⟩ := List.append_inj' hc rfl
      exact ⟨⟨h.pieces, ht, hc⟩,
        congrArg ([·]) (TocEntry.mk.inj (List.singleton_inj.mp hentry)).2.1⟩

/-- Two headings of one level differ at most in their anchors. -/
theorem piecesAlike_heading (level : Nat) (id id' : String) :
    PiecesAlike (startPieces settings (.heading level id))
      (startPieces settings (.heading level id')) := by
  simp only [startPieces]
  cases settings.anchors
  · exact .refl _
  · exact .value _ [] _ _ _ .nil

theorem Tells.headed (level : Nat) (text text' : String) (hv : Tells v v' ts ts') :
    Tells (Walk.headed (backend settings) level text v)
      (Walk.headed (backend settings) level text' v') (Text.trimmed text :: ts)
      (Text.trimmed text' :: ts') := by
  intro s s' hn
  obtain ⟨hnear, hback⟩ := Tells.registering level text text' s s' hn
  have hstart (id id' : String) : Tells (Html.opening settings (.heading level id))
      (Html.opening settings (.heading level id')) [] [] :=
    .opening settings (piecesAlike_heading settings level id id') (fun _ => rfl) fun _ => rfl
  have hfinish (id id' : String) : Tells (Html.closing settings (.heading level id))
      (Html.closing settings (.heading level id')) [] [] :=
    Tells.closing settings (.heading level id)
  obtain ⟨hnear', hback'⟩ := Tells.framed settings rfl rfl (hstart _ _)
    (hfinish (s.context.registerHeading level text).1 (s'.context.registerHeading level text').1)
    hv _ _ hnear
  refine ⟨hnear', fun h => ?_⟩
  obtain ⟨hpage, hts⟩ := hback' h
  obtain ⟨hpage, htext⟩ := hback hpage
  exact ⟨hpage, congrArg₂ (· ++ ·) htext hts⟩

theorem Tells.inside (c : Container) (hv : Tells v v' ts ts') :
    Tells (Walk.inside c v) (Walk.inside c v') ts ts' := by
  intro s s' hn
  obtain ⟨hnear, hback⟩ := hv { s with context := s.context.push c }
    { s' with context := s'.context.push c }
    { hn with containers := congrArg (c :: ·) hn.containers }
  refine ⟨{ hnear with containers := congrArg List.tail hnear.containers }, fun h => ?_⟩
  obtain ⟨hpage, hts⟩ := hback ⟨h.pieces, h.title, h.toc⟩
  exact ⟨⟨hpage.pieces, hpage.title, hpage.toc⟩, hts⟩

theorem Tells.numbered (label : String) {v v' : Nat → Visit} (hv : ∀ n, Tells (v n) (v' n) ts ts') :
    Tells (Walk.numbered label v) (Walk.numbered label v') ts ts' := by
  intro s s' hn
  obtain ⟨hnumber, hfootnotes⟩ := Context.footnoteNumber_congr hn.footnotes label
  have hnear : Near ⟨(s.context.footnoteNumber label).2, s.out⟩
      ⟨(s'.context.footnoteNumber label).2, s'.out⟩ := by
    refine ⟨?_, hfootnotes, ?_, hn.openAlerts, hn.pieces⟩
    · rw [Context.containers_footnoteNumber, Context.containers_footnoteNumber, hn.containers]
    · rw [Context.title_footnoteNumber, Context.title_footnoteNumber, hn.untitled]
  obtain ⟨hnear', hback⟩ := hv (s.context.footnoteNumber label).1 _ _ hnear
  rw [Walk.numbered_eq, Walk.numbered_eq]
  dsimp only
  rw [← hnumber]
  refine ⟨hnear', fun h => ?_⟩
  obtain ⟨hpage, hts⟩ := hback h
  refine ⟨⟨hpage.pieces, ?_, ?_⟩, hts⟩
  · simpa only [Context.title_footnoteNumber] using hpage.title
  · simpa only [Context.toc_footnoteNumber] using hpage.toc

theorem tells_comparison : Walk.Comparison (backend settings) Tells where
  idle := .idle
  seq hv hw := hv.seq hw
  paragraph {v v' ts ts'} hv s s' hn := by
    have htight : s.context.inTightItem = s'.context.inTightItem := by
      rw [Context.inTightItem, Context.inTightItem, hn.containers]
    simp only [Walk.paragraph, htight]
    exact Tells.framed_alike settings (.same _) rfl hv s s' hn
  inside c _ _ _ _ hv := hv.inside c
  numbered label _ _ _ _ hv := .numbered label hv
  leaf l := .leaf settings (.refl _) fun _ => rfl
  image source title alt alt' := by
    refine .leaf settings (.value _ (attr "src" source :: titleAttr title) _ _ _ .nil) fun h => ?_
    simpa [leafPieces, attr] using h
  framed hf hflow hv := .framed_alike settings hf hflow hv
  headed level text text' _ _ _ _ hv := .headed settings level text text' hv
  comment v v' hf hf' := by
    rw [(discreet settings).framed_comment hf, (discreet settings).framed_comment hf']
    exact .idle

end

end RichMarkdown.Html
