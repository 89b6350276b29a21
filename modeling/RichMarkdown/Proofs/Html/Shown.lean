import RichMarkdown.Proofs.Highlight.Segments
import RichMarkdown.Proofs.Html.Headings
import RichMarkdown.Proofs.Html.Nesting
import RichMarkdown.Proofs.Html.Telling
import RichMarkdown.Proofs.Walk.Shown

/-!
# A page read back

What a reader finds in the pieces of a page (`Reads`): the text, which is that of the parts that the
document shows, and the code blocks, each with what was written in it. Every visit adds pieces in
which the reader finds what the visit shows (`Shows`): what a frame writes around its inside has no
code block and no text but its title, its checkbox or its number (`Shows.around`).

* `shows_showing`: the walk of any part of a document shows what the tree says.
* `decode_withoutTags_renderIn`: a page keeps the text of its document, escaped exactly once.
-/

set_option autoImplicit false

namespace RichMarkdown.Html

/-! ## Reading pieces -/

/-- The lexemes that stand in the code blocks among some parts. -/
def codeLexemes (settings : Settings) (xs : List Shown) : List (List Lexeme) :=
  (xs.filterMap Shown.code?).map fun b => (codeContent settings b.1 b.2).flatMap Piece.lexemes

/-- A reader finds the parts in the pieces, after the footnotes seen before. -/
structure Reads (settings : Settings) (seen : List String) (xs : List Shown) (ps : List Piece) :
    Prop where
  text : ps.flatMap Piece.shown = shownText seen xs
  code : ∀ rest, codeBlocks (ps.flatMap Piece.lexemes ++ rest) =
    codeLexemes settings xs ++ codeBlocks rest

section

variable {settings : Settings} {seen : List String} {xs ys : List Shown} {ps qs : List Piece}

theorem Reads.append (hx : Reads settings seen xs ps)
    (hy : Reads settings (seenAfter seen xs) ys qs) :
    Reads settings seen (xs ++ ys) (ps ++ qs) where
  text := by rw [List.flatMap_append, hx.text, hy.text, shownText_append]
  code rest := by
    rw [List.flatMap_append, List.append_assoc, hx.code, hy.code, ← List.append_assoc]
    simp [codeLexemes]

theorem Reads.of_avoids (ha : ps.all (Piece.avoids [.pre, .span]))
    (ht : ps.flatMap Piece.shown = shownText seen xs) (hc : xs.filterMap Shown.code? = []) :
    Reads settings seen xs ps where
  text := ht
  code rest := by
    have hpre : ps.all (Piece.avoids [.pre]) := all_avoids_mono (by decide) ha
    rw [codeBlocks_avoiding hpre, codeLexemes, hc]
    rfl

theorem Reads.texts {texts : List String} (ha : ps.all (Piece.avoids [.pre, .span]))
    (ht : ps.flatMap Piece.shown = texts.flatMap String.toList) :
    Reads settings seen (texts.map .text) ps := by
  refine .of_avoids ha (ht.trans (shownText_texts texts seen).symm) ?_
  rw [List.filterMap_map]
  exact List.filterMap_none texts

theorem reads_codeBlock (language : Option String) (literal : String) :
    Reads settings seen [.code language literal] (codeBlock settings language literal) where
  text := by
    have hsegment (x : Segment) : (segmentPieces x).flatMap Piece.shown = x.text.toList := by
      unfold segmentPieces
      split <;> simp [Piece.shown, classTag]
    have hcode : (codePieces settings language literal).flatMap Piece.shown = literal.toList := by
      unfold codePieces
      split
      · rename_i tokens _
        have hjoin := congrArg String.toList (join_segments literal tokens)
        rw [List.flatMap_assoc]
        simpa [hsegment, String.toList_join, List.flatMap_map] using hjoin
      · simp [Piece.shown]
    simp [codeBlock, List.flatMap_append, hcode, Piece.shown, plainTag, shownText]
  code rest := codeBlocks_codeBlock settings language literal rest

end

/-! ## Pieces of frames -/

/-- The elements that are read one by one from a page. -/
def readTags : List Tag := .pre :: .span :: headingTags

def isHeading : Frame → Bool
  | .heading _ _ => true
  | _ => false

/-- Of the elements that are read from a page, frames write headings and no others. -/
theorem startPieces_plain (settings : Settings) {f : Frame} (hf : isHeading f = false) :
    (startPieces settings f).all (Piece.avoids readTags) := by
  cases f with
  | marked mark => cases mark <;> rfl
  | paragraph tight => cases tight <;> rfl
  | heading level id => cases hf
  | list start tight =>
    cases start with
    | none => rfl
    | some n =>
      simp only [startPieces, listStart]
      split <;> rfl
  | item marker task => cases task <;> rfl
  | quote alert => cases alert <;> rfl
  | row header => cases header <;> rfl
  | cell header column alignment => cases header <;> rfl
  | directive head =>
    simp only [startPieces]
    split <;> rfl
  | _ => rfl

theorem startPieces_avoid (settings : Settings) (f : Frame) :
    (startPieces settings f).all (Piece.avoids [.pre, .span]) := by
  cases hf : isHeading f with
  | false => exact all_avoids_mono (by decide) (startPieces_plain settings hf)
  | true =>
    cases f with
    | heading level id =>
      simp only [startPieces, Tag.ofLevel]
      split <;> rfl
    | _ => cases hf

/-- What the finish of a frame writes: a block directive closes the call-out it has opened. -/
def closingPieces : Frame → List Piece
  | .directive head => if (Alert.ofName? head.name).isSome then alertFinish else []
  | f => finishPieces f

theorem closingPieces_plain {f : Frame} (hf : isHeading f = false) :
    (closingPieces f).all (Piece.avoids readTags) := by
  cases f with
  | marked mark => cases mark <;> rfl
  | paragraph tight => cases tight <;> rfl
  | heading level id => cases hf
  | list start tight => cases start <;> rfl
  | quote alert => cases alert <;> rfl
  | row header => cases header <;> rfl
  | cell header column alignment => cases header <;> rfl
  | directive head =>
    simp only [closingPieces]
    split <;> rfl
  | _ => rfl

theorem closingPieces_avoid (f : Frame) :
    (closingPieces f).all (Piece.avoids [.pre, .span]) := by
  cases hf : isHeading f with
  | false => exact all_avoids_mono (by decide) (closingPieces_plain hf)
  | true =>
    cases f with
    | heading level id =>
      simp only [closingPieces, finishPieces, Tag.ofLevel]
      split <;> rfl
    | _ => cases hf

theorem closingPieces_shown (f : Frame) : (closingPieces f).flatMap Piece.shown = [] := by
  cases f with
  | paragraph tight => cases tight <;> rfl
  | quote alert => cases alert <;> rfl
  | row header => cases header <;> rfl
  | directive head =>
    simp only [closingPieces]
    split <;> rfl
  | _ => rfl

theorem startPieces_shown (settings : Settings) {f : Frame} (hn : f.isNumbered = false) :
    (startPieces settings f).flatMap Piece.shown = f.texts.flatMap String.toList := by
  cases f with
  | paragraph tight => cases tight <;> rfl
  | list start tight =>
    cases start with
    | none => rfl
    | some n =>
      simp only [startPieces, listStart]
      split <;> rfl
  | item marker task => cases task <;> rfl
  | quote alert =>
    cases alert <;>
      simp [startPieces, alertStart, Piece.shown, classTag, plainTag, Frame.texts, alertTexts]
  | row header => cases header <;> rfl
  | footnote label n => cases hn
  | directive head =>
    simp only [startPieces, Frame.texts, titleTexts]
    split <;> rename_i ha <;> simp [ha, alertStart, Piece.shown, classTag]
  | _ => rfl

/-! ## Visits -/

/-- The visit adds pieces to the page in which a reader finds the parts. -/
def Shows (settings : Settings) (v : Visit) (xs : List Shown) : Prop :=
  ∀ s, ∃ ps, (v s).out = s.out.write ps ∧
    (v s).context.footnotes = seenAfter s.context.footnotes xs ∧
    Reads settings s.context.footnotes xs ps

section

variable {settings : Settings} {v w : Visit} {xs ys : List Shown}

theorem Shows.seq (hv : Shows settings v xs) (hw : Shows settings w ys) :
    Shows settings (w ∘ v) (xs ++ ys) := by
  intro s
  obtain ⟨ps, hps, hseen, hx⟩ := hv s
  obtain ⟨qs, hqs, hseen', hy⟩ := hw (v s)
  rw [hseen] at hseen' hy
  refine ⟨ps ++ qs, ?_, ?_, hx.append hy⟩
  · rw [Function.comp_apply, hqs, hps, write_write]
  · rw [Function.comp_apply, hseen', seenAfter_append]

theorem finish_write (f : Frame) (c : Context) (s : PageState) (ps : List Piece) :
    (backend settings).finish c f ((s.openDirective f).write ps) =
      s.write (ps ++ closingPieces f) := by
  cases f with
  | directive head => exact closeDirective_write s head ps
  | _ => exact write_write s ps _

/-- A frame that is entered adds its own pieces around those of its inside. -/
theorem framed_around {f : Frame} (hflow : f.defaultFlow = .enter) {s : Walk.State PageState}
    {ps : List Piece}
    (hv : (v (opening settings f s)).out = (opening settings f s).out.write ps) :
    Walk.framed (backend settings) f v s = ⟨(v (opening settings f s)).context,
      s.out.write (startPieces settings f ++ (ps ++ closingPieces f))⟩ := by
  rw [framed_eq settings hflow]
  simp only [Function.comp_apply, closing, hv]
  simp only [opening]
  rw [write_write, finish_write, List.append_assoc]

theorem Shows.around {f : Frame} (hflow : f.defaultFlow = .enter) (hv : Shows settings v xs)
    (s : Walk.State PageState) :
    ∃ ps, (Walk.framed (backend settings) f v s).out = s.out.write (startPieces settings f ++ ps) ∧
      (Walk.framed (backend settings) f v s).context.footnotes =
        seenAfter s.context.footnotes xs ∧
      Reads settings s.context.footnotes xs ps := by
  obtain ⟨ps, hout, hseen, hread⟩ := hv (opening settings f s)
  rw [framed_around hflow hout]
  refine ⟨ps ++ closingPieces f, rfl, hseen, ?_⟩
  have hclose : Reads settings (seenAfter s.context.footnotes xs) [] (closingPieces f) :=
    .of_avoids (closingPieces_avoid f) (closingPieces_shown f) rfl
  have hall := hread.append hclose
  rwa [List.append_nil] at hall

theorem Shows.framed {f : Frame} (hflow : f.defaultFlow = .enter) (hn : f.isNumbered = false)
    (hv : Shows settings v xs) :
    Shows settings (Walk.framed (backend settings) f v) (f.texts.map .text ++ xs) := by
  intro s
  obtain ⟨ps, hout, hseen, hread⟩ := hv.around hflow s
  refine ⟨_, hout, ?_, ?_⟩
  · rw [hseen, seenAfter_append, seenAfter_texts]
  · refine (Reads.texts (startPieces_avoid settings f) (startPieces_shown settings hn)).append ?_
    rwa [seenAfter_texts]

/-- A definition shows its number before what it holds. -/
theorem Shows.footnote (label : String) (hv : Shows settings v xs) :
    Shows settings
      (Walk.numbered label fun n => Walk.framed (backend settings) (.footnote label n) v)
      (.footnote label :: xs) := by
  intro s
  simp only [Walk.numbered, s.context.footnoteNumber_eq label]
  generalize hn : labelNumber (seeLabel s.context.footnotes label) label = n
  obtain ⟨ps, hout, hseen, hread⟩ := hv.around (f := .footnote label n) rfl
    { s with context := { s.context with footnotes := seeLabel s.context.footnotes label } }
  have hlabel : Reads settings s.context.footnotes [.footnote label]
      (startPieces settings (.footnote label n)) :=
    .of_avoids (startPieces_avoid settings _)
      (by simp [startPieces, Piece.shown, classTag, shownText, hn]) rfl
  exact ⟨_, hout, hseen, hlabel.append hread⟩

theorem shows_reference (label : String) :
    Shows settings
      (Walk.numbered label fun n => Walk.leaf (backend settings) (.footnoteReference label n))
      [.footnote label] := by
  intro s
  simp only [Walk.numbered, s.context.footnoteNumber_eq label]
  refine ⟨_, rfl, rfl, .of_avoids rfl ?_ rfl⟩
  simp [leafPieces, Piece.shown, classTag, shownText]

theorem shows_leaf {l : Leaf} (hr : isRaw l = false) (hn : l.isNumbered = false) :
    Shows settings (Walk.leaf (backend settings) l) l.shown := by
  intro s
  cases l with
  | text t | code t => exact ⟨_, rfl, rfl, (Reads.texts rfl rfl : Reads _ _ ([t].map .text) _)⟩
  | softBreak => exact ⟨_, rfl, rfl, (Reads.texts rfl rfl : Reads _ _ (["\n"].map .text) _)⟩
  | codeBlock language literal => exact ⟨_, rfl, rfl, reads_codeBlock language literal⟩
  | inlineHtml t => cases hr
  | htmlBlock t => cases hr
  | footnoteReference label n => cases hn
  | lineBreak | image | rule | metadata => exact ⟨_, rfl, rfl, .of_avoids rfl rfl rfl⟩

theorem Shows.headed (level : Nat) (text : String) (hv : Shows settings v xs) :
    Shows settings (Walk.headed (backend settings) level text v) xs := by
  intro s
  have hframed := hv.framed (f := .heading level (s.context.registerHeading level text).1) rfl rfl
    { s with context := (s.context.registerHeading level text).2 }
  simpa only [Walk.headed, Context.footnotes_registerHeading, Frame.texts, List.map_nil,
    List.nil_append] using hframed

/-- **Every visit shows what the tree says**, as long as it meets no raw markup. -/
theorem shows_showing (settings : Settings) :
    Walk.Showing (backend settings) (fun l => isRaw l = false) (Shows settings) where
  idle s := ⟨[], (write_nil s.out).symm, rfl, .of_avoids rfl rfl rfl⟩
  seq hv hw := hv.seq hw
  choose hv s := hv s.context s
  inside c v xs hv s := hv { s with context := s.context.push c }
  leaf hr hn := shows_leaf hr hn
  space := rfl
  reference _ := shows_reference _
  framed hflow hn hv := hv.framed hflow hn
  footnote label _ _ hv := hv.footnote label
  headed level text _ _ hv := hv.headed level text
  comment v hflow s :=
    ⟨[], by simp [Walk.framed, backend, hflow, write_nil],
      by simp [Walk.framed, backend, hflow, seenAfter], .of_avoids rfl rfl rfl⟩

end

/-! ## Pages -/

/-- The pieces of the page of a document. -/
def pagePieces (settings : Settings) (d : Document) (c : Context) : List Piece :=
  (Walk.document (backend settings) d c {}).1.pieces.toList

theorem renderIn_eq (settings : Settings) (d : Document) (c : Context) :
    (renderIn settings d c).1 = render (pagePieces settings d c) := rfl

theorem pagePieces_eq {settings : Settings} {d : Document} {c : Context} {ps : List Piece}
    (h : (Walk.blocks (backend settings) d ⟨c, {}⟩).out = PageState.write {} ps) :
    pagePieces settings d c = ps := by
  simp [pagePieces, Walk.document, h, PageState.write]

theorem pagePieces_sound (settings : Settings) {d : Document} (hd : NoRawMarkup d) (c : Context) :
    ∀ p ∈ pagePieces settings d c, p.Sound := by
  obtain ⟨ps, hbalanced, hout⟩ := (writes_uniform settings).congruence.blocks d hd ⟨c, {}⟩
  rw [pagePieces_eq hout]
  exact hbalanced.sound

/-- What a reader finds in the page of a document without raw markup. -/
theorem reads_pagePieces (settings : Settings) {d : Document} (hd : NoRawMarkup d) (c : Context) :
    Reads settings c.footnotes (blocksShown d) (pagePieces settings d c) := by
  obtain ⟨ps, hout, -, hread⟩ := (shows_showing settings).blocks d hd ⟨c, {}⟩
  rw [pagePieces_eq hout]
  exact hread

/-- **A page keeps the text of its document, escaped exactly once.** Without its tags, and with the
entities decoded, the page of a document without raw markup is the text that the document shows,
from any context and whatever highlights code. -/
theorem decode_withoutTags_renderIn (settings : Settings) {d : Document} (hd : NoRawMarkup d)
    (c : Context) :
    decode (withoutTags (renderIn settings d c).1.toList) =
      shownText c.footnotes (blocksShown d) := by
  rw [renderIn_eq, decode_withoutTags_render (pagePieces_sound settings hd c),
    (reads_pagePieces settings hd c).text]

/-- A document with text that looks like markup and like entities, in most kinds of nodes. -/
def plainSpoken : Document :=
  [.quote (some .tip) [.paragraph [.text "a &lt; <b>", .softBreak, .footnote "x"]],
    .list none true [⟨some false, [.code none "\"&amp;\"\n"]⟩],
    .directive ⟨"Warning", .container, [.text "Mind"], {}⟩
      [.command ⟨"param", some "n", [.text "the size"]⟩],
    .directive ⟨"Comment", .leaf, [.text "hidden"], {}⟩ [.paragraph [.text "hidden"]],
    .directive ⟨"box", .container, [.text "hidden"], {}⟩ [.rule],
    .footnote "y" [.paragraph [.image "u" "t" [.text "alt"], .lineBreak, .footnote "x"]]]

theorem decode_withoutTags_plainSpoken :
    NoRawMarkup plainSpoken ∧
      decode (withoutTags (renderIn {} plainSpoken { footnotes := ["y"] }).1.toList) =
        "Tipa &lt; <b>\n2 \"&amp;\"\nMindn the size12".toList := by
  have h : NoRawMarkup plainSpoken := by
    simp [NoRawMarkup, plainSpoken, blocksEveryLeaf, Block.EveryLeaf, itemsEveryLeaf,
      inlinesEveryLeaf, Inline.EveryLeaf, isRaw]
  exact ⟨h, (decode_withoutTags_renderIn {} h _).trans (by decide)⟩

end RichMarkdown.Html
