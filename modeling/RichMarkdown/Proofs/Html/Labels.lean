import RichMarkdown.Proofs.Html.Siblings
import RichMarkdown.Proofs.Styled.Ancestors
import RichMarkdown.Proofs.Text.Lines
import RichMarkdown.Proofs.Text.Runs
import RichMarkdown.Proofs.Walk.Slots

/-!
# Labels of directives without a body

How often a text in the label of a directive without a body is shown (`ShowsOnce`). The walk shows
the label as a paragraph, in plain text and in a page alike. A page has the label of a call-out as a
title too, so there every text of it is shown twice, unless it is trimmed off the title.

* `Html.adds_fill`: a page around a slot does not depend on what is in the slot.
* `LeafDirective.showsOnce_iff`: the texts of a label that a page shows once.
-/

set_option autoImplicit false

namespace RichMarkdown

/-! ## Shown once -/

/-- As long as each other, with blanks at the same places. -/
def SameShape (s t : String) : Prop := s.toList.map Text.isBlank = t.toList.map Text.isBlank

instance (s t : String) : Decidable (SameShape s t) := inferInstanceAs (Decidable (_ = _))

/-- The text is in one place of what is shown. Nothing else there changes when the text is replaced
by one of the same shape. -/
def ShowsOnce (shown : String → List Char) (t : String) : Prop :=
  ∃ front back, ∀ s, SameShape s t → shown s = front ++ (s.toList ++ back)

section

variable {shown : String → List Char} {s t : String}

theorem SameShape.refl (t : String) : SameShape t t := rfl

theorem SameShape.allBlank_eq (h : SameShape s t) :
    Text.allBlank s.toList = Text.allBlank t.toList := by
  have hmap (cs : List Char) : Text.allBlank cs = (cs.map Text.isBlank).all id := by
    rw [Text.allBlank, List.all_map]
    rfl
  rw [hmap, hmap, h]

theorem SameShape.eq_empty (h : SameShape s "") : s = "" := by
  have hnil : s.toList = [] := List.map_eq_nil_iff.mp h
  exact String.toList_inj.mp hnil

/-- A character replaced by one of the same class. -/
theorem sameShape_replace (x y : List Char) {a b : Char} (h : Text.isBlank b = Text.isBlank a) :
    SameShape (String.ofList (x ++ b :: y)) (String.ofList (x ++ a :: y)) := by
  simp only [SameShape, String.toList_ofList, List.map_append, List.map_cons, h]

/-- What is shown has of each character as many more as the text has. -/
theorem ShowsOnce.count_eq (h : ShowsOnce shown t) (hs : SameShape s t) (c : Char) :
    (shown s).count c + t.toList.count c = (shown t).count c + s.toList.count c := by
  obtain ⟨front, back, hshown⟩ := h
  rw [hshown s hs, hshown t (.refl t)]
  simp only [List.count_append]
  omega

/-- There is another character of the same class. -/
theorem exists_other (a : Char) : ∃ b, b ≠ a ∧ Text.isBlank b = Text.isBlank a := by
  have hpair {c d : Char} (hne : c ≠ d) (h : Text.isBlank c = Text.isBlank a)
      (h' : Text.isBlank d = Text.isBlank a) : ∃ b, b ≠ a ∧ Text.isBlank b = Text.isBlank a := by
    by_cases hc : c = a
    · exact ⟨d, hc ▸ hne.symm, h'⟩
    · exact ⟨c, hc, h⟩
  cases ha : Text.isBlank a with
  | true => exact ha ▸ hpair (c := ' ') (d := '\t') (by decide) (ha.symm ▸ rfl) (ha.symm ▸ rfl)
  | false => exact ha ▸ hpair (c := 'x') (d := 'y') (by decide) (ha.symm ▸ rfl) (ha.symm ▸ rfl)

/-- A text with a character that is shown in two places is not shown once. -/
theorem not_showsOnce {x y u v w : List Char} {a : Char}
    (h : ∀ b, Text.isBlank b = Text.isBlank a →
      shown (String.ofList (x ++ b :: y)) = u ++ b :: (v ++ b :: w)) :
    ¬ ShowsOnce shown (String.ofList (x ++ a :: y)) := by
  intro honce
  -- another character in the place of `a` comes twice more in what is shown, and once in the text
  obtain ⟨b, hne, hb⟩ := exists_other a
  have hcount := honce.count_eq (sameShape_replace x y hb) b
  rw [h b hb, h a rfl] at hcount
  simp only [String.toList_ofList, List.count_append, List.count_cons_self,
    List.count_cons_of_ne hne.symm] at hcount
  omega

end

/-! ## Titles -/

namespace Text

theorem exists_cut {cs : List Char} (h : allBlank cs = false) :
    ∃ x c y, cs = x ++ c :: y ∧ isBlank c = false := by
  obtain ⟨c, hc, hblank⟩ := List.all_eq_false.mp h
  obtain ⟨x, y, rfl⟩ := List.append_of_mem hc
  exact ⟨x, c, y, rfl, by simpa using hblank⟩

/-- A character of a text is not trimmed off when it is not blank or between two that are not. -/
theorem exists_kept {front cs back : List Char} (hne : cs ≠ [])
    (h : allBlank cs = true → allBlank front = false ∧ allBlank back = false) :
    ∃ x a y u v, cs = x ++ a :: y ∧ ∀ b, isBlank b = isBlank a →
      trim (front ++ ((x ++ b :: y) ++ back)) = u ++ b :: v := by
  cases hcs : allBlank cs with
  | false =>
    obtain ⟨x, a, y, rfl, ha⟩ := exists_cut hcs
    refine ⟨x, a, y, trimStart (front ++ x), trimEnd (y ++ back), rfl, fun b hb => ?_⟩
    have hassoc : front ++ ((x ++ b :: y) ++ back) = (front ++ x) ++ b :: (y ++ back) := by simp
    rw [hassoc, trim_append_cons (hb.trans ha)]
  | true =>
    obtain ⟨x, c, y, rfl, hc⟩ := exists_cut (h hcs).1
    obtain ⟨x', d, y', rfl, hd⟩ := exists_cut (h hcs).2
    obtain ⟨a, cs, rfl⟩ := List.exists_cons_of_ne_nil hne
    refine ⟨[], a, cs, trimStart x ++ c :: y, cs ++ (x' ++ d :: trimEnd y'), rfl, fun b _ => ?_⟩
    have hassoc : x ++ c :: y ++ ([] ++ b :: cs ++ (x' ++ d :: y')) =
        x ++ c :: ((y ++ b :: cs ++ x') ++ d :: y') := by simp
    rw [hassoc, trim_append_cons hc, trimEnd_append_cons hd]
    simp

end Text

namespace InlineSlot

variable {p : InlineSlot} {s t : String}

/-- Nothing of the text is left in the trimmed text of the label. -/
def TrimmedOff (p : InlineSlot) (t : String) : Prop :=
  t = "" ∨ Text.allBlank t.toList = true ∧
    (Text.allBlank p.textBefore.toList = true ∨ Text.allBlank p.textAfter.toList = true)

theorem toList_trimmed_fill (p : InlineSlot) (t : String) :
    (Text.trimmed (plainText (p.fill t))).toList =
      Text.trim (p.textBefore.toList ++ (t.toList ++ p.textAfter.toList)) := by
  rw [Text.trimmed, String.toList_ofList, plainText_fill, String.toList_append,
    String.toList_append]

/-- A text that is trimmed off may be replaced. -/
theorem TrimmedOff.trimmed_eq (h : p.TrimmedOff t) (hs : SameShape s t) :
    Text.trimmed (plainText (p.fill s)) = Text.trimmed (plainText (p.fill t)) := by
  rcases h with rfl | ⟨ht, hside⟩
  · rw [hs.eq_empty]
  · have hblank (r : String) (hr : Text.allBlank r.toList = true) :
        Text.trim (p.textBefore.toList ++ (r.toList ++ p.textAfter.toList)) =
          Text.trim (p.textBefore.toList ++ p.textAfter.toList) := by
      rw [Text.allBlank_iff] at hr
      rcases hside with hbefore | hafter
      · rw [Text.allBlank_iff] at hbefore
        rw [Text.trim_append hbefore, Text.trim_append hbefore, Text.trim_append hr]
      · rw [Text.allBlank_iff] at hafter
        rw [Text.trim_append_blanks hafter, ← List.append_assoc, Text.trim_append_blanks hafter,
          Text.trim_append_blanks hr]
    apply String.toList_inj.mp
    rw [toList_trimmed_fill, toList_trimmed_fill, hblank s (hs.allBlank_eq.trans ht), hblank t ht]

/-- **A text that is not trimmed off has a character in the title**, at a place that depends on the
shape of the text alone. -/
theorem exists_titled (h : ¬ p.TrimmedOff t) : ∃ x a y u v, t = String.ofList (x ++ a :: y) ∧
    ∀ b, Text.isBlank b = Text.isBlank a →
      (Text.trimmed (plainText (p.fill (String.ofList (x ++ b :: y))))).toList = u ++ b :: v := by
  simp only [TrimmedOff, not_or, not_and, Bool.not_eq_true] at h
  have hne : t.toList ≠ [] := fun hnil => h.1 (String.toList_inj.mp hnil)
  obtain ⟨x, a, y, u, v, hcut, htrim⟩ := Text.exists_kept hne h.2
  refine ⟨x, a, y, u, v, by rw [← hcut, String.ofList_toList], fun b hb => ?_⟩
  rw [toList_trimmed_fill, String.toList_ofList, htrim b hb]

theorem alertTitle_fill {u v : List Char} {b : Char}
    (h : (Text.trimmed (plainText (p.fill t))).toList = u ++ b :: v) (alert : Alert) :
    (Html.alertTitle alert (p.fill t)).toList = u ++ b :: v := by
  have hne : ¬ (Text.trimmed (plainText (p.fill t))).isEmpty = true := by
    rw [String.isEmpty_iff, ← String.toList_inj, h]
    simp
  rw [Html.alertTitle, if_neg hne, h]

end InlineSlot

/-! ## Directives -/

/-- A directive without a body around a text or a code in its label. A walk visits it, since it is
no comment. -/
structure LeafDirective where
  name : String
  label : InlineSlot
  attributes : Attributes := {}
  children : List Block := []
  shown : isCommentName name = false

namespace LeafDirective

/-- What the directive says about itself with this text in its label. -/
def head (x : LeafDirective) (t : String) : Directive :=
  ⟨x.name, .leaf, x.label.fill t, x.attributes⟩

/-- The directive with this text in its label. -/
def block (x : LeafDirective) (t : String) : Block := .directive (x.head t) x.children

/-- A walk comes to the text inside the directive. -/
theorem exists_outline (x : LeafDirective) : ∃ s : OutlineSlot, ∀ t,
    (x.block t).outline = .node (.directive (x.head t)) (s.fill (.leaf (x.label.leaf t))) := by
  obtain ⟨s, hs⟩ := x.label.exists_outline
  refine ⟨.node [] .paragraph (fun _ => rfl) s (blocksOutline x.children), fun t => ?_⟩
  have hlabel : (x.head t).labelOutline = [.node .paragraph (inlinesOutline (x.label.fill t))] :=
    if_pos ⟨rfl, by simp [head, x.label.isEmpty_fill]⟩
  rw [block, Block.outline, hlabel, hs]
  rfl

end LeafDirective

/-! ## Pages around a slot -/

/-- The context in which a walk starts inside a node. -/
def Node.inner (n : Node) (c : Context) : Context :=
  n.container?.elim (n.noted c) (n.noted c).push

/-- The context after a node, from the one that the walk inside it leaves. -/
def Node.outer (n : Node) (c : Context) : Context := n.container?.elim c fun _ => c.pop

namespace Html

section

variable {settings : Settings} {v : Visit} {c c' : Context} {ps : List Piece}

theorem Adds.node (settings : Settings) {n : Node} (hn : ∀ c, (n.frame c).defaultFlow = .enter)
    (h : Adds v (n.inner c) ps c') :
    Adds (Walk.node (backend settings) n v) c
      (startPieces settings (n.frame c) ++ (ps ++ closingPieces (n.frame c)))
      (n.outer c') := by
  have hinside : Adds (Walk.insideOf n.container? v) (n.noted c) ps (n.outer c') := by
    unfold Node.inner at h
    unfold Node.outer
    revert h
    cases n.container? with
    | none => exact id
    | some k => exact Adds.inside
  exact fun out => hinside.framed (hn c) out

theorem Settled.node (n : Node) (hv : Settled v) : Settled (Walk.node (backend settings) n v) := by
  have hinside : Settled (Walk.insideOf n.container? v) := by
    cases n.container? with
    | none => exact hv
    | some k => exact hv.inside k
  exact fun c => hinside.framed (n.frame c) (n.noted c)

mutual

theorem settled_outline (settings : Settings) :
    ∀ o : Outline, Settled (Walk.outline (backend settings) o)
  | .leaf l => fun c => ⟨leafPieces settings l, c, fun _ => rfl⟩
  | .reference label => fun c =>
    ⟨leafPieces settings (.footnoteReference label (c.footnoteNumber label).1),
      (c.footnoteNumber label).2, fun _ => rfl⟩
  | .node n inside => (settled_outlines settings inside).node n

theorem settled_outlines (settings : Settings) :
    ∀ os : List Outline, Settled (Walk.outlines (backend settings) os)
  | [] => fun c => ⟨[], c, fun out => by rw [write_nil, Walk.outlines, id]⟩
  | o :: os => (settled_outline settings o).seq (settled_outlines settings os)

end

/-- **What stands around a slot is written whatever is in the slot**, as long as that leaves the
same context. -/
theorem adds_fill (settings : Settings) (s : OutlineSlot) (c : Context) :
    ∃ before d, ∀ d', ∃ after c', ∀ o ps, Adds (Walk.outline (backend settings) o) d ps d' →
      Adds (Walk.outlines (backend settings) (s.fill o)) c (before ++ (ps ++ after)) c' := by
  induction s generalizing c with
  | here before after =>
    obtain ⟨ps₁, d, hbefore⟩ := (settled_outlines settings before).adds c
    refine ⟨ps₁, d, fun d' => ?_⟩
    obtain ⟨ps₂, c', hafter⟩ := (settled_outlines settings after).adds d'
    refine ⟨ps₂, c', fun o ps ho => ?_⟩
    rw [OutlineSlot.fill, Walk.outlines_append]
    exact hbefore.seq (ho.seq hafter)
  | node before n entered inside after ih =>
    obtain ⟨ps₁, c₁, hbefore⟩ := (settled_outlines settings before).adds c
    obtain ⟨front, d, hinside⟩ := ih (n.inner c₁)
    refine ⟨ps₁ ++ (startPieces settings (n.frame c₁) ++ front), d, fun d' => ?_⟩
    obtain ⟨back, c₂, hinside⟩ := hinside d'
    obtain ⟨ps₂, c', hafter⟩ := (settled_outlines settings after).adds (n.outer c₂)
    refine ⟨back ++ (closingPieces (n.frame c₁) ++ ps₂), c', fun o ps ho => ?_⟩
    rw [OutlineSlot.fill, Walk.outlines_append]
    have hall := hbefore.seq (((hinside o ps ho).node settings entered).seq hafter)
    simp only [List.append_assoc] at hall ⊢
    exact hall

theorem Adds.pagePieces_eq {d : Document} (h : Adds (Walk.blocks (backend settings) d) c ps c') :
    pagePieces settings d c = ps := Html.pagePieces_eq (congrArg Walk.State.out (h {}))

/-- Only the start of the directive and the leaf itself depend on the text. -/
theorem adds_leafDirective (settings : Settings) (x : LeafDirective) (c : Context) :
    ∃ before after c', ∀ t, Adds (Walk.blocks (backend settings) [x.block t]) c
      (startPieces settings (.directive (x.head t)) ++
        (before ++ (leafPieces settings (x.label.leaf t) ++ after))) c' := by
  obtain ⟨s, hs⟩ := x.exists_outline
  obtain ⟨before, d, hlabel⟩ := adds_fill settings s (c.push .directive)
  obtain ⟨after, c', hlabel⟩ := hlabel d
  refine ⟨before, after ++ closingPieces (.directive (x.head "")), c'.pop, fun t => ?_⟩
  have hleaf : Adds (Walk.outline (backend settings) (.leaf (x.label.leaf t))) d
      (leafPieces settings (x.label.leaf t)) d := fun _ => rfl
  have hnode := (hlabel _ _ hleaf).node settings (n := .directive (x.head t)) (c := c)
    fun _ => if_neg (by simp [LeafDirective.head, x.shown])
  simp only [List.append_assoc] at hnode
  rw [Walk.blocks_eq, blocksOutline, hs]
  exact hnode

/-- **The page of a document has what the directive alone writes** from some context, among pieces
that do not depend on the text. -/
theorem exists_stretch (settings : Settings) (x : LeafDirective) (p : BlockSlot) (c : Context) :
    ∃ d before after, ∀ t, pagePieces settings (p.fill (x.block t)) c =
      before ++ (pagePieces settings [x.block t] d ++ after) := by
  obtain ⟨s, hs⟩ := p.exists_outline
  obtain ⟨before, d, hslot⟩ := adds_fill settings s c
  obtain ⟨_, _, d', hblock⟩ := adds_leafDirective settings x d
  obtain ⟨after, c', hslot⟩ := hslot d'
  refine ⟨d, before, after, fun t => ?_⟩
  have hdirective := hblock t
  rw [Walk.blocks_eq] at hdirective
  have hdocument := hslot (x.block t).outline _ hdirective
  rw [← hs, ← Walk.blocks_eq] at hdocument
  rw [hdocument.pagePieces_eq, (hblock t).pagePieces_eq]

end

/-! ## Reading a page -/

/-- The text of a piece, for a reader of raw markup. -/
def Piece.read (raw : String → List Char) : Piece → List Char
  | .startTag _ _ | .endTag _ => []
  | .text s => s.toList
  | .raw s => raw s

/-- The text of some pieces, which a reader of raw markup finds without the tags. -/
def readText (raw : String → List Char) (ps : List Piece) : List Char :=
  ps.flatMap (Piece.read raw)

section

variable {settings : Settings} (raw : String → List Char)

theorem readText_append (ps qs : List Piece) :
    readText raw (ps ++ qs) = readText raw ps ++ readText raw qs := List.flatMap_append

/-- Without raw markup the text is what is left of the page without its tags, decoded. -/
theorem readText_pagePieces {d : Document} (hd : NoRawMarkup d) (c : Context) :
    readText raw (pagePieces settings d c) =
      decode (withoutTags (renderIn settings d c).1.toList) := by
  have hsound := pagePieces_sound settings hd c
  rw [renderIn_eq, decode_withoutTags_render hsound]
  refine List.flatMap_congr fun p hp => ?_
  cases p with
  | raw s => exact absurd rfl ((hsound _ hp).ne_raw s)
  | startTag | endTag | text => rfl

theorem readText_leaf (label : InlineSlot) (t : String) :
    readText raw (leafPieces settings (label.leaf t)) = t.toList := by
  rcases label.leaf_cases with h | h
  · rw [h]
    exact List.append_nil _
  · rw [h]
    exact List.append_nil _

theorem readText_directive (head : Directive) :
    readText raw (startPieces settings (.directive head)) =
      (titleTexts head.name head.label).flatMap String.toList := by
  simp only [startPieces, titleTexts]
  cases Alert.ofName? head.name with
  | none => rfl
  | some alert => simp [readText, alertStart, Piece.read, classTag]

/-- **The text of the directive in a page**: its title, if it is a call-out, and its label. -/
theorem exists_readText (settings : Settings) (x : LeafDirective) (c : Context) :
    ∃ front back, ∀ t, readText raw (pagePieces settings [x.block t] c) =
      (titleTexts x.name (x.label.fill t)).flatMap String.toList ++
        (front ++ (t.toList ++ back)) := by
  obtain ⟨before, after, c', hadds⟩ := adds_leafDirective settings x c
  refine ⟨readText raw before, readText raw after, fun t => ?_⟩
  rw [(hadds t).pagePieces_eq, readText_append, readText_append, readText_append,
    readText_directive, readText_leaf]
  rfl

/-- A text in a label is shown once unless it is in a title too. -/
theorem showsOnce_readText_iff (settings : Settings) (x : LeafDirective) (c : Context)
    (t : String) : ShowsOnce (fun s => readText raw (pagePieces settings [x.block s] c)) t ↔
      Alert.ofName? x.name = none ∨ x.label.TrimmedOff t := by
  obtain ⟨front, back, htext⟩ := exists_readText raw settings x c
  rw [funext htext]
  cases halert : Alert.ofName? x.name with
  | none =>
    have honce (s : String) : (titleTexts x.name (x.label.fill s)).flatMap String.toList ++
        (front ++ (s.toList ++ back)) = front ++ (s.toList ++ back) := by
      simp [titleTexts, halert]
    exact ⟨fun _ => .inl rfl, fun _ => ⟨front, back, fun s _ => honce s⟩⟩
  | some alert =>
    have htitle (s : String) : (titleTexts x.name (x.label.fill s)).flatMap String.toList =
        (alertTitle alert (x.label.fill s)).toList := by
      simp [titleTexts, halert]
    constructor
    · intro honce
      refine .inr (by_contra fun htrimmed => ?_)
      -- the character is in the title, and once more in the paragraph
      obtain ⟨l, a, r, u, v, rfl, hkept⟩ := InlineSlot.exists_titled htrimmed
      refine not_showsOnce (u := u) (v := v ++ (front ++ l)) (w := r ++ back) (fun b hb => ?_) honce
      rw [htitle, InlineSlot.alertTitle_fill (hkept b hb), String.toList_ofList]
      simp
    · rintro (h | htrimmed)
      · cases h
      · refine ⟨(alertTitle alert (x.label.fill t)).toList ++ front, back, fun s hs => ?_⟩
        dsimp only
        rw [htitle, alertTitle, htrimmed.trimmed_eq hs, alertTitle, List.append_assoc]

end

end Html

/-! ## Plain text -/

theorem outlinesParts_append (path : List Modifier) (xs ys : List Outline) :
    outlinesParts path (xs ++ ys) = outlinesParts path xs ++ outlinesParts path ys := by
  induction xs with
  | nil => rfl
  | cons x xs ih => rw [List.cons_append, outlinesParts, outlinesParts, ih, List.append_assoc]

/-- The parts of what is in a slot stand among parts that do not depend on it. -/
theorem OutlineSlot.exists_parts (s : OutlineSlot) (path : List Modifier) :
    ∃ before path' after, ∀ o,
      outlinesParts path (s.fill o) = before ++ (o.parts path' ++ after) := by
  induction s generalizing path with
  | here before after =>
    exact ⟨outlinesParts path before, path, outlinesParts path after, fun o =>
      outlinesParts_append path before (o :: after)⟩
  | node before n entered inside after ih =>
    obtain ⟨front, path', back, hinside⟩ := ih (n.modifier?.toList ++ path)
    have hshown : n.isComment = false := by
      have hflow := Layout.defaultFlow_frame n {}
      rw [entered] at hflow
      by_contra h
      simp [h] at hflow
    refine ⟨outlinesParts path before ++ (n.parts path ++ front), path',
      back ++ outlinesParts path after, fun o => ?_⟩
    rw [fill, outlinesParts_append, outlinesParts, Outline.parts, hshown, hinside]
    simp

theorem InlineSlot.exists_parts (label : InlineSlot) (path : List Modifier) :
    ∃ path', ∀ t, (label.leaf t).parts path = [.text path' t] := by
  rcases label.leaf_cases with h | h
  · exact ⟨path, fun t => by rw [h, Leaf.parts]⟩
  · exact ⟨.code :: path, fun t => by rw [h, Leaf.parts]⟩

/-- The characters of letters. -/
def lettersText (ls : List (Char × TextStyle)) : String := String.ofList (ls.map Prod.fst)

theorem commutes_lettersText :
    Layout.State.Commutes lettersText Layout.lettersSink PlainText.sink := by
  intro out text style
  have hmap : (text.toList.map (·, style)).map Prod.fst = text.toList := by
    rw [List.map_map]
    exact List.map_id _
  simp only [lettersText, Layout.lettersSink, PlainText.sink, List.map_append,
    String.ofList_append, hmap, String.ofList_toList]

/-- **The plain text of a document** is the letters of its parts, laid out. -/
theorem PlainText.exists_laid (d : Document) (c : Context) : ∃ letters,
    Layout.Laid Layout.ContainerText
      (partsLetters c.footnotes (outlinesParts [] (blocksOutline d))) letters ∧
    (PlainText.renderIn d c).1 = lettersText letters := by
  obtain ⟨-, hlays⟩ := Layout.shows_outlines (blocksOutline d) [] ⟨c, { out := [] }⟩ nofun rfl
  obtain ⟨letters, hletters, hlaid⟩ := hlays.out
  rw [← Walk.blocks_eq] at hletters
  have hsink := Layout.simulation_map commutes_lettersText
    (fun c l s => rfl (a := Layout.leaf PlainText.sink none c l s))
  obtain ⟨hmap, -⟩ := hsink.document (blocksEveryLeaf_of_forall (fun _ => trivial) d) c
    (s := { out := [] }) rfl
  have htext : (PlainText.renderIn d c).1 = lettersText letters :=
    (congrArg Layout.State.out hmap).symm.trans (congrArg lettersText hletters)
  exact ⟨letters, hlaid, htext⟩

/-- The text of a label is one part of the document, and no other part depends on it. -/
theorem LeafDirective.exists_parts (x : LeafDirective) (p : BlockSlot) :
    ∃ before path after, ∀ t, outlinesParts [] (blocksOutline (p.fill (x.block t))) =
      before ++ .text path t :: after := by
  obtain ⟨s, hs⟩ := p.exists_outline
  obtain ⟨before, path, after, hparts⟩ := s.exists_parts []
  obtain ⟨s, hs'⟩ := x.exists_outline
  obtain ⟨before', path, after', hparts'⟩ := s.exists_parts path
  obtain ⟨path, hleaf⟩ := x.label.exists_parts path
  refine ⟨before ++ before', path, after' ++ after, fun t => ?_⟩
  have hshown : (Node.directive (x.head t)).isComment = false := x.shown
  have hdirective (path : List Modifier) : (x.block t).outline.parts path =
      outlinesParts path (s.fill (.leaf (x.label.leaf t))) := by
    rw [hs', Outline.parts, if_neg (by simp [hshown])]
    rfl
  rw [hs, hparts, hdirective, hparts', Outline.parts, hleaf]
  simp

/-- **A text in a label is shown once in plain text.** -/
theorem LeafDirective.exists_laid (x : LeafDirective) (p : BlockSlot) (c : Context) :
    ∃ front back style, ∀ t, ∃ letters,
      Layout.Laid Layout.ContainerText (front ++ (t.toList.map (·, style) ++ back)) letters ∧
      (PlainText.renderIn (p.fill (x.block t)) c).1 = lettersText letters := by
  obtain ⟨before, path, after, hparts⟩ := x.exists_parts p
  refine ⟨partsLetters c.footnotes before, partsLetters (labelsAfter c.footnotes before) after,
    styleIn path, fun t => ?_⟩
  obtain ⟨letters, hlaid, htext⟩ := PlainText.exists_laid (p.fill (x.block t)) c
  rw [hparts, partsLetters_append, partsLetters] at hlaid
  exact ⟨letters, hlaid, htext⟩

/-! ## Pages and plain text -/

namespace LeafDirective

/-- **The label of a call-out is shown twice, all others once.** In any document, from any context
and whatever highlights code, what the page has for the directive is what the directive alone has
from some context. In its text, however raw markup is read, a text of the label is shown once
exactly when the directive is not named like a call-out or the text is trimmed off the title.
Without raw markup this is the text of the page without its tags, decoded. In the plain text of the
document every text of the label is shown once. -/
theorem showsOnce_iff (settings : Html.Settings) (x : LeafDirective) (p : BlockSlot)
    (c : Context) :
    ∃ d before after,
      (∀ t, Html.pagePieces settings (p.fill (x.block t)) c =
        before ++ (Html.pagePieces settings [x.block t] d ++ after)) ∧
      (∀ raw t, ShowsOnce
          (fun s => Html.readText raw (Html.pagePieces settings [x.block s] d)) t ↔
        Alert.ofName? x.name = none ∨ x.label.TrimmedOff t) ∧
      (∀ raw t, Html.NoRawMarkup [x.block t] →
        Html.readText raw (Html.pagePieces settings [x.block t] d) =
          Html.decode (Html.withoutTags (Html.renderIn settings [x.block t] d).1.toList)) ∧
      ∃ front back style, ∀ t, ∃ letters,
        Layout.Laid Layout.ContainerText (front ++ (t.toList.map (·, style) ++ back)) letters ∧
        (PlainText.renderIn (p.fill (x.block t)) c).1 = lettersText letters := by
  obtain ⟨d, before, after, hpage⟩ := Html.exists_stretch settings x p c
  exact ⟨d, before, after, hpage, fun raw t => Html.showsOnce_readText_iff raw settings x d t,
    fun raw _ ht => Html.readText_pagePieces raw ht d, x.exists_laid p c⟩

/-- A directive with code in its label, between texts and in a mark. -/
def boxed : LeafDirective where
  name := "box"
  label := .marked [.text " a "] .strong (.code [.softBreak] [.footnote "n"]) [.text "b"]
  children := [.rule]
  shown := by decide

theorem showsOnce_boxed :
    ∃ d before after,
      (∀ t, Html.pagePieces {} [.rule, .quote none [boxed.block t]] {} =
        before ++ (Html.pagePieces {} [boxed.block t] d ++ after)) ∧
      ∀ t, ShowsOnce (fun s =>
        Html.decode (Html.withoutTags (Html.renderIn {} [boxed.block s] d).1.toList)) t := by
  have hraw (t : String) : Html.NoRawMarkup [boxed.block t] := by
    simp [Html.NoRawMarkup, boxed, block, head, InlineSlot.fill, blocksEveryLeaf, Block.EveryLeaf,
      inlinesEveryLeaf, Inline.EveryLeaf, Html.isRaw]
  obtain ⟨d, before, after, hpage, honce, hread, -⟩ :=
    showsOnce_iff {} boxed (.quote [.rule] none (.here [] []) []) {}
  refine ⟨d, before, after, hpage, fun t => ?_⟩
  have ht := (honce (fun _ => []) t).mpr (.inl (by decide))
  rwa [funext fun s => hread (fun _ => []) s (hraw s)] at ht

/-- A call-out with nothing but a text. -/
def noted : LeafDirective := { name := "note", label := .text [] [], shown := by decide }

/-- The text is in the title of the call-out and in its content. -/
theorem not_showsOnce_noted :
    noted.block "x" = .directive ⟨"note", .leaf, [.text "x"], {}⟩ [] ∧
      Html.decode (Html.withoutTags (Html.renderIn {} [noted.block "x"] {}).1.toList) =
        "xx".toList ∧
      ¬ ShowsOnce (fun s =>
        Html.decode (Html.withoutTags (Html.renderIn {} [noted.block s] {}).1.toList)) "x" := by
  have htext (s : String) :
      Html.decode (Html.withoutTags (Html.renderIn {} [noted.block s] {}).1.toList) =
        shownText [] (blocksShown [noted.block s]) :=
    Html.decode_withoutTags_renderIn {}
      (by simp [Html.NoRawMarkup, noted, block, head, InlineSlot.fill, blocksEveryLeaf,
        Block.EveryLeaf, inlinesEveryLeaf, Inline.EveryLeaf, Html.isRaw]) {}
  have hx := (htext "x").trans (by decide : _ = "xx".toList)
  have hy := (htext "y").trans (by decide : _ = "yy".toList)
  refine ⟨rfl, hx, fun honce => ?_⟩
  have hcount := honce.count_eq (by decide : SameShape "y" "x") 'x'
  rw [hx, hy] at hcount
  exact absurd hcount (by decide)

end LeafDirective

end RichMarkdown
