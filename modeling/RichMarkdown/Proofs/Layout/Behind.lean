import RichMarkdown.Proofs.Layout.Steady

/-!
# Layouts behind a text

A block behind others is laid out as it is alone, behind the text of the others and a blank line
(`State.behind`). Alone it asks in vain for the gap before its first content; behind a text the gap
is owed, however often it is asked for.

* `behind_writeStyled`: a text that neither begins nor ends at a line end is written alike.
* `simulation_behind`: every hook keeps the layouts alone and behind a text in step, where nothing
  breaks a line (`Unbroken`).
-/

set_option autoImplicit false

namespace RichMarkdown.Layout

namespace State

variable {s : State String} {p : String}

/-! ## Layouts behind a text -/

/-- A layout as it is behind a text: before its first content a blank line is owed. -/
def behind (p : String) (s : State String) : State String :=
  if s.started then s.map (p ++ "\n\n" ++ ·)
  else { s with out := p, owed := 2, atLineStart := false, started := true }

/-- Whatever is owed is a gap between blocks. -/
structure Tidy (s : State String) : Prop where
  owed : s.owed ≤ 2
  owedByCode : s.owedByCode = 0
  unstarted : s.started = false → s.owed = 0

theorem behind_of_started (h : s.started = true) : s.behind p = s.map (p ++ "\n\n" ++ ·) :=
  if_pos h

theorem behind_of_not_started (h : s.started = false) : s.behind p =
    { s with out := p, owed := 2, atLineStart := false, started := true } :=
  if_neg (by simp [h])

theorem started_behind (s : State String) : (s.behind p).started = true := by
  cases h : s.started with
  | true => exact behind_of_started (p := p) h ▸ h
  | false => rw [behind_of_not_started h]

/-- To write behind a text is to write, and to put the text before it. -/
theorem commutes_behind (q : String) : Commutes (q ++ ·) PlainText.sink PlainText.sink :=
  fun _ _ _ => (String.append_assoc ..).symm

/-! ### Gaps -/

theorem behind_request (ht : s.Tidy) (gap : Gap) :
    (s.request gap).behind p = (s.behind p).request gap := by
  cases h : s.started with
  | true =>
    have hr : (s.request gap).started = true := by
      unfold request
      split <;> exact h
    rw [behind_of_started h, behind_of_started hr, map_request]
  | false =>
    have hr : s.request gap = s := by rw [request, h, if_neg Bool.false_ne_true]
    rw [hr, behind_of_not_started h]
    have hgap : max 2 (s.owedByCode + gap.lines) = 2 := by
      rw [ht.owedByCode]
      cases gap <;> rfl
    simp only [request, if_true, hgap]

theorem fresh_behind (s : State String) : (s.behind p).fresh = s.fresh := by
  unfold behind
  split <;> rfl

theorem tightness_behind (s : State String) : (s.behind p).tightness = s.tightness := by
  unfold behind
  split <;> rfl

theorem margins_behind (s : State String) : (s.behind p).margins = s.margins := by
  unfold behind
  split <;> rfl

theorem nextMargin_behind (s : State String) : (s.behind p).nextMargin = s.nextMargin := by
  rw [nextMargin, margins_behind, nextMargin]

/-- The first content starts a line, whether or not it is behind a text. -/
theorem Steady.startsLine_behind (h : s.Steady) : (s.behind p).startsLine = s.startsLine := by
  cases hs : s.started with
  | true => rw [behind_of_started hs]; rfl
  | false =>
    rw [behind_of_not_started hs, startsLine, startsLine, h.lineStart, hs]
    rfl

theorem styles_behind (s : State String) : (s.behind p).styles = s.styles := by
  unfold behind
  split <;> rfl

/-! ### Content -/

theorem Steady.isEmpty_out (h : s.Steady) (hs : s.started = true) : s.out.isEmpty = false := by
  obtain ⟨c, hc, -⟩ := h.ended hs
  by_contra hne
  have hnil : s.out = "" := by simpa using hne
  rw [hnil] at hc
  cases hc

theorem Steady.behind (h : s.Steady) (hp : EndsInContent p) : (s.behind p).Steady := by
  cases hs : s.started with
  | true =>
    rw [behind_of_started hs]
    exact
      { proper := h.proper
        lineStart := h.lineStart
        waiting := h.waiting
        fresh := h.fresh
        untouched := fun hn => absurd hn (by simp [map, hs])
        ended := fun _ => (h.ended hs).append _ }
  | false =>
    rw [behind_of_not_started hs]
    exact
      { proper := h.proper
        lineStart := rfl
        waiting := by rintro - ⟨⟩
        fresh := fun _ _ => Nat.two_pos
        untouched := by rintro ⟨⟩
        ended := fun _ => hp }

/-- The line ends that are owed before the first content are those of the blank line. -/
theorem Steady.lineEnds_behind (h : s.Steady) (ht : s.Tidy) :
    (s.behind p).out ++ (s.behind p).lineEnds = p ++ "\n\n" ++ (s.out ++ s.lineEnds) := by
  cases hs : s.started with
  | true =>
    rw [behind_of_started hs]
    exact String.append_assoc ..
  | false =>
    have hnone : s.out ++ s.lineEnds = "" := by
      simp [lineEnds, (h.untouched hs).1, ht.unstarted hs]
    have hblank : (s.behind p).blankMargin = "" := by
      rw [behind_of_not_started hs]
      exact h.blankMargin_of_not_started hs
    have howed : (s.behind p).owed = 2 := by rw [behind_of_not_started hs]
    rw [hnone, String.append_empty, lineEnds, howed, hblank, behind_of_not_started hs]
    rfl

/-- Content comes behind the text. -/
theorem Steady.behind_afterContent (h : s.Steady) (ht : s.Tidy) (text : String) :
    (s.afterContent (s.lineEnds ++ text)).behind p =
      (s.behind p).afterContent ((s.behind p).lineEnds ++ text) := by
  have hends := h.lineEnds_behind (p := p) ht
  rw [behind_of_started rfl]
  simp only [map, State.afterContent, ← String.append_assoc, hends, margins_behind,
    tightness_behind, styles_behind]

theorem behind_writeLine (h : s.Steady) (ht : s.Tidy) (hp : EndsInContent p) (line : String)
    (style : TextStyle) :
    (s.writeLine PlainText.sink line style).behind p =
      (s.behind p).writeLine PlainText.sink line style := by
  cases hne : line.isEmpty with
  | true => simp only [writeLine, hne, if_true]
  | false =>
    rw [writeLine_plain h hne, writeLine_plain (h.behind hp) hne, lead, lead,
      h.startsLine_behind, nextMargin_behind, String.append_assoc, String.append_assoc,
      h.behind_afterContent ht]

theorem started_writeStyled (hs : s.started = true) (text : String) (style : TextStyle) :
    (s.writeStyled PlainText.sink text style).started = true := by
  rw [writeStyled_eq_foldl joins_plainText]
  generalize text.toList = cs
  induction cs generalizing s with
  | nil => exact hs
  | cons c cs ih =>
    refine ih ?_
    unfold writeChar
    split
    · exact hs
    · exact (inLine_writeLine s style (by simp)).started

theorem behind_writeStyled_of_started (hs : s.started = true) (text : String)
    (style : TextStyle) : (s.writeStyled PlainText.sink text style).behind p =
      (s.behind p).writeStyled PlainText.sink text style := by
  rw [behind_of_started hs, behind_of_started (started_writeStyled hs text style),
    map_writeStyled (commutes_behind _)]

end State

/-- The text neither begins nor ends at a line end. -/
structure Solid (text : String) : Prop where
  head : text.toList.head? ≠ some '\n'
  last : text.toList.getLast? ≠ some '\n'

theorem solid_of_notMem {text : String} (h : '\n' ∉ text.toList) : Solid text where
  head hc := h (List.mem_of_head? hc)
  last hc := h (List.mem_of_getLast? hc)

namespace State

variable {s : State String} {p : String}

theorem behind_writeStyled (h : s.Steady) (ht : s.Tidy) (hp : EndsInContent p) {text : String}
    (hsolid : Solid text) (style : TextStyle) :
    (s.writeStyled PlainText.sink text style).behind p =
      (s.behind p).writeStyled PlainText.sink text style := by
  rw [writeStyled_eq_foldl joins_plainText, writeStyled_eq_foldl joins_plainText]
  have hhead := hsolid.head
  generalize text.toList = cs at hhead ⊢
  cases cs with
  | nil => rfl
  | cons c cs =>
    -- the first character is content, and behind content both go on alike
    have hc : ¬ (c == '\n') = true := by simpa using hhead
    have hchar (t : State String) : writeChar PlainText.sink style t c =
        t.writeLine PlainText.sink (String.singleton c) style := if_neg hc
    have hne : (String.singleton c).isEmpty = false := by simp
    have hstarted := (inLine_writeLine (k := PlainText.sink) s style hne).started
    have hrest := behind_writeStyled_of_started (p := p) hstarted (String.ofList cs) style
    rw [List.foldl_cons, List.foldl_cons, hchar, hchar, ← behind_writeLine h ht hp]
    simpa only [writeStyled_eq_foldl joins_plainText, String.toList_ofList] using hrest

theorem inLine_writeStyled {text : String} (h : EndsInContent text) (s : State String)
    (style : TextStyle) : (s.writeStyled PlainText.sink text style).InLine := by
  obtain ⟨c, hc, hne⟩ := h
  obtain ⟨cs, hcs⟩ := List.getLast?_eq_some_iff.mp hc
  rw [writeStyled_eq_foldl joins_plainText, hcs, List.foldl_append, List.foldl_cons, List.foldl_nil,
    writeChar, if_neg (by simpa using hne)]
  exact inLine_writeLine _ style (by simp)

/-- Nothing is owed in a line under way. -/
theorem InLine.tidy (h : s.InLine) : s.Tidy where
  owed := h.owed ▸ Nat.zero_le 2
  owedByCode := h.owedByCode
  unstarted := fun _ => h.owed

/-- A text that does not end at a line end leaves a layout as it was or in a line. -/
theorem writeStyled_cases {text : String} (h : text.toList.getLast? ≠ some '\n')
    (s : State String) (style : TextStyle) :
    text = "" ∧ s.writeStyled PlainText.sink text style = s ∨
      (s.writeStyled PlainText.sink text style).InLine := by
  cases hc : text.toList.getLast? with
  | none =>
    obtain rfl : text = "" := by simpa using List.getLast?_eq_none_iff.mp hc
    exact .inl ⟨rfl, rfl⟩
  | some c => exact .inr (inLine_writeStyled ⟨c, hc, fun heq => h (heq ▸ hc)⟩ s style)

theorem Tidy.writeStyled (ht : s.Tidy) {text : String} (h : Solid text) (style : TextStyle) :
    (s.writeStyled PlainText.sink text style).Tidy := by
  rcases writeStyled_cases h.last s style with ⟨-, hsame⟩ | hline
  · rwa [hsame]
  · exact hline.tidy

theorem owedByCode_owed (h : s.owed = s.owedByCode) : { s with owedByCode := s.owed } = s := by
  cases s
  cases h
  rfl

/-- Code that does not end at a line end owes no line ends. -/
theorem codeBlock_of_solid (s : State String) (mode : ColorMode) (language : Option String)
    {literal : String} (hl : Solid literal) :
    s.codeBlock PlainText.sink none mode language literal =
      ((s.blockStart.pushStyle ({ · with monospace := true })).write PlainText.sink
        literal).popStyle := by
  simp only [codeBlock, writeCode, write]
  split
  · rename_i hany
    rcases writeStyled_cases hl.last (s.blockStart.pushStyle ({ · with monospace := true }))
      (s.blockStart.pushStyle ({ · with monospace := true })).style with ⟨rfl, -⟩ | hline
    · cases hany
    · exact owedByCode_owed (hline.owed.trans hline.owedByCode.symm)
  · rfl

/-! ### Containers -/

/-- The change of a layout writes nothing and asks for nothing, and does not depend on what was
written and asked for. -/
structure Silent (g : State String → State String) : Prop where
  started : ∀ s, (g s).started = s.started
  owed : ∀ s, (g s).owed = s.owed
  owedByCode : ∀ s, (g s).owedByCode = s.owedByCode
  map : ∀ (f : String → String) s, (g s).map f = g (s.map f)
  set : ∀ (p : String) (s : State String),
    g { s with out := p, owed := 2, atLineStart := false, started := true } =
      { g s with out := p, owed := 2, atLineStart := false, started := true }

theorem Silent.behind {g : State String → State String} (hg : Silent g) (p : String)
    (s : State String) : (g s).behind p = g (s.behind p) := by
  cases hs : s.started with
  | true => rw [behind_of_started hs, behind_of_started ((hg.started s).trans hs), hg.map]
  | false =>
    rw [behind_of_not_started hs, behind_of_not_started ((hg.started s).trans hs), hg.set]

theorem Silent.tidy {g : State String → State String} (hg : Silent g) (h : s.Tidy) :
    (g s).Tidy where
  owed := hg.owed s ▸ h.owed
  owedByCode := hg.owedByCode s ▸ h.owedByCode
  unstarted hs := hg.owed s ▸ h.unstarted (hg.started s ▸ hs)

theorem closeItem_nil (hm : s.margins = []) :
    s.closeItem PlainText.sink = { s.popMargin with fresh := false } := by
  simp only [closeItem, writeUnused, hm]

/-- The layouts are in step: one is the other behind a text. -/
structure Behind (p : String) (s a : State String) : Prop where
  steady : a.Steady
  tidy : a.Tidy
  eq : s = a.behind p

namespace Behind

variable {a : State String}

theorem request (h : Behind p s a) (gap : Gap) : Behind p (s.request gap) (a.request gap) where
  steady := (h.steady.request gap).steady
  tidy := by
    have hgap : gap.lines ≤ 2 := by cases gap <;> decide
    unfold State.request
    split
    · rename_i hs
      refine ⟨?_, h.tidy.owedByCode, ?_⟩
      · have howed := h.tidy.owed
        have hcode := h.tidy.owedByCode
        show max a.owed (a.owedByCode + gap.lines) ≤ 2
        omega
      · intro hn
        cases hs.symm.trans hn
    · exact h.tidy
  eq := by rw [h.eq, behind_request h.tidy]

theorem blockStart (h : Behind p s a) : Behind p s.blockStart a.blockStart := by
  have hfresh : s.fresh = a.fresh := by rw [h.eq, fresh_behind]
  have htight : s.tightness = a.tightness := by rw [h.eq, tightness_behind]
  unfold State.blockStart
  rw [hfresh, htight]
  split
  · exact h
  · exact h.request _

theorem silent {g : State String → State String} (h : Behind p s a) (hsteady : (g a).Steady)
    (hg : Silent g) : Behind p (g s) (g a) :=
  ⟨hsteady, hg.tidy h.tidy, by rw [h.eq, hg.behind]⟩

theorem withStyles (h : Behind p s a) (f : List TextStyle → List TextStyle) :
    Behind p { s with styles := f s.styles } { a with styles := f a.styles } :=
  h.silent (g := fun s => { s with styles := f s.styles }) (h.steady.withStyles _)
    ⟨fun _ => rfl, fun _ => rfl, fun _ => rfl, fun _ _ => rfl, fun _ _ => rfl⟩

theorem pushStyle (h : Behind p s a) (change : TextStyle → TextStyle) :
    Behind p (s.pushStyle change) (a.pushStyle change) :=
  h.withStyles fun styles => change (styles.headD {}) :: styles

theorem popStyle (h : Behind p s a) : Behind p s.popStyle a.popStyle := h.withStyles List.tail

theorem writeStyled (h : Behind p s a) (hp : EndsInContent p) {text : String} (ht : Solid text)
    (style : TextStyle) :
    Behind p (s.writeStyled PlainText.sink text style)
      (a.writeStyled PlainText.sink text style) where
  steady := (h.steady.writeStyled text style).steady
  tidy := h.tidy.writeStyled ht style
  eq := by rw [h.eq, behind_writeStyled h.steady h.tidy hp ht]

theorem write (h : Behind p s a) (hp : EndsInContent p) {text : String} (ht : Solid text) :
    Behind p (s.write PlainText.sink text) (a.write PlainText.sink text) := by
  have hstyle : s.style = a.style := by rw [style, style, h.eq, styles_behind]
  rw [State.write, hstyle]
  exact h.writeStyled hp ht a.style

theorem writePushed (h : Behind p s a) (hp : EndsInContent p) (change : TextStyle → TextStyle)
    {text : String} (ht : Solid text) :
    Behind p ((s.pushStyle change).write PlainText.sink text).popStyle
      ((a.pushStyle change).write PlainText.sink text).popStyle :=
  ((h.pushStyle change).write hp ht).popStyle

theorem codeBlock (h : Behind p s a) (hp : EndsInContent p) (mode : ColorMode)
    (language : Option String) {literal : String} (hl : Solid literal) :
    Behind p (s.codeBlock PlainText.sink none mode language literal)
      (a.codeBlock PlainText.sink none mode language literal) := by
  rw [codeBlock_of_solid s mode language hl, codeBlock_of_solid a mode language hl]
  exact h.blockStart.writePushed hp _ hl

/-! ### Hooks that open and close containers -/

theorem withTightness (h : Behind p s a) (f : List Bool → List Bool) :
    Behind p { s with tightness := f s.tightness } { a with tightness := f a.tightness } :=
  h.silent (g := fun s => { s with tightness := f s.tightness }) (h.steady.withTightness _)
    ⟨fun _ => rfl, fun _ => rfl, fun _ => rfl, fun _ _ => rfl, fun _ _ => rfl⟩

theorem openMargin (h : Behind p s a) (howed : a.started = true → 0 < a.owed) {m : Margin}
    (hm : m.Proper) (hu : m.used = false) (fresh : Bool → Bool) (f : List Bool → List Bool) :
    Behind p
      { s with margins := m :: s.margins, fresh := fresh s.fresh, tightness := f s.tightness }
      { a with margins := m :: a.margins, fresh := fresh a.fresh, tightness := f a.tightness } :=
  h.silent (g := fun s =>
      { s with margins := m :: s.margins, fresh := fresh s.fresh, tightness := f s.tightness })
    (h.steady.openMargin howed hm hu _ _)
    ⟨fun _ => rfl, fun _ => rfl, fun _ => rfl, fun _ _ => rfl, fun _ _ => rfl⟩

theorem closeMargin (h : Behind p s a) (f : List Bool → List Bool) :
    Behind p { s with margins := s.margins.tail, fresh := false, tightness := f s.tightness }
      { a with margins := a.margins.tail, fresh := false, tightness := f a.tightness } :=
  h.silent (g := fun s =>
      { s with margins := s.margins.tail, fresh := false, tightness := f s.tightness })
    (h.steady.closeMargin _)
    ⟨fun _ => rfl, fun _ => rfl, fun _ => rfl, fun _ _ => rfl, fun _ _ => rfl⟩

theorem openItem (h : Behind p s a) (marker : Marker) (task : Option Bool) :
    Behind p (s.openItem marker task) (a.openItem marker task) := by
  have hfresh : s.fresh = a.fresh := by rw [h.eq, fresh_behind]
  have htight : s.tightness = a.tightness := by rw [h.eq, tightness_behind]
  unfold State.openItem
  dsimp only
  rw [hfresh, htight]
  split
  · exact h.openMargin (h.steady.fresh · ‹_›) (proper_item marker task) rfl (fun _ => true) id
  · exact (h.request _).openMargin (owed_request a _) (proper_item marker task) rfl
      (fun _ => true) id

/-- The title of a call-out is content. -/
theorem solid_title (alert : Alert) : Solid alert.title :=
  solid_of_notMem (by cases alert <;> decide)

theorem openQuote (h : Behind p s a) (hp : EndsInContent p) (alert : Option Alert) :
    Behind p (s.openQuote PlainText.sink alert) (a.openQuote PlainText.sink alert) := by
  have hopen : Behind p (s.openQuote PlainText.sink none) (a.openQuote PlainText.sink none) :=
    h.blockStart.openMargin h.steady.owed_blockStart proper_quoteMargin rfl id (false :: ·)
  cases alert with
  | none => exact hopen
  | some alert =>
    have htitle :=
      (hopen.writePushed hp ({ · with bold := true }) (solid_title alert)).request .line
    exact htitle.silent (g := fun s => { s with fresh := true }) (h.steady.openQuote (some alert))
      ⟨fun _ => rfl, fun _ => rfl, fun _ => rfl, fun _ _ => rfl, fun _ _ => rfl⟩

theorem openFootnote (h : Behind p s a) (n : Nat) :
    Behind p (s.openFootnote n) (a.openFootnote n) :=
  h.blockStart.openMargin h.steady.owed_blockStart (proper_footnote n) rfl (fun _ => true)
    (false :: ·)

/-- The marker of an empty item is content. -/
theorem closeItem (h : Behind p s a) :
    Behind p (s.closeItem PlainText.sink) (a.closeItem PlainText.sink) := by
  have hmargins : s.margins = a.margins := by rw [h.eq, margins_behind]
  cases hm : a.margins with
  | nil =>
    rw [closeItem_nil hm, closeItem_nil (hmargins.trans hm)]
    exact h.closeMargin id
  | cons m ms =>
    cases hu : m.used with
    | true =>
      rw [closeItem_used hm hu, closeItem_used (hmargins.trans hm) hu]
      exact h.closeMargin id
    | false =>
      have hnext : s.nextMargin = a.nextMargin := by rw [h.eq, nextMargin_behind]
      have htrim := h.steady.endsInContent_trimmedEnd hm hu
      have hline : Behind p
          (s.afterContent (s.lineEnds ++ Text.trimmedEnd a.nextMargin))
          (a.afterContent (a.lineEnds ++ Text.trimmedEnd a.nextMargin)) :=
        ⟨(h.steady.afterContent (htrim.append a.lineEnds)).steady,
          ⟨Nat.zero_le 2, rfl, fun _ => rfl⟩,
          by rw [h.steady.behind_afterContent h.tidy, h.eq]⟩
      rw [closeItem_unused hm hu, closeItem_unused (hmargins.trans hm) hu, hnext]
      exact hline.closeMargin id

theorem closeLoose (h : Behind p s a) : Behind p s.closeLoose a.closeLoose :=
  h.closeMargin List.tail

end Behind

end State

/-! ## Hooks behind a text -/

open State

/-- A leaf without line ends, other than inside of code. -/
def Unbroken : Leaf → Prop
  | .text t | .code t | .image _ _ t => '\n' ∉ t.toList
  | .lineBreak => False
  | .codeBlock _ literal => Solid literal
  | .softBreak | .inlineHtml _ | .footnoteReference _ _ | .rule | .htmlBlock _ | .metadata _ => True

section

variable {p : String} {s a : State String}

theorem behind_leaf (h : Behind p s a) (hp : EndsInContent p) {l : Leaf} (hl : Unbroken l)
    (c : Context) :
    Behind p (leaf PlainText.sink none c l s) (leaf PlainText.sink none c l a) := by
  cases l with
  | text t => exact h.write hp (solid_of_notMem hl)
  | code t => exact h.writePushed hp _ (solid_of_notMem hl)
  | softBreak => exact h.write hp (show Solid " " from solid_of_notMem (by decide))
  | lineBreak => exact hl.elim
  | image source title alt => exact h.write hp (solid_of_notMem hl)
  | footnoteReference label n =>
    have htext : (s!"[{n}]").toList = '[' :: (toString n).toList ++ [']'] := by
      simp only [String.toList_append]
      rfl
    refine h.write hp (solid_of_notMem ?_)
    rw [htext]
    simpa using Text.notMem_toString (c := '\n') (by decide) n
  | codeBlock language literal => exact h.codeBlock hp c.mode language hl
  | rule => exact h.blockStart.write hp (show Solid "---" from solid_of_notMem (by decide))
  | inlineHtml | htmlBlock | metadata => exact h

theorem behind_start (h : Behind p s a) (hp : EndsInContent p) (f : Frame) :
    Behind p (start PlainText.sink f s) (start PlainText.sink f a) := by
  cases f with
  | marked mark => exact h.pushStyle _
  | paragraph tight => exact h.blockStart
  | heading level id => exact h.blockStart.pushStyle _
  | list number tight => exact h.blockStart.withTightness (tight :: ·)
  | item marker task => exact h.openItem marker task
  | quote alert => exact h.openQuote hp alert
  | table t => exact h.blockStart
  | row header =>
    cases header
    · exact h.request .line
    · exact (h.request .line).pushStyle ({ · with bold := true })
  | cell header column alignment =>
    simp only [start]
    split
    · exact h
    · exact h.write hp (show Solid "\t" from solid_of_notMem (by decide))
  | footnote label n => exact h.openFootnote n
  | inlineDirective | directive | command => exact h

theorem behind_finish (h : Behind p s a) (f : Frame) :
    Behind p (finish PlainText.sink f s) (finish PlainText.sink f a) := by
  cases f with
  | marked mark => exact h.popStyle
  | heading level id => exact h.popStyle
  | list number tight => exact h.withTightness List.tail
  | item marker task => exact h.closeItem
  | quote alert => exact h.closeLoose
  | footnote label n => exact h.closeLoose
  | row header =>
    cases header
    · exact h
    · exact h.popStyle
  | paragraph | table | cell | inlineDirective | directive | command => exact h

/-- **Layouts alone and behind a text are in step.** -/
theorem simulation_behind (hp : EndsInContent p) :
    Walk.Simulation plain plain Unbroken (Behind p) where
  leaf hl h := behind_leaf h hp hl _
  space := show '\n' ∉ " ".toList by decide
  start {c f s t} h := by
    simp only [backend]
    cases f.defaultFlow with
    | skip => exact ⟨rfl, h⟩
    | enter => exact ⟨rfl, behind_start h hp f⟩
  finish h := behind_finish h _

theorem related_behind (hp : EndsInContent p) {x : Block} (hx : x.EveryLeaf Unbroken)
    (s t : Walk.State (State String)) (hst : Walk.Related (Behind p) s t) :
    Walk.Related (Behind p) (Walk.block plain x s) (Walk.block plain x t) :=
  (simulation_behind hp).uniform.congruence.block x hx s t hst

end

end RichMarkdown.Layout
