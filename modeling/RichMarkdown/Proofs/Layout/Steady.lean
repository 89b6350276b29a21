import RichMarkdown.Proofs.Layout.Sinks
import RichMarkdown.Proofs.Text.Digits
import RichMarkdown.Proofs.Text.Lines
import RichMarkdown.Proofs.Walk.Outline

/-!
# Layouts of plain text between visits

What is true of a layout of plain text before and after every visit (`State.Steady`): a line is open
from the first content on, a margin that is not used yet waits for a line whose end is owed, and the
text ends in content. Content is written in one of two ways only, as a line or as the margin of an
empty item, and both come to the same (`State.afterContent`).

* `continues_leaf`, `steady_start`, `continues_finish`: every hook keeps a layout steady, and the
  finish of a frame closes what its start has opened.
* `goesOn_outlines`: so every visit leaves a steady layout with the margins, lists and styles that
  were open before.
-/

set_option autoImplicit false

namespace RichMarkdown.Layout

variable {τ : Type}

/-! ## Margins -/

/-- The margin once its first line has been started. -/
def Margin.spent (m : Margin) : Margin := { m with used := true }

/-- A margin that shows on its first line and never leaves a line. -/
structure Margin.Proper (m : Margin) : Prop where
  first : '\n' ∉ m.first.toList
  rest : '\n' ∉ m.rest.toList
  visible : ∃ c ∈ m.first.toList, Text.isBlank c = false

theorem Margin.Proper.spent {m : Margin} (h : m.Proper) : m.spent.Proper := { h with }

theorem Margin.spent_of_used {m : Margin} (h : m.used = true) : m.spent = m := by
  cases m
  cases h
  rfl

theorem map_spent_of_used {ms : List Margin} (h : ∀ m ∈ ms, m.used = true) :
    ms.map Margin.spent = ms := by
  rw [List.map_congr_left fun m hm => Margin.spent_of_used (h m hm), List.map_id']

theorem map_spent_spent (ms : List Margin) :
    (ms.map Margin.spent).map Margin.spent = ms.map Margin.spent :=
  map_spent_of_used fun _ hm => by
    obtain ⟨m, -, rfl⟩ := List.mem_map.mp hm
    rfl

/-- The margin of every line of a quote. -/
def quoteMargin : Margin := ⟨"> ", "> ", false⟩

theorem proper_quoteMargin : quoteMargin.Proper where
  first := by decide
  rest := by decide
  visible := ⟨'>', by decide, rfl⟩

theorem proper_hanging {marker suffix : String} (hm : '\n' ∉ marker.toList)
    (hs : '\n' ∉ suffix.toList) {c : Char} (hc : c ∈ marker.toList) (hb : Text.isBlank c = false) :
    (Margin.hanging marker suffix).Proper where
  first := by simp [Margin.hanging, hm, hs]
  rest := by simp [Margin.hanging]
  visible := ⟨c, by simp [Margin.hanging, hc], hb⟩

theorem proper_item (marker : Marker) (task : Option Bool) :
    (Margin.hanging (State.markerText marker) (State.taskText task)).Proper := by
  have htask : '\n' ∉ (State.taskText task).toList := by
    cases task with
    | none => decide
    | some checked => cases checked <;> decide
  cases marker with
  | bullet => exact proper_hanging (c := '-') (by decide) htask (by decide) rfl
  | number n =>
    have hn : '\n' ∉ (toString n).toList := Text.notMem_toString (by decide) n.toNat
    exact proper_hanging (c := '.') (by simp [State.markerText, hn]) htask
      (by simp [State.markerText]) rfl

theorem proper_footnote (n : Nat) : (Margin.hanging s!"[{n}] " "").Proper := by
  have hmarker : (s!"[{n}] ").toList = '[' :: (toString n).toList ++ [']', ' '] := by
    simp only [String.toList_append]
    rfl
  refine proper_hanging (c := '[') ?_ (by decide) ?_ rfl
  · rw [hmarker]
    simpa using Text.notMem_toString (c := '\n') (by decide) n
  · rw [hmarker]
    simp

/-! ## Content -/

/-- The text does not end at a line end. -/
def EndsInContent (text : String) : Prop := ∃ c ∈ text.toList.getLast?, c ≠ '\n'

theorem EndsInContent.append {text : String} (h : EndsInContent text) (before : String) :
    EndsInContent (before ++ text) := by
  obtain ⟨c, hc, hne⟩ := h
  refine ⟨c, ?_, hne⟩
  rw [String.toList_append, List.getLast?_append, Option.mem_def.mp hc]
  rfl

theorem endsInContent_of_notMem {line : String} (hne : line.isEmpty = false)
    (hl : '\n' ∉ line.toList) : EndsInContent line := by
  have hlist : line.toList ≠ [] := by simpa using hne
  refine ⟨line.toList.getLast hlist, List.getLast?_eq_some_getLast hlist, ?_⟩
  intro h
  exact hl (h ▸ List.getLast_mem hlist)

namespace State

/-- The line ends that are owed as they are written: the first ends the line, and empty lines come
after it. -/
def lineEnds (s : State τ) : String :=
  match s.owed with
  | 0 => ""
  | n + 1 => "\n" ++ String.join (List.replicate n (s.blankMargin ++ "\n"))

/-- Whether the next content starts a line. -/
def startsLine (s : State τ) : Bool := s.atLineStart || 0 < s.owed

/-- What is written before the next content. -/
def lead (s : State τ) : String := s.lineEnds ++ if s.startsLine then s.nextMargin else ""

/-- The layout after content, which is in a line of its own or goes on in the open line. -/
def afterContent (s : State String) (text : String) : State String :=
  { s with
    out := s.out ++ text
    margins := s.margins.map Margin.spent
    owed := 0
    owedByCode := 0
    atLineStart := false
    started := true
    fresh := false }

/-- A layout of plain text before or after a visit. -/
structure Steady (s : State String) : Prop where
  proper : ∀ m ∈ s.margins, m.Proper
  /-- A line is open from the first content on. -/
  lineStart : s.atLineStart = !s.started
  /-- A margin that is not used waits for a line end that is owed. -/
  waiting : s.started = true → s.owed = 0 → ∀ m ∈ s.margins, m.used = true
  /-- So does the block after a marker or a title. -/
  fresh : s.started = true → s.fresh = true → 0 < s.owed
  untouched : s.started = false → s.out = "" ∧ ∀ m ∈ s.margins, m.used = false
  ended : s.started = true → EndsInContent s.out

theorem steady_empty : ({ out := "" } : State String).Steady where
  proper := nofun
  lineStart := rfl
  waiting := nofun
  fresh := nofun
  untouched := fun _ => ⟨rfl, nofun⟩
  ended := nofun

theorem append_plain (s : State String) (text : String) (style : TextStyle) :
    s.append PlainText.sink text style = { s with out := s.out ++ text } := rfl

theorem emptyLines_plain (n : Nat) (s : State String) :
    emptyLines PlainText.sink n s =
      { s with out := s.out ++ String.join (List.replicate n (s.blankMargin ++ "\n")) } := by
  induction n generalizing s with
  | zero => simp [emptyLines]
  | succ n ih =>
    rw [emptyLines, ih, List.replicate_succ, String.join_cons]
    simp only [append_plain, String.append_assoc]
    rfl

theorem flush_plain (s : State String) :
    s.flush PlainText.sink =
      { s with
        out := s.out ++ s.lineEnds
        owed := 0
        owedByCode := 0
        atLineStart := s.startsLine } := by
  simp only [flush, lineEnds, startsLine]
  cases s.owed with
  | zero => simp
  | succ n =>
    dsimp only
    rw [emptyLines_plain]
    simp only [append_plain, String.append_assoc, Nat.zero_lt_succ, decide_true,
      Bool.or_true]
    rfl

/-- An empty margin is written like any other. -/
theorem writeMargin_plain (s : State String) :
    s.writeMargin PlainText.sink = (s.append PlainText.sink s.nextMargin {}).useMargins := by
  unfold writeMargin
  split
  · rename_i hm
    simp [append_plain, String.isEmpty_iff.mp hm]
  · rfl

/-- A layout between visits that does not start a line has used its margins. -/
theorem Steady.map_spent {s : State String} (h : s.Steady) (hs : s.startsLine = false) :
    s.margins.map Margin.spent = s.margins := by
  obtain ⟨hline, howed⟩ : s.atLineStart = false ∧ s.owed = 0 := by
    simpa [startsLine] using hs
  have hstarted : s.started = true := by simpa [h.lineStart] using hline
  exact map_spent_of_used (h.waiting hstarted howed)

theorem writeLine_plain {s : State String} (h : s.Steady) {line : String}
    (hne : line.isEmpty = false) (style : TextStyle) :
    s.writeLine PlainText.sink line style = s.afterContent (s.lead ++ line) := by
  dsimp only [writeLine]
  rw [hne, flush_plain]
  cases hs : s.startsLine with
  | true =>
    simp only [if_true, Bool.false_eq_true, if_false, writeMargin_plain]
    simp only [append_plain, useMargins, lead, hs, if_true, afterContent,
      String.append_assoc]
    rfl
  | false =>
    simp only [append_plain, lead, hs, afterContent, h.map_spent hs]
    simp [String.append_assoc]

/-- Before all content empty lines have no margin. -/
theorem Steady.blankMargin_of_not_started {s : State String} (h : s.Steady)
    (hs : s.started = false) : s.blankMargin = "" := by
  have hnone : s.margins.reverse.filter (·.used) = [] := by
    refine List.filter_eq_nil_iff.mpr ?_
    intro m hm hu
    rw [(h.untouched hs).2 m (List.mem_reverse.mp hm)] at hu
    cases hu
  rw [blankMargin, hnone]
  rfl

theorem toList_lineEnds {s : State τ} {n : Nat} (howed : s.owed = n + 1) :
    s.lineEnds.toList = '\n' :: (List.replicate n (s.blankMargin.toList ++ ['\n'])).flatten := by
  simp [lineEnds, howed, String.toList_join, List.flatMap]

/-- Where empty lines have no margin, line ends are line feeds. -/
theorem toList_lineEnds_of_blank {s : State τ} (h : s.blankMargin = "") :
    s.lineEnds.toList = List.replicate s.owed '\n' := by
  cases howed : s.owed with
  | zero => simp [lineEnds, howed]
  | succ n =>
    rw [toList_lineEnds howed, h, List.replicate_succ]
    simp

/-- A margin that is not used is put into a line, without the blanks at its end. -/
theorem writeUnused_unused {s : State String} {m : Margin} {ms : List Margin}
    (hm : s.margins = m :: ms) (hu : m.used = false) :
    s.writeUnused PlainText.sink =
      { s.afterContent (s.lineEnds ++ Text.trimmedEnd s.nextMargin) with fresh := s.fresh } := by
  have hnext : (s.flush PlainText.sink).nextMargin = s.nextMargin := by
    rw [flush_plain]
    rfl
  simp only [writeUnused, hm, hu, Bool.false_eq_true, if_false, hnext]
  simp only [flush_plain, append_plain, useMargins, afterContent, String.append_assoc]
  rfl

/-- An item that has no content gets the line of its marker. -/
theorem closeItem_unused {s : State String} {m : Margin} {ms : List Margin}
    (hm : s.margins = m :: ms) (hu : m.used = false) :
    s.closeItem PlainText.sink =
      (s.afterContent (s.lineEnds ++ Text.trimmedEnd s.nextMargin)).popMargin := by
  rw [closeItem, writeUnused_unused hm hu]
  rfl

theorem closeItem_used {s : State String} {m : Margin} {ms : List Margin}
    (hm : s.margins = m :: ms) (hu : m.used = true) :
    s.closeItem PlainText.sink = { s.popMargin with fresh := false } := by
  simp only [closeItem, writeUnused, hm, hu, if_true]

/-! ## Going on -/

/-- A steady layout in which the margins, lists and styles are those of another, though their
margins may have been used. -/
structure Continues (s t : State String) : Prop where
  steady : t.Steady
  margins : t.margins.map Margin.spent = s.margins.map Margin.spent
  tightness : t.tightness = s.tightness
  styles : t.styles = s.styles

variable {s t u : State String}

theorem Steady.refl (h : s.Steady) : Continues s s := ⟨h, rfl, rfl, rfl⟩

theorem Continues.trans (h : Continues s t) (h' : Continues t u) : Continues s u :=
  ⟨h'.steady, h'.margins.trans h.margins, h'.tightness.trans h.tightness,
    h'.styles.trans h.styles⟩

theorem Continues.margins_nil (h : Continues s t) (hm : s.margins = []) : t.margins = [] := by
  have hmargins := h.margins
  rw [hm] at hmargins
  exact List.map_eq_nil_iff.mp hmargins

/-- Content leaves no margin unused and no line end owed. -/
theorem Steady.afterContent (h : s.Steady) {text : String} (ht : EndsInContent text) :
    Continues s (s.afterContent text) where
  steady :=
    { proper := by
        intro _ hmem
        obtain ⟨m, hm, rfl⟩ := List.mem_map.mp hmem
        exact (h.proper m hm).spent
      lineStart := rfl
      waiting := by
        intro _ _ _ hmem
        obtain ⟨m, -, rfl⟩ := List.mem_map.mp hmem
        rfl
      fresh := nofun
      untouched := nofun
      ended := fun _ => ht.append s.out }
  margins := map_spent_spent s.margins
  tightness := rfl
  styles := rfl

/-- More line ends may be owed at any time. -/
theorem Steady.owe (h : s.Steady) {n : Nat} (hn : s.owed ≤ n) (m : Nat) :
    Continues s { s with owed := n, owedByCode := m } where
  steady :=
    { proper := h.proper
      lineStart := h.lineStart
      waiting := fun hs hz => h.waiting hs (Nat.le_zero.mp (Nat.le_trans hn (Nat.le_of_eq hz)))
      fresh := fun hs hf => Nat.lt_of_lt_of_le (h.fresh hs hf) hn
      untouched := h.untouched
      ended := h.ended }
  margins := rfl
  tightness := rfl
  styles := rfl

theorem Steady.newline (h : s.Steady) : Continues s s.newline :=
  h.owe (Nat.le_succ s.owed) s.owedByCode

theorem Steady.request (h : s.Steady) (gap : Gap) : Continues s (s.request gap) := by
  unfold State.request
  split
  · exact h.owe (Nat.le_max_left _ _) s.owedByCode
  · exact h.refl

theorem Steady.blockStart (h : s.Steady) : Continues s s.blockStart := by
  unfold State.blockStart
  split
  · exact h.refl
  · exact h.request _

/-- Styles have no part in the layout of plain text. -/
theorem Steady.withStyles (h : s.Steady) (styles : List TextStyle) :
    Steady { s with styles := styles } where
  proper := h.proper
  lineStart := h.lineStart
  waiting := h.waiting
  fresh := h.fresh
  untouched := h.untouched
  ended := h.ended

theorem Steady.withTightness (h : s.Steady) (tightness : List Bool) :
    Steady { s with tightness := tightness } where
  proper := h.proper
  lineStart := h.lineStart
  waiting := h.waiting
  fresh := h.fresh
  untouched := h.untouched
  ended := h.ended

/-! ## Writing -/

theorem Steady.writeLine (h : s.Steady) {line : String} (hl : '\n' ∉ line.toList)
    (style : TextStyle) : Continues s (s.writeLine PlainText.sink line style) := by
  cases hne : line.isEmpty with
  | true =>
    have hsame : s.writeLine PlainText.sink line style = s := by
      simp only [State.writeLine, hne, if_true]
    rw [hsame]
    exact h.refl
  | false =>
    rw [writeLine_plain h hne]
    exact h.afterContent ((endsInContent_of_notMem hne hl).append s.lead)

theorem Steady.writeChar (h : s.Steady) (style : TextStyle) (c : Char) :
    Continues s (State.writeChar PlainText.sink style s c) := by
  unfold State.writeChar
  split
  · exact h.newline
  · rename_i hc
    have hne : c ≠ '\n' := by simpa using hc
    exact h.writeLine (by simpa using hne.symm) style

theorem Steady.writeStyled (h : s.Steady) (text : String) (style : TextStyle) :
    Continues s (s.writeStyled PlainText.sink text style) := by
  rw [writeStyled_eq_foldl joins_plainText]
  generalize text.toList = cs
  induction cs generalizing s with
  | nil => exact h.refl
  | cons c cs ih =>
    have hc := h.writeChar style c
    exact hc.trans (ih hc.steady)

theorem Steady.write (h : s.Steady) (text : String) :
    Continues s (s.write PlainText.sink text) :=
  h.writeStyled text s.style

/-- Text in a style of its own. -/
theorem Steady.writePushed (h : s.Steady) (change : TextStyle → TextStyle) (text : String) :
    Continues s ((s.pushStyle change).write PlainText.sink text).popStyle := by
  have hw := (h.withStyles (change s.style :: s.styles)).write text
  refine ⟨hw.steady.withStyles _, hw.margins, hw.tightness, ?_⟩
  exact congrArg List.tail hw.styles

theorem Steady.codeBlock (h : s.Steady) (mode : ColorMode) (language : Option String)
    (literal : String) : Continues s (s.codeBlock PlainText.sink none mode language literal) := by
  have hw := h.blockStart.trans
    (h.blockStart.steady.writePushed ({ · with monospace := true }) literal)
  simp only [State.codeBlock]
  split
  · exact hw.trans (hw.steady.owe (Nat.le_refl _) _)
  · exact hw

/-! ## Containers -/

theorem owed_request (s : State String) (gap : Gap) (hs : (s.request gap).started = true) :
    0 < (s.request gap).owed := by
  unfold State.request at hs ⊢
  split at hs
  · rw [if_pos ‹_›]
    have hgap : 0 < gap.lines := by cases gap <;> decide
    show 0 < max s.owed (s.owedByCode + gap.lines)
    omega
  · exact absurd hs ‹_›

/-- The line of the next block has not been started. -/
theorem Steady.owed_blockStart (h : s.Steady) (hs : s.blockStart.started = true) :
    0 < s.blockStart.owed := by
  unfold State.blockStart at hs ⊢
  split at hs
  · rw [if_pos ‹_›]
    exact h.fresh hs ‹_›
  · rw [if_neg ‹_›]
    exact owed_request s _ hs

/-- A margin may be opened where no line has been started. -/
theorem Steady.openMargin (h : s.Steady) (howed : s.started = true → 0 < s.owed) {m : Margin}
    (hm : m.Proper) (hu : m.used = false) (fresh : Bool) (tightness : List Bool) :
    Steady { s with margins := m :: s.margins, fresh := fresh, tightness := tightness } where
  proper := List.forall_mem_cons.mpr ⟨hm, h.proper⟩
  lineStart := h.lineStart
  waiting := fun hs hz => absurd hz (Nat.ne_of_gt (howed hs))
  fresh := fun hs _ => howed hs
  untouched := fun hs => ⟨(h.untouched hs).1, List.forall_mem_cons.mpr ⟨hu, (h.untouched hs).2⟩⟩
  ended := h.ended

theorem Steady.closeMargin (h : s.Steady) (tightness : List Bool) :
    Steady { s with margins := s.margins.tail, fresh := false, tightness := tightness } where
  proper := fun m hm => h.proper m (List.mem_of_mem_tail hm)
  lineStart := h.lineStart
  waiting := fun hs hz m hm => h.waiting hs hz m (List.mem_of_mem_tail hm)
  fresh := nofun
  untouched := fun hs =>
    ⟨(h.untouched hs).1, fun m hm => (h.untouched hs).2 m (List.mem_of_mem_tail hm)⟩
  ended := h.ended

theorem Steady.openItem (h : s.Steady) (marker : Marker) (task : Option Bool) :
    (s.openItem marker task).Steady := by
  unfold State.openItem
  dsimp only
  split
  · exact h.openMargin (fun hs => h.fresh hs ‹_›) (proper_item marker task) rfl true _
  · exact (h.request _).steady.openMargin (owed_request s _) (proper_item marker task) rfl true _

theorem Steady.openQuote (h : s.Steady) (alert : Option Alert) :
    (s.openQuote PlainText.sink alert).Steady := by
  have hopen := h.blockStart.steady.openMargin h.owed_blockStart proper_quoteMargin rfl
    s.blockStart.fresh (false :: s.blockStart.tightness)
  cases alert with
  | none => exact hopen
  | some alert =>
    have htitle := hopen.writePushed ({ · with bold := true }) alert.title
    have hgap := htitle.steady.request .line
    refine ⟨hgap.steady.proper, hgap.steady.lineStart, hgap.steady.waiting, ?_,
      hgap.steady.untouched, hgap.steady.ended⟩
    exact fun hs _ => owed_request _ .line hs

theorem Steady.openFootnote (h : s.Steady) (n : Nat) : (s.openFootnote n).Steady :=
  h.blockStart.steady.openMargin h.owed_blockStart (proper_footnote n) rfl true _

/-! ## Closing -/

theorem mem_nextMargin {c : Char} (hc : c ∈ s.nextMargin.toList) :
    ∃ m ∈ s.margins, c ∈ (if m.used then m.rest else m.first).toList := by
  simp only [nextMargin, String.toList_join, List.mem_flatMap, List.mem_map,
    List.mem_reverse] at hc
  obtain ⟨_, ⟨m, hm, rfl⟩, hc⟩ := hc
  exact ⟨m, hm, hc⟩

theorem Steady.notMem_nextMargin (h : s.Steady) : '\n' ∉ s.nextMargin.toList := by
  intro hmem
  obtain ⟨m, hm, hc⟩ := mem_nextMargin hmem
  split at hc
  · exact (h.proper m hm).rest hc
  · exact (h.proper m hm).first hc

/-- The line of an empty item ends in a marker. -/
theorem Steady.exists_trimEnd (h : s.Steady) {m : Margin} {ms : List Margin}
    (hm : s.margins = m :: ms) (hu : m.used = false) :
    ∃ c ∈ (Text.trimEnd s.nextMargin.toList).getLast?, Text.isBlank c = false := by
  obtain ⟨c, hc, hb⟩ := (h.proper m (hm ▸ List.mem_cons_self)).visible
  refine Text.exists_getLast?_trimEnd ?_ hb
  simp [nextMargin, String.toList_join, hm, hu, hc]

theorem Steady.endsInContent_trimmedEnd (h : s.Steady) {m : Margin} {ms : List Margin}
    (hm : s.margins = m :: ms) (hu : m.used = false) :
    EndsInContent (Text.trimmedEnd s.nextMargin) := by
  obtain ⟨c, hc, hb⟩ := h.exists_trimEnd hm hu
  refine ⟨c, by rwa [Text.trimmedEnd, String.toList_ofList], ?_⟩
  rintro rfl
  cases hb

theorem Continues.popStyle {change : TextStyle → TextStyle} (h : Continues s t)
    (hc : Continues (t.pushStyle change) u) : Continues s u.popStyle where
  steady := hc.steady.withStyles _
  margins := hc.margins.trans h.margins
  tightness := hc.tightness.trans h.tightness
  styles := (congrArg List.tail hc.styles).trans h.styles

theorem Continues.closeList {tight : Bool} (h : Continues s t)
    (hc : Continues { t with tightness := tight :: t.tightness } u) :
    Continues s u.closeList where
  steady := hc.steady.withTightness _
  margins := hc.margins.trans h.margins
  tightness := (congrArg List.tail hc.tightness).trans h.tightness
  styles := hc.styles.trans h.styles

/-- The stacks of a layout in which a margin has been opened. -/
structure Opened (s t : State String) (m : Margin) (tightness : List Bool) : Prop where
  margins : t.margins.map Margin.spent = m.spent :: s.margins.map Margin.spent
  tightness : t.tightness = tightness ++ s.tightness
  styles : t.styles = s.styles

theorem Opened.continues {m : Margin} {tightness : List Bool} (h : Opened s t m tightness)
    (hc : Continues t u) : Opened s u m tightness :=
  ⟨hc.margins.trans h.margins, hc.tightness.trans h.tightness, hc.styles.trans h.styles⟩

theorem Opened.exists_cons {m : Margin} {tightness : List Bool} (h : Opened s t m tightness) :
    ∃ m' ms, t.margins = m' :: ms ∧ ms.map Margin.spent = s.margins.map Margin.spent := by
  obtain ⟨m', ms, hm, -, hms⟩ := List.map_eq_cons_iff.mp h.margins
  exact ⟨m', ms, hm, hms⟩

theorem Opened.closeLoose {m : Margin} {loose : Bool} (h : Opened s t m [loose])
    (ht : t.Steady) : Continues s t.closeLoose := by
  obtain ⟨m', ms, hm, hms⟩ := h.exists_cons
  refine ⟨ht.closeMargin t.tightness.tail, ?_, congrArg List.tail h.tightness, h.styles⟩
  exact (congrArg (fun l => (List.tail l).map Margin.spent) hm).trans hms

theorem Opened.closeItem {m : Margin} (h : Opened s t m []) (ht : t.Steady) :
    Continues s (t.closeItem PlainText.sink) := by
  obtain ⟨m', ms, hm, hms⟩ := h.exists_cons
  cases hu : m'.used with
  | true =>
    rw [closeItem_used hm hu]
    refine ⟨ht.closeMargin t.tightness, ?_, h.tightness, h.styles⟩
    exact (congrArg (fun l => (List.tail l).map Margin.spent) hm).trans hms
  | false =>
    rw [closeItem_unused hm hu]
    have hline := ht.afterContent ((ht.endsInContent_trimmedEnd hm hu).append t.lineEnds)
    refine ⟨hline.steady.closeMargin t.tightness, ?_, h.tightness, h.styles⟩
    have htail : (t.margins.map Margin.spent).tail.map Margin.spent =
        (ms.map Margin.spent).map Margin.spent := by
      rw [hm, List.map_cons, List.tail_cons]
    exact htail.trans ((map_spent_spent ms).trans hms)

theorem Steady.opened_item (h : s.Steady) (marker : Marker) (task : Option Bool) :
    Opened s (s.openItem marker task) (.hanging (markerText marker) (taskText task)) [] := by
  unfold State.openItem
  dsimp only
  split
  · exact ⟨rfl, rfl, rfl⟩
  · have hr := h.request (if s.tightness.head? = some false then .blank else .line)
    exact ⟨congrArg (Margin.spent _ :: ·) hr.margins, hr.tightness, hr.styles⟩

theorem Steady.opened_quote (h : s.Steady) (alert : Option Alert) :
    Opened s (s.openQuote PlainText.sink alert) quoteMargin [false] := by
  have hstart := h.blockStart
  have hopen : Opened s { s.blockStart.pushMargin quoteMargin with
      tightness := false :: s.blockStart.tightness } quoteMargin [false] :=
    ⟨congrArg (quoteMargin.spent :: ·) hstart.margins,
      congrArg (false :: ·) hstart.tightness, hstart.styles⟩
  cases alert with
  | none => exact hopen
  | some alert =>
    have hsteady := hstart.steady.openMargin h.owed_blockStart proper_quoteMargin rfl
      s.blockStart.fresh (false :: s.blockStart.tightness)
    have htitle := hsteady.writePushed ({ · with bold := true }) alert.title
    have hall := hopen.continues (htitle.trans (htitle.steady.request .line))
    exact ⟨hall.margins, hall.tightness, hall.styles⟩

theorem Steady.opened_footnote (h : s.Steady) (n : Nat) :
    Opened s (s.openFootnote n) (.hanging s!"[{n}] " "") [false] :=
  ⟨congrArg (Margin.spent _ :: ·) h.blockStart.margins,
    congrArg (false :: ·) h.blockStart.tightness, h.blockStart.styles⟩

end State

/-! ## Hooks -/

open State

variable {s t : State String}

theorem continues_leaf (h : s.Steady) (c : Context) (l : Leaf) :
    Continues s (leaf PlainText.sink none c l s) := by
  cases l with
  | text t => exact h.write t
  | code t => exact h.writePushed _ t
  | softBreak => exact h.write " "
  | lineBreak => exact h.newline
  | image source title alt => exact h.write alt
  | footnoteReference label n => exact h.write _
  | codeBlock language literal => exact h.codeBlock c.mode language literal
  | rule => exact h.blockStart.trans (h.blockStart.steady.write "---")
  | inlineHtml | htmlBlock | metadata => exact h.refl

theorem steady_start (h : s.Steady) (f : Frame) : (start PlainText.sink f s).Steady := by
  cases f with
  | marked mark => exact h.withStyles _
  | paragraph tight => exact h.blockStart.steady
  | heading level id => exact h.blockStart.steady.withStyles _
  | list number tight => exact h.blockStart.steady.withTightness _
  | item marker task => exact h.openItem marker task
  | quote alert => exact h.openQuote alert
  | table t => exact h.blockStart.steady
  | row header =>
    have hr := (h.request .line).steady
    cases header
    · exact hr
    · exact hr.withStyles _
  | cell header column alignment =>
    simp only [start]
    split
    · exact h
    · exact (h.write "\t").steady
  | footnote label n => exact h.openFootnote n
  | inlineDirective | directive | command => exact h

/-- **A frame closes what it opens**: after its finish the layout goes on from where it was before
its start. -/
theorem continues_finish (h : s.Steady) {f : Frame}
    (hc : Continues (start PlainText.sink f s) t) : Continues s (finish PlainText.sink f t) := by
  cases f with
  | marked mark => exact h.refl.popStyle hc
  | paragraph tight => exact h.blockStart.trans hc
  | heading level id => exact h.blockStart.popStyle hc
  | list number tight => exact h.blockStart.closeList hc
  | item marker task => exact ((h.opened_item marker task).continues hc).closeItem hc.steady
  | quote alert => exact ((h.opened_quote alert).continues hc).closeLoose hc.steady
  | table t => exact h.blockStart.trans hc
  | row header =>
    cases header
    · exact (h.request .line).trans hc
    · have hpushed : Continues ((s.request .line).pushStyle ({ · with bold := true })) t := hc
      exact (h.request .line).popStyle hpushed
  | cell header column alignment =>
    simp only [start] at hc
    split at hc
    · exact hc
    · exact (h.write "\t").trans hc
  | footnote label n => exact ((h.opened_footnote n).continues hc).closeLoose hc.steady
  | inlineDirective | directive | command => exact hc

/-! ## Visits -/

/-- What a visit of plain text does to a walk under way. -/
abbrev Visit : Type := Walk.State (State String) → Walk.State (State String)

/-- The backend of plain text. -/
abbrev plain : Backend (State String) := backend PlainText.sink none

/-- The layout goes on from where it was before the visit. -/
def GoesOn (v : Visit) : Prop := ∀ s, s.out.Steady → Continues s.out (v s).out

theorem GoesOn.framed {v : Visit} (hv : GoesOn v) (f : Frame) :
    GoesOn (Walk.framed plain f v) := by
  intro s hs
  cases hflow : f.defaultFlow with
  | skip =>
    simp only [Walk.framed, backend, hflow]
    exact hs.refl
  | enter =>
    simp only [Walk.framed, backend, hflow]
    exact continues_finish hs (hv ⟨s.context, start PlainText.sink f s.out⟩ (steady_start hs f))

theorem GoesOn.insideOf {v : Visit} (hv : GoesOn v) (container : Option Container) :
    GoesOn (Walk.insideOf container v) := by
  cases container with
  | none => exact hv
  | some c => exact fun s hs => hv { s with context := s.context.push c } hs

mutual

theorem goesOn_outline : ∀ o : Outline, GoesOn (Walk.outline plain o)
  | .leaf l => fun s hs => continues_leaf hs s.context l
  | .reference label => fun s hs =>
    continues_leaf hs (s.context.footnoteNumber label).2
      (.footnoteReference label (s.context.footnoteNumber label).1)
  | .node n inside => fun s hs =>
    ((goesOn_outlines inside).insideOf n.container?).framed (n.frame s.context)
      { s with context := n.noted s.context } hs

/-- **Every visit closes what it opens** and leaves the layout steady. -/
theorem goesOn_outlines : ∀ os : List Outline, GoesOn (Walk.outlines plain os)
  | [] => fun _ hs => hs.refl
  | o :: os => fun s hs =>
    (goesOn_outline o s hs).trans (goesOn_outlines os _ (goesOn_outline o s hs).steady)

end

end RichMarkdown.Layout
