import RichMarkdown.Proofs.Document.Contexts
import RichMarkdown.Proofs.Layout.Steady

/-!
# Quotes in plain text

A quote has its mark on every line. The layout of a document and its layout inside a quote are
always in step (`State.quote`): the quote has one more margin under all others, and has written the
same lines, each with its mark (`quoteContent`). The exception are line ends before all content.
Their lines are empty and the quote has not been started yet, so they are written without a mark.

* `renderIn_quote`: what a quote makes of the plain text of its blocks, and that every line has the
  mark exactly when the text does not begin with an empty line.
-/

set_option autoImplicit false

namespace RichMarkdown.Layout

/-! ## Quoted text -/

/-- A line inside a quote. The mark of an empty line has no blank behind it. -/
def quoteLine (line : List Char) : List Char :=
  if line = ['\n'] then ['>', '\n'] else '>' :: ' ' :: line

/-- A text inside a quote: each of its lines has the mark. -/
def quoteText (text : List Char) : List Char := (Text.lines text).flatMap quoteLine

/-- A text inside a quote as layouts write it: line ends before all content stay as they are. -/
def quoteContent (text : List Char) : List Char :=
  text.takeWhile (· == '\n') ++ quoteText (text.dropWhile (· == '\n'))

/-- The margin of an empty line inside a quote. -/
def quoteBlank (margin : List Char) : List Char :=
  if margin = [] then ['>'] else '>' :: ' ' :: margin

theorem quoteText_append {f : List Char} (hf : ∀ c ∈ f.getLast?, c = '\n') (x : List Char) :
    quoteText (f ++ x) = quoteText f ++ quoteText x := by
  rw [quoteText, Text.lines_append_of_closed hf, List.flatMap_append, quoteText, quoteText]

theorem quoteText_line {l : List Char} (hne : l ≠ []) (hl : '\n' ∉ l) :
    quoteText l = '>' :: ' ' :: l := by
  have hfeed : l ≠ ['\n'] := by
    rintro rfl
    exact hl List.mem_cons_self
  rw [quoteText, Text.lines_of_notMem hne hl, List.flatMap_singleton, quoteLine, if_neg hfeed]

theorem quoteText_feed {l : List Char} (hl : '\n' ∉ l) (x : List Char) :
    quoteText (l ++ '\n' :: x) = quoteBlank l ++ '\n' :: quoteText x := by
  have hlines := Text.lines_append hl x
  rw [List.append_assoc, List.singleton_append] at hlines
  rw [quoteText, hlines, List.flatMap_cons, quoteLine, quoteBlank]
  cases l with
  | nil => rfl
  | cons c l => simp [quoteText]

/-- Empty lines, each with a margin, before a line. -/
theorem quoteText_emptyLines {b l : List Char} (hb : '\n' ∉ b) (hne : l ≠ []) (hl : '\n' ∉ l)
    (n : Nat) :
    quoteText ((List.replicate n (b ++ ['\n'])).flatten ++ l) =
      (List.replicate n (quoteBlank b ++ ['\n'])).flatten ++ '>' :: ' ' :: l := by
  induction n with
  | zero => exact quoteText_line hne hl
  | succ n ih =>
    simp only [List.replicate_succ, List.flatten_cons, List.append_assoc, List.cons_append,
      List.nil_append] at ih ⊢
    rw [quoteText_feed hb, ih]

theorem quoteContent_feeds {x : List Char} (hx : x.head? ≠ some '\n') (n : Nat) :
    quoteContent (List.replicate n '\n' ++ x) = List.replicate n '\n' ++ quoteText x := by
  have hfeeds : ∀ c ∈ List.replicate n '\n', (c == '\n') = true := by
    intro c hc
    rw [List.eq_of_mem_replicate hc]
    rfl
  have hnone : x.takeWhile (· == '\n') = [] ∧ x.dropWhile (· == '\n') = x := by
    cases x with
    | nil => exact ⟨rfl, rfl⟩
    | cons c x =>
      have hc : (c == '\n') = false := by simpa using hx
      rw [List.takeWhile_cons, List.dropWhile_cons, hc]
      exact ⟨rfl, rfl⟩
  rw [quoteContent, List.takeWhile_append_of_pos hfeeds, List.dropWhile_append_of_pos hfeeds,
    hnone.1, hnone.2, List.append_nil]

/-- A text is lines that are closed and a line that is open, perhaps without content. -/
theorem exists_lastLine (r : List Char) :
    ∃ f l, r = f ++ l ∧ (∀ c ∈ f.getLast?, c = '\n') ∧ '\n' ∉ l := by
  refine ⟨r.rdropWhile (· ≠ '\n'), r.rtakeWhile (· ≠ '\n'),
    List.rdropWhile_append_rtakeWhile.symm, ?_, ?_⟩
  · intro c hc
    have hf : r.rdropWhile (· ≠ '\n') ≠ [] := by
      intro hnil
      rw [hnil] at hc
      cases hc
    have hlast := List.rdropWhile_last_not (· ≠ '\n') r hf
    rw [List.getLast?_eq_some_getLast hf, Option.mem_some_iff] at hc
    rw [hc] at hlast
    simpa using hlast
  · intro hmem
    simpa using List.mem_rtakeWhile_imp hmem

/-- A text that ends in content is empty lines, then lines that are closed, then an open line. -/
theorem exists_openLine {a : List Char} (ha : ∃ c ∈ a.getLast?, c ≠ '\n') :
    ∃ n f l, a = List.replicate n '\n' ++ (f ++ l) ∧ (f ++ l).head? ≠ some '\n' ∧
      (∀ c ∈ f.getLast?, c = '\n') ∧ l ≠ [] ∧ '\n' ∉ l := by
  obtain ⟨last, hlast, hne⟩ := ha
  have hfeeds : a.takeWhile (· == '\n') =
      List.replicate (a.takeWhile (· == '\n')).length '\n' :=
    List.eq_replicate_of_mem fun c hc => by simpa using List.mem_takeWhile_imp hc
  obtain ⟨f, l, hr, hf, hl⟩ := exists_lastLine (a.dropWhile (· == '\n'))
  have ha : a = List.replicate (a.takeWhile (· == '\n')).length '\n' ++ (f ++ l) := by
    rw [← hfeeds, ← hr, List.takeWhile_append_dropWhile]
  refine ⟨_, f, l, ha, ?_, hf, ?_, hl⟩
  · intro hhead
    have hnot := List.head?_dropWhile_not (· == '\n') a
    rw [hr, hhead] at hnot
    exact absurd hnot (by decide)
  · -- otherwise the text ends in a line end
    rintro rfl
    rw [ha, List.append_nil, List.getLast?_append] at hlast
    cases hfl : f.getLast? with
    | none =>
      rw [hfl, Option.none_or] at hlast
      exact hne (List.eq_of_mem_replicate (List.mem_of_getLast? hlast))
    | some d =>
      rw [hfl, Option.some_or, Option.mem_some_iff] at hlast
      exact hne (hlast ▸ hf d hfl)

/-- Content is added to the open line of a quoted text, and a line end closes it. -/
theorem exists_quoteContent {a : List Char} (ha : ∃ c ∈ a.getLast?, c ≠ '\n') :
    ∃ q l, l ≠ [] ∧ '\n' ∉ l ∧ (∀ x, '\n' ∉ x → quoteContent (a ++ x) = q ++ (l ++ x)) ∧
      ∀ x, quoteContent (a ++ '\n' :: x) = q ++ (l ++ '\n' :: quoteText x) := by
  obtain ⟨n, f, l, rfl, hhead, hf, hne, hl⟩ := exists_openLine ha
  have hhead' (x : List Char) : (f ++ (l ++ x)).head? ≠ some '\n' := by
    have hfl : f ++ l ≠ [] := List.append_ne_nil_of_right_ne_nil f hne
    rw [← List.append_assoc, List.head?_append_of_ne_nil _ hfl]
    exact hhead
  have hquote (x : List Char) : quoteContent (List.replicate n '\n' ++ (f ++ l) ++ x) =
      List.replicate n '\n' ++ (quoteText f ++ quoteText (l ++ x)) := by
    rw [List.append_assoc, List.append_assoc, quoteContent_feeds (hhead' x), quoteText_append hf]
  refine ⟨List.replicate n '\n' ++ (quoteText f ++ ['>', ' ']), l, hne, hl, ?_, ?_⟩
  · intro x hx
    have hlx : '\n' ∉ l ++ x := by simp [hl, hx]
    rw [hquote, quoteText_line (List.append_ne_nil_of_left_ne_nil hne x) hlx]
    simp
  · intro x
    rw [hquote, quoteText_feed hl, quoteBlank, if_neg hne]
    simp

/-! ## Layouts inside a quote -/

namespace State

/-- The layout inside a quote around everything. -/
def quote (s : State String) : State String :=
  { s with
    out := String.ofList (quoteContent s.out.toList)
    margins := s.margins ++ [⟨"> ", "> ", s.started⟩]
    tightness := s.tightness ++ [false] }

variable {s t : State String}

theorem Steady.notMem_blankMargin (h : s.Steady) : '\n' ∉ s.blankMargin.toList := by
  intro hmem
  rw [blankMargin, Text.trimmedEnd, String.toList_ofList] at hmem
  have hjoin := Text.mem_of_mem_trimEnd hmem
  simp only [String.toList_join, List.mem_flatMap, List.mem_map, List.mem_filter,
    List.mem_reverse] at hjoin
  obtain ⟨_, ⟨m, ⟨hm, -⟩, rfl⟩, hc⟩ := hjoin
  exact (h.proper m hm).rest hc

theorem nextMargin_quote (s : State String) : s.quote.nextMargin = "> " ++ s.nextMargin := by
  simp [nextMargin, quote, String.join_cons]

/-- A text behind the mark of a quote, without the blanks at its end. -/
theorem trimEnd_mark (r : List Char) :
    Text.trimEnd ('>' :: ' ' :: r) = quoteBlank (Text.trimEnd r) := by
  have hmark := Text.trimEnd_append ['>', ' '] r
  rw [List.cons_append, List.cons_append, List.nil_append] at hmark
  rw [hmark, quoteBlank]
  cases Text.trimEnd r <;> rfl

theorem blankMargin_quote (hs : s.started = true) :
    s.quote.blankMargin.toList = quoteBlank s.blankMargin.toList := by
  have hjoin : String.join ((s.quote.margins.reverse.filter (·.used)).map (·.rest)) =
      "> " ++ String.join ((s.margins.reverse.filter (·.used)).map (·.rest)) := by
    simp [quote, hs, String.join_cons]
  rw [blankMargin, blankMargin, hjoin, Text.trimmedEnd, Text.trimmedEnd, String.toList_ofList,
    String.toList_ofList, String.toList_append]
  exact trimEnd_mark _

theorem Steady.quote (h : s.Steady) : s.quote.Steady where
  proper := by
    intro m hm
    rcases List.mem_append.mp hm with hm | hm
    · exact h.proper m hm
    · obtain rfl := List.mem_singleton.mp hm
      exact { proper_quoteMargin with }
  lineStart := h.lineStart
  waiting := by
    intro hs howed m hm
    rcases List.mem_append.mp hm with hm | hm
    · exact h.waiting hs howed m hm
    · obtain rfl := List.mem_singleton.mp hm
      exact hs
  fresh := h.fresh
  untouched := by
    intro hs
    refine ⟨?_, ?_⟩
    · rw [State.quote, (h.untouched hs).1]
      rfl
    · intro m hm
      rcases List.mem_append.mp hm with hm | hm
      · exact (h.untouched hs).2 m hm
      · obtain rfl := List.mem_singleton.mp hm
        exact hs
  ended := by
    intro hs
    obtain ⟨q, l, hne, hl, hquote, -⟩ := exists_quoteContent (h.ended hs)
    have hout : s.quote.out.toList = q ++ l := by
      simpa [State.quote] using hquote [] List.not_mem_nil
    refine ⟨l.getLast hne, ?_, ?_⟩
    · rw [hout, List.getLast?_append, List.getLast?_eq_some_getLast hne]
      rfl
    · intro hlast
      exact hl (hlast ▸ List.getLast_mem hne)

/-! ### Content -/

/-- A line after line ends that are owed, or the first line of all, has the mark of the quote. -/
theorem Steady.quoteContent_line (h : s.Steady) (hs : s.startsLine = true) {l : List Char}
    (hne : l ≠ []) (hl : '\n' ∉ l) :
    quoteContent (s.out.toList ++ (s.lineEnds.toList ++ l)) =
      quoteContent s.out.toList ++ (s.quote.lineEnds.toList ++ '>' :: ' ' :: l) := by
  cases hstarted : s.started with
  | false =>
    -- there is no content yet, so the empty lines have no mark
    have hhead : l.head? ≠ some '\n' := fun hc => hl (List.mem_of_head? hc)
    rw [(h.untouched hstarted).1, toList_lineEnds_of_blank (h.blankMargin_of_not_started hstarted),
      toList_lineEnds_of_blank (h.quote.blankMargin_of_not_started hstarted)]
    exact (quoteContent_feeds hhead s.owed).trans (congrArg _ (quoteText_line hne hl))
  | true =>
    -- a line is open, so a line end is owed
    obtain ⟨n, howed⟩ : ∃ n, s.owed = n + 1 := by
      refine Nat.exists_eq_succ_of_ne_zero ?_
      intro hzero
      simp [startsLine, h.lineStart, hstarted, hzero] at hs
    obtain ⟨q, last, -, -, hsame, hnext⟩ := exists_quoteContent (h.ended hstarted)
    have hout : quoteContent s.out.toList = q ++ last := by
      simpa using hsame [] List.not_mem_nil
    rw [toList_lineEnds howed, toList_lineEnds (s := s.quote) howed, blankMargin_quote hstarted,
      List.cons_append, List.cons_append, hnext, hout,
      quoteText_emptyLines h.notMem_blankMargin hne hl]
    simp

/-- Content in the open line stays in it. -/
theorem Steady.quoteContent_inLine (h : s.Steady) (hs : s.startsLine = false) {l : List Char}
    (hl : '\n' ∉ l) : quoteContent (s.out.toList ++ l) = quoteContent s.out.toList ++ l := by
  obtain ⟨hline, -⟩ : s.atLineStart = false ∧ s.owed = 0 := by simpa [startsLine] using hs
  have hstarted : s.started = true := by simpa [h.lineStart] using hline
  obtain ⟨q, last, -, -, hsame, -⟩ := exists_quoteContent (h.ended hstarted)
  have hout : quoteContent s.out.toList = q ++ last := by
    simpa using hsame [] List.not_mem_nil
  rw [hsame l hl, hout, List.append_assoc]

theorem quote_afterContent {text marked : String}
    (ht : quoteContent (s.out.toList ++ text.toList) = quoteContent s.out.toList ++ marked.toList) :
    (s.afterContent text).quote = s.quote.afterContent marked := by
  simp only [quote, afterContent, String.toList_append, ht, String.ofList_append,
    String.ofList_toList, List.map_append]
  rfl

theorem quote_writeLine (h : s.Steady) {line : String} (hl : '\n' ∉ line.toList)
    (style : TextStyle) :
    (s.writeLine PlainText.sink line style).quote =
      s.quote.writeLine PlainText.sink line style := by
  cases hne : line.isEmpty with
  | true => simp only [State.writeLine, hne, if_true]
  | false =>
    have hline : line.toList ≠ [] := by simpa using hne
    have hstart : s.quote.startsLine = s.startsLine := rfl
    rw [writeLine_plain h hne, writeLine_plain h.quote hne]
    refine quote_afterContent ?_
    simp only [lead, hstart, nextMargin_quote, String.toList_append]
    cases hs : s.startsLine with
    | true =>
      have hmargin : s.nextMargin.toList ++ line.toList ≠ [] :=
        List.append_ne_nil_of_right_ne_nil _ hline
      have hfeed : '\n' ∉ s.nextMargin.toList ++ line.toList := by
        simp [h.notMem_nextMargin, hl]
      simpa using h.quoteContent_line hs hmargin hfeed
    | false =>
      have hends : s.lineEnds = "" ∧ s.quote.lineEnds = "" := by
        obtain ⟨-, howed⟩ : s.atLineStart = false ∧ s.owed = 0 := by simpa [startsLine] using hs
        simp [lineEnds, quote, howed]
      simpa [hends.1, hends.2] using h.quoteContent_inLine hs hl

theorem quote_writeStyled (h : s.Steady) (text : String) (style : TextStyle) :
    (s.writeStyled PlainText.sink text style).quote =
      s.quote.writeStyled PlainText.sink text style := by
  rw [writeStyled_eq_foldl joins_plainText, writeStyled_eq_foldl joins_plainText]
  generalize text.toList = cs
  induction cs generalizing s with
  | nil => rfl
  | cons c cs ih =>
    have hchar : (writeChar PlainText.sink style s c).quote =
        writeChar PlainText.sink style s.quote c := by
      unfold writeChar
      split
      · rfl
      · rename_i hc
        have hne : c ≠ '\n' := by simpa using hc
        exact quote_writeLine h (by simpa using hne.symm) style
    rw [List.foldl_cons, List.foldl_cons, ih (h.writeChar style c).steady, hchar]

theorem quote_write (h : s.Steady) (text : String) :
    (s.write PlainText.sink text).quote = s.quote.write PlainText.sink text :=
  quote_writeStyled h text s.style

theorem quote_writePushed (h : s.Steady) (change : TextStyle → TextStyle) (text : String) :
    ((s.pushStyle change).write PlainText.sink text).popStyle.quote =
      ((s.quote.pushStyle change).write PlainText.sink text).popStyle :=
  congrArg popStyle (quote_write (h.withStyles (change s.style :: s.styles)) text)

/-! ### Gaps -/

theorem quote_request (s : State String) (gap : Gap) :
    (s.request gap).quote = s.quote.request gap := by
  unfold request
  have hs : s.quote.started = s.started := rfl
  rw [hs]
  split <;> rfl

theorem quote_blockStart (s : State String) : s.blockStart.quote = s.quote.blockStart := by
  unfold blockStart
  have hf : s.quote.fresh = s.fresh := rfl
  have ht : s.quote.tightness.head? = some true ↔ s.tightness.head? = some true := by
    rw [quote]
    cases s.tightness <;> simp
  simp only [hf, ht]
  split
  · rfl
  · exact quote_request s _

theorem quote_codeBlock (h : s.Steady) (mode mode' : ColorMode) (language : Option String)
    (literal : String) :
    (s.codeBlock PlainText.sink none mode language literal).quote =
      s.quote.codeBlock PlainText.sink none mode' language literal := by
  have hw := quote_writePushed h.blockStart.steady ({ · with monospace := true }) literal
  rw [quote_blockStart] at hw
  simp only [codeBlock, writeCode]
  split
  · exact congrArg (fun t : State String => { t with owedByCode := t.owed }) hw
  · exact hw

/-! ### Containers -/

/-- An item is in a list, so the quote is not the container that says how far items are apart. -/
theorem quote_openItem (hs : s.tightness ≠ []) (marker : Marker) (task : Option Bool) :
    (s.openItem marker task).quote = s.quote.openItem marker task := by
  have ht : s.quote.tightness.head? = s.tightness.head? := by
    rw [quote, List.head?_append_of_ne_nil _ hs]
  have hf : s.quote.fresh = s.fresh := rfl
  simp only [openItem, ht, hf]
  split
  · rfl
  · rw [← quote_request]
    rfl

theorem quote_openQuote (h : s.Steady) (alert : Option Alert) :
    (s.openQuote PlainText.sink alert).quote = s.quote.openQuote PlainText.sink alert := by
  have hopen : (s.openQuote PlainText.sink none).quote = s.quote.openQuote PlainText.sink none := by
    simp only [openQuote]
    rw [← quote_blockStart]
    rfl
  cases alert with
  | none => exact hopen
  | some alert =>
    have htitle := quote_writePushed (h.openQuote none) ({ · with bold := true }) alert.title
    rw [hopen] at htitle
    have hgap := quote_request (((s.openQuote PlainText.sink none).pushStyle
      ({ · with bold := true })).write PlainText.sink alert.title).popStyle .line
    rw [htitle] at hgap
    exact congrArg (fun t : State String => { t with fresh := true }) hgap

theorem quote_openFootnote (s : State String) (n : Nat) :
    (s.openFootnote n).quote = s.quote.openFootnote n := by
  unfold openFootnote
  rw [← quote_blockStart]
  rfl

theorem quote_popMargin (hs : s.margins ≠ []) : s.popMargin.quote = s.quote.popMargin := by
  simp only [quote, popMargin, List.tail_append_of_ne_nil hs]

theorem quote_closeList (hs : s.tightness ≠ []) : s.closeList.quote = s.quote.closeList := by
  simp only [quote, closeList, List.tail_append_of_ne_nil hs]

theorem quote_closeLoose (hm : s.margins ≠ []) (ht : s.tightness ≠ []) :
    s.closeLoose.quote = s.quote.closeLoose := by
  simp only [quote, closeLoose, popMargin, List.tail_append_of_ne_nil hm,
    List.tail_append_of_ne_nil ht]

/-- An unused margin is of a line that has not been started. -/
theorem Steady.startsLine_of_unused (h : s.Steady) {m : Margin} (hm : m ∈ s.margins)
    (hu : m.used = false) : s.startsLine = true := by
  by_contra hs
  have hsame : s.margins.map Margin.spent = s.margins := h.map_spent (by simpa using hs)
  obtain ⟨m', -, rfl⟩ := List.mem_map.mp (hsame ▸ hm)
  cases hu

theorem quote_closeItem (h : s.Steady) {m : Margin} {ms : List Margin} (hm : s.margins = m :: ms) :
    (s.closeItem PlainText.sink).quote = s.quote.closeItem PlainText.sink := by
  have hquote : s.quote.margins = m :: (ms ++ [⟨"> ", "> ", s.started⟩]) := by
    rw [quote, hm]
    rfl
  cases hu : m.used with
  | true =>
    have hpop : s.popMargin.quote = s.quote.popMargin := quote_popMargin (by simp [hm])
    rw [closeItem_used hm hu, closeItem_used hquote hu]
    exact congrArg (fun t : State String => { t with fresh := false }) hpop
  | false =>
    rw [closeItem_unused hm hu, closeItem_unused hquote hu,
      quote_popMargin (by simp [afterContent, hm])]
    refine congrArg popMargin (quote_afterContent ?_)
    -- the marker shows, so the mark of the quote keeps its blank
    obtain ⟨c, hc, -⟩ := h.exists_trimEnd hm hu
    have hne : Text.trimEnd s.nextMargin.toList ≠ [] := by
      intro hnil
      rw [hnil] at hc
      cases hc
    have hfeed : '\n' ∉ Text.trimEnd s.nextMargin.toList :=
      fun hmem => h.notMem_nextMargin (Text.mem_of_mem_trimEnd hmem)
    have hmark : (Text.trimmedEnd s.quote.nextMargin).toList =
        '>' :: ' ' :: Text.trimEnd s.nextMargin.toList := by
      rw [Text.trimmedEnd, String.toList_ofList, nextMargin_quote, String.toList_append]
      exact (trimEnd_mark _).trans (if_neg hne)
    have hstart : s.startsLine = true := h.startsLine_of_unused (hm ▸ List.mem_cons_self) hu
    have hline := h.quoteContent_line hstart hne hfeed
    rw [String.toList_append, String.toList_append, hmark, Text.trimmedEnd, String.toList_ofList]
    exact hline

end State

/-! ## Hooks inside a quote -/

open State

variable {s t : State String}

/-- Plain text does not ask the context anything. -/
theorem quote_leaf (h : s.Steady) (c c' : Context) (l : Leaf) :
    (leaf PlainText.sink none c l s).quote = leaf PlainText.sink none c' l s.quote := by
  cases l with
  | text t => exact quote_write h t
  | code t => exact quote_writePushed h _ t
  | softBreak => exact quote_write h " "
  | lineBreak => rfl
  | image source title alt => exact quote_write h alt
  | footnoteReference label n => exact quote_write h _
  | codeBlock language literal => exact quote_codeBlock h c.mode c'.mode language literal
  | rule =>
    have hrule := quote_write h.blockStart.steady "---"
    rw [quote_blockStart] at hrule
    exact hrule
  | inlineHtml | htmlBlock | metadata => rfl

/-- Whether a frame is an item of a list. -/
def isItem : Frame → Bool
  | .item _ _ => true
  | _ => false

theorem quote_start (h : s.Steady) {f : Frame} (hf : isItem f = true → s.tightness ≠ []) :
    (start PlainText.sink f s).quote = start PlainText.sink f s.quote := by
  cases f with
  | marked mark => rfl
  | paragraph tight => exact quote_blockStart s
  | heading level id => exact congrArg (·.pushStyle (headingStyle level)) (quote_blockStart s)
  | list number tight =>
    exact congrArg (fun t : State String => { t with tightness := tight :: t.tightness })
      (quote_blockStart s)
  | item marker task => exact quote_openItem (hf rfl) marker task
  | quote alert => exact quote_openQuote h alert
  | table t => exact quote_blockStart s
  | row header =>
    have hr := quote_request s .line
    cases header
    · exact hr
    · exact congrArg (·.pushStyle ({ · with bold := true })) hr
  | cell header column alignment =>
    simp only [start]
    split
    · rfl
    · exact quote_write h "\t"
  | footnote label n => exact quote_openFootnote s n
  | inlineDirective | directive | command => rfl

theorem quote_finish (h : s.Steady) {f : Frame} (hc : Continues (start PlainText.sink f s) t) :
    (finish PlainText.sink f t).quote = finish PlainText.sink f t.quote := by
  cases f with
  | marked mark => rfl
  | list number tight =>
    refine quote_closeList ?_
    intro hnil
    exact absurd (hc.tightness.symm.trans hnil) (List.cons_ne_nil _ _)
  | item marker task =>
    obtain ⟨m, ms, hm, -⟩ := ((h.opened_item marker task).continues hc).exists_cons
    exact quote_closeItem hc.steady hm
  | quote alert =>
    have hopened := (h.opened_quote alert).continues hc
    obtain ⟨m, ms, hm, -⟩ := hopened.exists_cons
    exact quote_closeLoose (by simp [hm]) (by simp [hopened.tightness])
  | footnote label n =>
    have hopened := (h.opened_footnote n).continues hc
    obtain ⟨m, ms, hm, -⟩ := hopened.exists_cons
    exact quote_closeLoose (by simp [hm]) (by simp [hopened.tightness])
  | row header => cases header <;> rfl
  | _ => rfl

/-! ## Walks inside a quote -/

/-- The second walk is where the first one is, inside one more quote. -/
structure InQuote (s t : Walk.State (State String)) : Prop where
  out : t.out = s.out.quote
  context : ∃ ks, t.context = { s.context with containers := ks }

/-- The visit keeps a walk inside a quote in step, in a list if it is a visit of its items. -/
def KeepsStep (listed : Bool) (v : Visit) : Prop :=
  ∀ s t, s.out.Steady → (listed = true → s.out.tightness ≠ []) → InQuote s t → InQuote (v s) (v t)

/-- The frame without what layouts do not ask for. -/
def withoutTightness : Frame → Frame
  | .paragraph _ => .paragraph false
  | f => f

theorem framed_withoutTightness (f : Frame) (v : Visit) :
    Walk.framed plain (withoutTightness f) v = Walk.framed plain f v := by
  cases f <;> rfl

theorem frame_containers (n : Node) (c : Context) (ks : List Container) :
    withoutTightness (n.frame { c with containers := ks }) = withoutTightness (n.frame c) := by
  cases n with
  | heading level text =>
    exact congrArg (fun r => Frame.heading level r.1) (c.registerHeading_containers ks level text)
  | footnote label =>
    exact congrArg (fun r => Frame.footnote label r.1) (c.footnoteNumber_containers ks label)
  | _ => rfl

theorem noted_containers (n : Node) (c : Context) (ks : List Container) :
    n.noted { c with containers := ks } = { n.noted c with containers := ks } := by
  cases n with
  | heading level text => exact congrArg Prod.snd (c.registerHeading_containers ks level text)
  | footnote label => exact congrArg Prod.snd (c.footnoteNumber_containers ks label)
  | _ => rfl

theorem KeepsStep.insideOf {listed : Bool} {v : Visit} (hv : KeepsStep listed v)
    (container : Option Container) : KeepsStep listed (Walk.insideOf container v) := by
  cases container with
  | none => exact hv
  | some k =>
    intro s t hs hl hst
    obtain ⟨ks, hks⟩ := hst.context
    have hpushed : InQuote { s with context := s.context.push k }
        { t with context := t.context.push k } := by
      refine ⟨hst.out, k :: ks, ?_⟩
      rw [hks]
      rfl
    obtain ⟨hout, ks', hks'⟩ := hv { s with context := s.context.push k }
      { t with context := t.context.push k } hs hl hpushed
    refine ⟨hout, ks'.tail, ?_⟩
    exact congrArg Context.pop hks'

theorem KeepsStep.framed {listed inList : Bool} {v : Visit} (hv : KeepsStep inList v)
    (hgo : GoesOn v) {f : Frame} (hitem : isItem f = true → listed = true)
    (hlist : inList = true → ∀ s, (start PlainText.sink f s).tightness ≠ []) :
    KeepsStep listed (Walk.framed plain f v) := by
  intro s t hs hl hst
  cases hflow : f.defaultFlow with
  | skip =>
    simp only [Walk.framed, backend, hflow]
    exact hst
  | enter =>
    simp only [Walk.framed, backend, hflow]
    have hstart := quote_start hs (f := f) fun hf => hl (hitem hf)
    have hstarted : InQuote ⟨s.context, start PlainText.sink f s.out⟩
        ⟨t.context, start PlainText.sink f t.out⟩ := by
      refine ⟨?_, hst.context⟩
      show start PlainText.sink f t.out = (start PlainText.sink f s.out).quote
      rw [hst.out, hstart]
    have hin := hv _ _ (steady_start hs f) (fun h => hlist h s.out) hstarted
    have hcont := hgo ⟨s.context, start PlainText.sink f s.out⟩ (steady_start hs f)
    refine ⟨?_, hin.context⟩
    rw [hin.out, quote_finish hs hcont]

/-- Only lists have items directly in them, and a list is a list for the layout. -/
theorem tightness_start_list {n : Node} (hn : n.isList = true) (c : Context) (s : State String) :
    (start PlainText.sink (n.frame c) s).tightness ≠ [] := by
  cases n with
  | list number tight => exact List.cons_ne_nil _ _
  | _ => cases hn

theorem isItem_frame {n : Node} {c : Context} (h : isItem (n.frame c) = true) :
    n.isItem = true := by
  cases n with
  | item marker task tight => rfl
  | _ => cases h

mutual

theorem keepsStep_outline {listed : Bool} : ∀ o : Outline, o.ItemsListed listed →
    KeepsStep listed (Walk.outline plain o)
  | .leaf l, _ => by
    intro s t hs _ hst
    refine ⟨?_, hst.context⟩
    show leaf PlainText.sink none t.context l t.out = _
    rw [hst.out]
    exact (quote_leaf hs s.context t.context l).symm
  | .reference label, _ => by
    intro s t hs _ hst
    obtain ⟨ks, hks⟩ := hst.context
    have hnumber := s.context.footnoteNumber_containers ks label
    rw [← hks] at hnumber
    refine ⟨?_, ks, ?_⟩
    · show leaf PlainText.sink none (t.context.footnoteNumber label).2
        (.footnoteReference label (t.context.footnoteNumber label).1) t.out = _
      rw [hnumber, hst.out]
      exact (quote_leaf hs (s.context.footnoteNumber label).2 _ _).symm
    · exact congrArg Prod.snd hnumber
  | .node n inside, ho => by
    intro s t hs hl hst
    obtain ⟨ks, hks⟩ := hst.context
    have hinside := (keepsStep_outlines inside ho.2).insideOf n.container?
    have hgo := (goesOn_outlines inside).insideOf n.container?
    -- the frame is the same inside the quote, but for the tightness of a paragraph
    have hframe : withoutTightness (n.frame t.context) = withoutTightness (n.frame s.context) := by
      rw [hks, frame_containers]
    have hkeeps : KeepsStep listed (Walk.framed plain (n.frame s.context)
        (Walk.insideOf n.container? (Walk.outlines plain inside))) :=
      hinside.framed hgo (fun h => ho.1 (isItem_frame h)) fun h =>
        tightness_start_list h s.context
    have hnoted : InQuote { s with context := n.noted s.context }
        { t with context := n.noted t.context } := by
      refine ⟨hst.out, ks, ?_⟩
      rw [hks]
      exact noted_containers n s.context ks
    simp only [Walk.outline, Walk.node]
    rw [← framed_withoutTightness (n.frame t.context), hframe, framed_withoutTightness]
    exact hkeeps { s with context := n.noted s.context } { t with context := n.noted t.context }
      hs hl hnoted

theorem keepsStep_outlines {listed : Bool} : ∀ os : List Outline, outlinesItemsListed listed os →
    KeepsStep listed (Walk.outlines plain os)
  | [], _ => fun _ _ _ _ hst => hst
  | o :: os, ho => by
    intro s t hs hl hst
    have hgo := goesOn_outline o s hs
    refine keepsStep_outlines os ho.2 _ _ hgo.steady ?_ (keepsStep_outline o ho.1 s t hs hl hst)
    intro h
    rw [hgo.tightness]
    exact hl h

end

/-! ## The text of a quote -/

theorem quoteContent_eq_iff (text : List Char) :
    quoteContent text = quoteText text ↔ text.head? ≠ some '\n' := by
  constructor
  · rintro h hhead
    obtain ⟨cs, rfl⟩ : ∃ cs, text = '\n' :: cs := by
      cases text with
      | nil => cases hhead
      | cons c cs => exact ⟨cs, by rw [Option.some.inj hhead]⟩
    exact absurd (List.cons.inj h).1 (by decide)
  · intro h
    exact quoteContent_feeds h 0

/-- **A quote has its mark on every line**: the plain text of a quote is that of its blocks with the
mark before each line, and only empty lines before all content have none. So every line has the mark
exactly when the text of the blocks does not begin with an empty line. -/
theorem renderIn_quote (bs : List Block) (c : Context) :
    (PlainText.renderIn [.quote none bs] c).1.toList =
        quoteContent (PlainText.renderIn bs c).1.toList ∧
      ((PlainText.renderIn [.quote none bs] c).1.toList =
          quoteText (PlainText.renderIn bs c).1.toList ↔
        (PlainText.renderIn bs c).1.toList.head? ≠ some '\n') := by
  have hkeeps := keepsStep_outlines (blocksOutline bs) (itemsListed_blocksOutline bs)
    ⟨c, { out := "" }⟩ ⟨c.push .quote, State.quote { out := "" }⟩ steady_empty nofun
    ⟨rfl, _, rfl⟩
  rw [← Walk.blocks_eq] at hkeeps
  have hquote : (PlainText.renderIn [.quote none bs] c).1.toList =
      quoteContent (PlainText.renderIn bs c).1.toList := by
    have hout := congrArg (fun s : State String => s.out.toList) hkeeps.out
    exact hout.trans String.toList_ofList
  exact ⟨hquote, hquote ▸ quoteContent_eq_iff _⟩

/-- A code block that begins with an empty line, in a quote: the empty line has no mark. -/
theorem not_renderIn_quote :
    ¬ ∀ (bs : List Block) (c : Context), (PlainText.renderIn [.quote none bs] c).1.toList =
      quoteText (PlainText.renderIn bs c).1.toList := by
  intro h
  exact absurd (h [.code none "\nx"] {}) (by decide)

end RichMarkdown.Layout
