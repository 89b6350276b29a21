import RichMarkdown.Proofs.Highlight.Segments
import RichMarkdown.Proofs.Walk.Congruence
import RichMarkdown.Render.PlainText
import RichMarkdown.Styled.Render

/-!
# Layouts into different sinks

A layout only writes to its sink and never reads it back, so a map between sinks that commutes with
writing carries the layout into one sink to the layout into the other (`State.map` and the `map_`
lemmas). A sink that keeps whatever it is given sees a text as its characters one after the other,
however it is cut into pieces (`writeStyled_eq_foldl`), and the sink of plain text does not see
styles either, so there the colours of code do not matter (`writeCode_plain`). Together:

* `text_renderIn`: the text of a layout in styled text is the layout in plain text, and both leave
  the same context.
-/

set_option autoImplicit false

namespace RichMarkdown.Layout

variable {τ τ' : Type}

namespace State

/-! ## Maps of sinks -/

/-- The same layout under way with another sink. -/
def map (f : τ → τ') (s : State τ) : State τ' where
  out := f s.out
  margins := s.margins
  owed := s.owed
  owedByCode := s.owedByCode
  atLineStart := s.atLineStart
  started := s.started
  fresh := s.fresh
  tightness := s.tightness
  styles := s.styles

@[simp] theorem map_margins (f : τ → τ') (s : State τ) : (s.map f).margins = s.margins := rfl

@[simp] theorem map_owed (f : τ → τ') (s : State τ) : (s.map f).owed = s.owed := rfl

@[simp] theorem map_atLineStart (f : τ → τ') (s : State τ) :
    (s.map f).atLineStart = s.atLineStart := rfl

@[simp] theorem map_fresh (f : τ → τ') (s : State τ) : (s.map f).fresh = s.fresh := rfl

@[simp] theorem map_tightness (f : τ → τ') (s : State τ) :
    (s.map f).tightness = s.tightness := rfl

@[simp] theorem nextMargin_map (f : τ → τ') (s : State τ) :
    (s.map f).nextMargin = s.nextMargin := rfl

@[simp] theorem blankMargin_map (f : τ → τ') (s : State τ) :
    (s.map f).blankMargin = s.blankMargin := rfl

theorem map_request (f : τ → τ') (s : State τ) (gap : Gap) :
    (s.request gap).map f = (s.map f).request gap := by
  unfold request
  split <;> rename_i h <;> simp only [map, h] <;> rfl

theorem map_blockStart (f : τ → τ') (s : State τ) :
    s.blockStart.map f = (s.map f).blockStart := by
  unfold blockStart
  rw [map_fresh, map_tightness]
  split
  · rfl
  · exact map_request f s _

/-- The layout of the pieces of a text is carried along by `f`. -/
def Commutes (f : τ → τ') (k : Sink τ) (k' : Sink τ') : Prop :=
  ∀ out text style, f (k.append out text style) = k'.append (f out) text style

section

variable {f : τ → τ'} {k : Sink τ} {k' : Sink τ'} (hf : Commutes f k k')
include hf

theorem map_append (s : State τ) (text : String) (style : TextStyle) :
    (s.append k text style).map f = (s.map f).append k' text style := by
  simp only [append, map, hf s.out text style]

theorem map_emptyLines (n : Nat) (s : State τ) :
    (emptyLines k n s).map f = emptyLines k' n (s.map f) := by
  induction n generalizing s with
  | zero => rfl
  | succ n ih =>
    simp only [emptyLines]
    rw [ih, map_append hf, map_append hf, blankMargin_map]

theorem map_flush (s : State τ) : (s.flush k).map f = (s.map f).flush k' := by
  simp only [flush, map_owed]
  cases s.owed with
  | zero => rfl
  | succ n =>
    -- the first line feed ends the current line, and empty lines follow
    have h := map_emptyLines hf n (({ s with owed := 0, owedByCode := 0 }).append k "\n" {})
    rw [map_append hf] at h
    exact congrArg (fun t : State τ' => { t with atLineStart := true }) h

theorem map_writeMargin (s : State τ) : (s.writeMargin k).map f = (s.map f).writeMargin k' := by
  unfold writeMargin
  rw [nextMargin_map]
  split
  · rfl
  · exact congrArg useMargins (map_append hf s _ _)

theorem map_writeLine (s : State τ) (line : String) (style : TextStyle) :
    (s.writeLine k line style).map f = (s.map f).writeLine k' line style := by
  dsimp only [writeLine]
  rw [← map_flush hf, map_atLineStart]
  split
  · rfl
  · split
    · rw [← map_writeMargin hf, ← map_append hf]
      rfl
    · rw [← map_append hf]
      rfl

theorem map_writeLines (ls : List (List Char)) (style : TextStyle) (s : State τ) :
    (s.writeLines k style ls).map f = (s.map f).writeLines k' style ls := by
  induction ls generalizing s with
  | nil => rfl
  | cons l ls ih =>
    simp only [writeLines]
    rw [ih, map_writeLine hf]
    rfl

theorem map_writeStyled (s : State τ) (text : String) (style : TextStyle) :
    (s.writeStyled k text style).map f = (s.map f).writeStyled k' text style := by
  unfold writeStyled
  split
  · rfl
  · rw [map_writeLines hf, map_writeLine hf]

theorem map_write (s : State τ) (text : String) :
    (s.write k text).map f = (s.map f).write k' text :=
  map_writeStyled hf s text s.style

theorem map_writeSegments (theme : Theme) (mode : ColorMode) (base : TextStyle)
    (segments : List Segment) (s : State τ) :
    (s.writeSegments k theme mode base segments).map f =
      (s.map f).writeSegments k' theme mode base segments := by
  induction segments generalizing s with
  | nil => rfl
  | cons x xs ih =>
    simp only [writeSegments]
    rw [ih, map_writeStyled hf]

theorem map_writeCode (s : State τ) (colors : Option CodeColors) (mode : ColorMode)
    (language : Option String) (literal : String) :
    (s.writeCode k colors mode language literal).map f =
      (s.map f).writeCode k' colors mode language literal := by
  unfold writeCode
  cases colors with
  | none => exact map_write hf s literal
  | some colors =>
    dsimp only
    split
    · exact map_write hf s literal
    · exact map_writeSegments hf _ _ _ _ s

theorem map_codeBlock (s : State τ) (colors : Option CodeColors) (mode : ColorMode)
    (language : Option String) (literal : String) :
    (s.codeBlock k colors mode language literal).map f =
      (s.map f).codeBlock k' colors mode language literal := by
  have h := map_writeCode hf (s.blockStart.pushStyle ({ · with monospace := true })) colors mode
    language literal
  have hb : (s.blockStart.pushStyle ({ · with monospace := true })).map f =
      (s.map f).blockStart.pushStyle ({ · with monospace := true }) := by
    rw [← map_blockStart f s]
    rfl
  dsimp only [codeBlock]
  rw [← hb, ← h]
  split <;> rfl

theorem map_openQuote (s : State τ) (alert : Option Alert) :
    (s.openQuote k alert).map f = (s.map f).openQuote k' alert := by
  unfold openQuote
  rw [← map_blockStart f s]
  cases alert with
  | none => rfl
  | some alert =>
    have h (t : State τ) : (t.write k alert.title).popStyle.map f =
        ((t.map f).write k' alert.title).popStyle := congrArg popStyle (map_write hf t alert.title)
    exact (congrArg (fun t : State τ' => { t with fresh := true })
      ((map_request f _ .line).trans (congrArg (·.request .line) (h _))))

theorem map_writeUnused (s : State τ) : (s.writeUnused k).map f = (s.map f).writeUnused k' := by
  dsimp only [writeUnused]
  rw [map_margins]
  split
  · split
    · rfl
    · rw [← map_flush hf, nextMargin_map, ← map_append hf]
      rfl
  · rfl

theorem map_closeItem (s : State τ) : (s.closeItem k).map f = (s.map f).closeItem k' := by
  unfold closeItem
  rw [← map_writeUnused hf]
  rfl

end

theorem map_openItem (f : τ → τ') (s : State τ) (marker : Marker) (task : Option Bool) :
    (s.openItem marker task).map f = (s.map f).openItem marker task := by
  dsimp only [openItem]
  rw [map_fresh, map_tightness, ← map_request]
  split <;> rfl

end State

/-! ## Hooks -/

section

variable {f : τ → τ'} {k : Sink τ} {k' : Sink τ'} (hf : State.Commutes f k k')
include hf

theorem map_leaf (colors : Option CodeColors) (c : Context) (l : Leaf) (s : State τ) :
    (leaf k colors c l s).map f = leaf k' colors c l (s.map f) := by
  cases l with
  | text t => exact State.map_write hf s t
  | code t =>
    exact congrArg State.popStyle
      (State.map_write hf (s.pushStyle ({ · with monospace := true })) t)
  | softBreak => exact State.map_write hf s " "
  | image source title alt => exact State.map_write hf s alt
  | footnoteReference label n => exact State.map_write hf s _
  | codeBlock language literal => exact State.map_codeBlock hf s colors c.mode language literal
  | rule =>
    show (s.blockStart.write k "---").map f = (s.map f).blockStart.write k' "---"
    rw [State.map_write hf, State.map_blockStart]
  | lineBreak | inlineHtml | htmlBlock | metadata => rfl

theorem map_start (fr : Frame) (s : State τ) : (start k fr s).map f = start k' fr (s.map f) := by
  cases fr with
  | paragraph tight => exact State.map_blockStart f s
  | heading level id => exact congrArg (·.pushStyle (State.headingStyle level)) (s.map_blockStart f)
  | list number tight =>
    exact congrArg (fun t : State τ' => { t with tightness := tight :: t.tightness })
      (s.map_blockStart f)
  | item marker task => exact State.map_openItem f s marker task
  | quote alert => exact State.map_openQuote hf s alert
  | table t => exact State.map_blockStart f s
  | row header =>
    have h := State.map_request f s .line
    cases header
    · exact h
    · exact congrArg (·.pushStyle ({ · with bold := true })) h
  | cell header column alignment =>
    by_cases h : column = 0
    · simp only [start, if_pos h]
    · simp only [start, if_neg h]
      exact State.map_write hf s "\t"
  | footnote label n =>
    exact congrArg (fun t : State τ' =>
        { t.pushMargin (.hanging s!"[{n}] " "") with
          tightness := false :: t.tightness, fresh := true })
      (s.map_blockStart f)
  | marked | inlineDirective | directive | command => rfl

theorem map_finish (fr : Frame) (s : State τ) : (finish k fr s).map f = finish k' fr (s.map f) := by
  cases fr with
  | item marker task => exact State.map_closeItem hf s
  | row header => cases header <;> rfl
  | _ => rfl

/-- **The layout into one sink follows the layout into another**, where leaves do not tell the
colours of code apart. -/
theorem simulation_map {colors colors' : Option CodeColors}
    (hcolors : ∀ c l s, leaf k' colors c l s = leaf k' colors' c l s) :
    Walk.Simulation (backend k colors) (backend k' colors') (fun _ => True)
      fun s t => s.map f = t := by
  refine ⟨?leaf, trivial, ?start, ?finish⟩
  case leaf =>
    rintro c l s _ - rfl
    exact (map_leaf hf colors c l s).trans (hcolors c l _)
  case start =>
    rintro c fr s _ rfl
    simp only [backend]
    cases fr.defaultFlow with
    | skip => exact ⟨rfl, rfl⟩
    | enter => exact ⟨rfl, map_start hf fr s⟩
  case finish =>
    rintro c fr s _ rfl
    exact map_finish hf fr s

end

/-! ## Text as characters -/

/-- A sink that puts pieces of one style together and does not notice empty pieces. -/
structure Sink.Joins (k : Sink τ) : Prop where
  empty (out : τ) (style : TextStyle) : k.append out "" style = out
  join (out : τ) (a b : String) (style : TextStyle) :
    k.append (k.append out a style) b style = k.append out (a ++ b) style

namespace State

variable {k : Sink τ}

/-- The layout has just written content in the current line. -/
structure InLine (s : State τ) : Prop where
  owed : s.owed = 0
  owedByCode : s.owedByCode = 0
  atLineStart : s.atLineStart = false
  started : s.started = true
  fresh : s.fresh = false

theorem emptyLines_owed (n : Nat) (s : State τ) :
    (emptyLines k n s).owed = s.owed ∧ (emptyLines k n s).owedByCode = s.owedByCode := by
  induction n generalizing s with
  | zero => exact ⟨rfl, rfl⟩
  | succ n ih => exact ih _

theorem flush_owed (s : State τ) : (s.flush k).owed = 0 ∧ (s.flush k).owedByCode = 0 := by
  simp only [flush]
  cases s.owed with
  | zero => exact ⟨rfl, rfl⟩
  | succ n => exact emptyLines_owed n _

theorem InLine.flush {s : State τ} (h : s.InLine) : s.flush k = s := by
  obtain ⟨out, margins, owed, owedByCode, atLineStart, started, fresh, tightness, styles⟩ := s
  obtain ⟨rfl, rfl, -, -, -⟩ : owed = 0 ∧ owedByCode = 0 ∧ _ := ⟨h.owed, h.owedByCode, h⟩
  rfl

theorem InLine.writeLine {s : State τ} (h : s.InLine) {line : String} (style : TextStyle)
    (hl : line.isEmpty = false) : s.writeLine k line style = s.append k line style := by
  dsimp only [State.writeLine]
  rw [h.flush, hl, h.atLineStart]
  obtain ⟨out, margins, owed, owedByCode, atLineStart, started, fresh, tightness, styles⟩ := s
  obtain ⟨rfl, rfl, rfl⟩ : atLineStart = false ∧ started = true ∧ fresh = false :=
    ⟨h.atLineStart, h.started, h.fresh⟩
  rfl

theorem inLine_writeLine (s : State τ) {line : String} (style : TextStyle)
    (hl : line.isEmpty = false) : (s.writeLine k line style).InLine := by
  obtain ⟨ho, hc⟩ := flush_owed (k := k) s
  dsimp only [writeLine]
  rw [hl]
  have hm (t : State τ) : (t.writeMargin k).owed = t.owed ∧
      (t.writeMargin k).owedByCode = t.owedByCode := by
    unfold writeMargin
    split <;> exact ⟨rfl, rfl⟩
  cases (s.flush k).atLineStart with
  | true => exact ⟨(hm _).1.trans ho, (hm _).2.trans hc, rfl, rfl, rfl⟩
  | false => exact ⟨ho, hc, rfl, rfl, rfl⟩

/-- Content of one line can be written in two steps. -/
theorem writeLine_append (hk : k.Joins) (s : State τ) (a b : String) (style : TextStyle) :
    s.writeLine k (a ++ b) style = (s.writeLine k a style).writeLine k b style := by
  have hempty (t : State τ) : t.writeLine k "" style = t := rfl
  by_cases ha : a.isEmpty
  · obtain rfl : a = "" := by simpa using ha
    rw [hempty, String.empty_append]
  · by_cases hb : b.isEmpty
    · obtain rfl : b = "" := by simpa using hb
      rw [hempty, String.append_empty]
    · have ha : a.isEmpty = false := by simpa using ha
      have hb : b.isEmpty = false := by simpa using hb
      have hab : (a ++ b).isEmpty = false := by simp_all
      rw [(inLine_writeLine s style ha).writeLine style hb]
      dsimp only [writeLine]
      rw [ha, hab]
      simp only [append, Bool.false_eq_true, ↓reduceIte, hk.join]

/-- Writes one character in a style. -/
def writeChar (k : Sink τ) (style : TextStyle) (s : State τ) (c : Char) : State τ :=
  if c == '\n' then s.newline else s.writeLine k (String.singleton c) style

/-- **Text is written character by character**: the layout does not depend on how a text is cut
into the pieces that are written. -/
theorem writeStyled_eq_foldl (hk : k.Joins) (s : State τ) (text : String) (style : TextStyle) :
    s.writeStyled k text style = text.toList.foldl (writeChar k style) s := by
  unfold writeStyled
  generalize text.toList = cs
  induction cs generalizing s with
  | nil => rfl
  | cons c cs ih =>
    -- a line feed closes an empty first part, any other character joins the first part
    obtain ⟨part, parts, hp⟩ := List.exists_cons_of_ne_nil (List.splitOn_ne_nil '\n' cs)
    rw [List.foldl_cons, ← ih]
    by_cases hc : c == '\n'
    · simp only [List.splitOn_cons_eq_if_modifyHead, hp, writeChar, hc, ↓reduceIte]
      rfl
    · simp only [List.splitOn_cons_eq_if_modifyHead, hp, writeChar, hc, Bool.false_eq_true,
        ↓reduceIte, List.modifyHead_cons]
      rw [← List.singleton_append, String.ofList_append, writeLine_append hk,
        ← String.singleton_eq_ofList]

theorem writeStyled_append (hk : k.Joins) (s : State τ) (a b : String) (style : TextStyle) :
    s.writeStyled k (a ++ b) style = (s.writeStyled k a style).writeStyled k b style := by
  simp only [writeStyled_eq_foldl hk, String.toList_append, List.foldl_append]

end State

/-! ## Plain text -/

/-- A sink that drops styles. -/
def Sink.Plain (k : Sink τ) : Prop :=
  ∀ out text style style', k.append out text style = k.append out text style'

namespace State

variable {k : Sink τ}

theorem writeStyled_style (hk : k.Joins) (hp : k.Plain) (s : State τ) (text : String)
    (style style' : TextStyle) : s.writeStyled k text style = s.writeStyled k text style' := by
  have hchar : writeChar k style = writeChar k style' := by
    funext s c
    simp only [writeChar, writeLine, append, hp _ _ style style']
  rw [writeStyled_eq_foldl hk, writeStyled_eq_foldl hk, hchar]

/-- Without styles, segments are written as the text they make up. -/
theorem writeSegments_plain (hk : k.Joins) (hp : k.Plain) (theme : Theme) (mode : ColorMode)
    (base : TextStyle) (segments : List Segment) (s : State τ) :
    s.writeSegments k theme mode base segments =
      s.writeStyled k (String.join (segments.map (·.text))) base := by
  induction segments generalizing s with
  | nil => rfl
  | cons x xs ih =>
    rw [writeSegments, ih, List.map_cons, String.join_cons, writeStyled_append hk,
      writeStyled_style hk hp s x.text _ base]

/-- Without styles, the colours of code do not matter. -/
theorem writeCode_plain (hk : k.Joins) (hp : k.Plain) (s : State τ) (colors : Option CodeColors)
    (mode : ColorMode) (language : Option String) (literal : String) :
    s.writeCode k colors mode language literal = s.writeCode k none mode language literal := by
  unfold writeCode
  cases colors with
  | none => rfl
  | some colors =>
    dsimp only
    split
    · rfl
    · rw [writeSegments_plain hk hp, join_segments]
      rfl

end State

theorem leaf_plain {k : Sink τ} (hk : k.Joins) (hp : k.Plain) (colors : Option CodeColors)
    (c : Context) (l : Leaf) (s : State τ) : leaf k colors c l s = leaf k none c l s := by
  cases l with
  | codeBlock language literal =>
    simp only [leaf, State.codeBlock, State.writeCode_plain hk hp _ colors]
  | _ => rfl

theorem joins_plainText : PlainText.sink.Joins where
  empty _ _ := String.append_empty
  join _ _ _ _ := String.append_assoc

theorem plain_plainText : PlainText.sink.Plain := fun _ _ _ _ => rfl

end RichMarkdown.Layout

namespace RichMarkdown.StyledText

/-! ## Styled text -/

theorem text_push (t : StyledText) (text : String) (style : TextStyle) :
    (t.push text style).text = t.text ++ text := by
  unfold push
  split
  · rename_i h
    rw [String.isEmpty_iff.mp h, String.append_empty]
  · split
    · rename_i last earlier ht
      split <;> simp [StyledText.text, runs, ht, String.append_assoc]
    · rename_i ht
      simp [StyledText.text, runs, ht]

end RichMarkdown.StyledText

namespace RichMarkdown.Layout

/-- The layout into styled text follows the layout into plain text, whatever colours code has. -/
theorem simulation_styled (colors : Option CodeColors) :
    Walk.Simulation (backend Styled.sink colors) (backend PlainText.sink none) (fun _ => True)
      fun s t => s.map StyledText.text = t :=
  have hf : State.Commutes StyledText.text Styled.sink PlainText.sink := StyledText.text_push
  simulation_map hf (leaf_plain joins_plainText plain_plainText colors)

/-- **Styled text and plain text agree**: the runs of a document in styled text, put together, are
its plain text, whatever highlights code, and both renderings leave the context alike. -/
theorem text_renderIn (settings : Styled.Settings) (d : Document) (c : Context) :
    (Styled.renderIn settings d c).1.text = (PlainText.renderIn d c).1 ∧
      (Styled.renderIn settings d c).2 = (PlainText.renderIn d c).2 := by
  obtain ⟨hs, hc⟩ := (simulation_styled settings.codeColors).document
    (blocksEveryLeaf_of_forall (fun _ => trivial) d) c (s := { out := {} }) rfl
  exact ⟨congrArg State.out hs, hc⟩

end RichMarkdown.Layout
