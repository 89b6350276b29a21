import RichMarkdown.Proofs.Highlight.Covered
import RichMarkdown.Proofs.Layout.Sinks

/-!
# Letters and their styles

A styled text as its characters, each with its style (`StyledText.letters`). A layout adds to them
the characters of the text it is given, in the style it is given them in, and between them line ends
and margins, always in the default style (`Laid`).

* `State.lays_writeStyled`: written text adds its characters in its style.
* `letters_code`: the letters of a code block are those of its segments, each in the style of its
  segment.
-/

set_option autoImplicit false

namespace RichMarkdown

/-- What is known of the characters of a text, line feeds apart. -/
def withoutFeeds {α : Type} (ls : List (Char × α)) : List (Char × α) := ls.filter (·.1 ≠ '\n')

theorem withoutFeeds_append {α : Type} (a b : List (Char × α)) :
    withoutFeeds (a ++ b) = withoutFeeds a ++ withoutFeeds b := by
  unfold withoutFeeds
  exact List.filter_append a b

namespace StyledText

/-- The characters of a styled text, each with its style. -/
def letters (t : StyledText) : List (Char × TextStyle) :=
  t.runs.flatMap fun r => r.text.toList.map (·, r.style)

/-- **Pushed text adds its characters in its style**, whether or not it joins the last run. -/
theorem letters_push (t : StyledText) (text : String) (style : TextStyle) :
    (t.push text style).letters = t.letters ++ text.toList.map (·, style) := by
  unfold push
  split
  · rename_i h
    simp [String.isEmpty_iff.mp h]
  · split
    · rename_i last earlier ht
      split
      · rename_i hs
        simp [letters, runs, ht, hs]
      · simp [letters, runs, ht]
    · rename_i ht
      simp [letters, runs, ht]

end StyledText

namespace Layout

/-- The sink that keeps every character with its style. -/
def lettersSink : Sink (List (Char × TextStyle)) where
  append out text style := out ++ text.toList.map (·, style)

theorem commutes_letters : State.Commutes StyledText.letters Styled.sink lettersSink :=
  StyledText.letters_push

theorem joins_letters : lettersSink.Joins where
  empty out _ := List.append_nil out
  join out a b style := by simp [lettersSink]

/-! ## Content and layout -/

/-- What a layout writes on its own account, where `P` tells the texts of its margins: line ends and
margins, without the blanks at their end on lines that have no content. -/
inductive LayoutText (P : String → Prop) : String → Prop
  | lineEnd : LayoutText P "\n"
  | margin {texts : List String} (h : ∀ t ∈ texts, P t) : LayoutText P (String.join texts)
  | trimmed {texts : List String} (h : ∀ t ∈ texts, P t) :
    LayoutText P (Text.trimmedEnd (String.join texts))

/-- The letters of some content as they are laid out: all of them in order, and layout between them
in the default style. The line feeds of the content are left to the layout. -/
inductive Laid (P : String → Prop) : List (Char × TextStyle) → List (Char × TextStyle) → Prop
  | nil : Laid P [] []
  | letter {c : Char} {style : TextStyle} {ls out : List (Char × TextStyle)} (hc : c ≠ '\n') :
    Laid P ls out → Laid P ((c, style) :: ls) ((c, style) :: out)
  | feed {style : TextStyle} {ls out : List (Char × TextStyle)} :
    Laid P ls out → Laid P (('\n', style) :: ls) out
  | layout {text : String} {ls out : List (Char × TextStyle)} (h : LayoutText P text) :
    Laid P ls out → Laid P ls (text.toList.map (·, ({} : TextStyle)) ++ out)

section

variable {P : String → Prop} {a b x y : List (Char × TextStyle)}

theorem Laid.append (h : Laid P a x) (h' : Laid P b y) : Laid P (a ++ b) (x ++ y) := by
  induction h with
  | nil => exact h'
  | letter hc _ ih => exact .letter hc ih
  | feed _ ih => exact .feed ih
  | layout ht _ ih =>
    rw [List.append_assoc]
    exact .layout ht ih

theorem laid_layout {text : String} (h : LayoutText P text) :
    Laid P [] (text.toList.map (·, ({} : TextStyle))) := by
  simpa using Laid.layout h .nil

/-- Where no container has a margin, the layout consists of line feeds. -/
theorem Laid.withoutFeeds_eq (h : Laid (fun _ => False) a x) :
    withoutFeeds x = withoutFeeds a := by
  induction h with
  | nil => rfl
  | @letter c style ls out hc _ ih =>
    have hkeep (l : List (Char × TextStyle)) :
        withoutFeeds ((c, style) :: l) = (c, style) :: withoutFeeds l :=
      List.filter_cons_of_pos (by simpa using hc)
    rw [hkeep, hkeep, ih]
  | @feed style ls out _ ih =>
    rw [ih]
    exact (List.filter_cons_of_neg (by simp)).symm
  | @layout text _ _ ht _ ih =>
    have hjoin {texts : List String} (hts : ∀ t ∈ texts, False) : String.join texts = "" := by
      rw [List.eq_nil_iff_forall_not_mem.mpr hts]
      rfl
    have hnone : withoutFeeds (text.toList.map (·, ({} : TextStyle))) = [] := by
      cases ht with
      | lineEnd => rfl
      | margin hts => rw [hjoin hts]; rfl
      | trimmed hts => rw [hjoin hts]; rfl
    rw [withoutFeeds_append, hnone, ih, List.nil_append]

end

namespace State

/-- Every container that is open has a margin of such texts. -/
def Furnished {τ : Type} (P : String → Prop) (s : State τ) : Prop :=
  ∀ m ∈ s.margins, P m.first ∧ P m.rest

variable {P : String → Prop} {s t u : State (List (Char × TextStyle))}
  {a b : List (Char × TextStyle)}

theorem Furnished.nextMargin (h : s.Furnished P) : ∃ texts : List String, (∀ t ∈ texts, P t) ∧
    s.nextMargin = String.join texts := by
  refine ⟨_, ?_, rfl⟩
  intro t ht
  obtain ⟨m, hm, rfl⟩ := List.mem_map.mp ht
  have hm := h m (List.mem_reverse.mp hm)
  split
  · exact hm.2
  · exact hm.1

theorem Furnished.blankMargin (h : s.Furnished P) : LayoutText P s.blankMargin := by
  refine .trimmed ?_
  intro t ht
  obtain ⟨m, hm, rfl⟩ := List.mem_map.mp ht
  exact (h m (List.mem_reverse.mp (List.mem_of_mem_filter hm))).2

/-- The layout has laid some letters out, and these styles are in force. -/
structure Lays (P : String → Prop) (s t : State (List (Char × TextStyle)))
    (styles : List TextStyle) (ls : List (Char × TextStyle)) : Prop where
  furnished : t.Furnished P
  styles : t.styles = styles
  out : ∃ more, t.out = s.out ++ more ∧ Laid P ls more

theorem Lays.trans {styles styles' : List TextStyle} (h : Lays P s t styles a)
    (h' : Lays P t u styles' b) : Lays P s u styles' (a ++ b) where
  furnished := h'.furnished
  styles := h'.styles
  out := by
    obtain ⟨x, hx, hlx⟩ := h.out
    obtain ⟨y, hy, hly⟩ := h'.out
    exact ⟨x ++ y, by rw [hy, hx, List.append_assoc], hlx.append hly⟩

/-- A step that restores the styles comes after others. -/
theorem Lays.seq {styles : List TextStyle} (h : Lays P s t styles a) (h' : Lays P t u t.styles b) :
    Lays P s u styles (a ++ b) :=
  h.trans (h.styles ▸ h')

theorem Lays.pushStyle {styles : List TextStyle} (h : Lays P s t styles a)
    (change : TextStyle → TextStyle) :
    Lays P s (t.pushStyle change) (change (styles.headD {}) :: styles) a :=
  ⟨h.furnished, by rw [State.pushStyle, style, h.styles], h.out⟩

theorem Lays.popStyle {styles : List TextStyle} {style : TextStyle}
    (h : Lays P s t (style :: styles) a) : Lays P s t.popStyle styles a :=
  ⟨h.furnished, congrArg List.tail h.styles, h.out⟩

/-- Nothing is written, whatever else changes. -/
theorem lays_nothing (h : t.Furnished P) (hout : t.out = s.out) : Lays P s t t.styles [] :=
  ⟨h, rfl, [], by rw [hout, List.append_nil], .nil⟩

theorem lays_layout (h : s.Furnished P) {text : String} (ht : LayoutText P text) :
    Lays P s (s.append lettersSink text {}) s.styles [] :=
  ⟨h, rfl, _, rfl, laid_layout ht⟩

theorem lays_emptyLines (n : Nat) (h : s.Furnished P) :
    Lays P s (emptyLines lettersSink n s) s.styles [] := by
  induction n generalizing s with
  | zero => exact lays_nothing h rfl
  | succ n ih =>
    have hmargin := lays_layout h h.blankMargin
    have hline := hmargin.seq (lays_layout hmargin.furnished .lineEnd)
    exact hline.seq (ih hline.furnished)

theorem lays_flush (h : s.Furnished P) : Lays P s (s.flush lettersSink) s.styles [] := by
  simp only [flush]
  cases s.owed with
  | zero => exact lays_nothing h rfl
  | succ n =>
    have hline := lays_layout (s := { s with owed := 0, owedByCode := 0 }) h .lineEnd
    have hlines := hline.seq (lays_emptyLines n hline.furnished)
    exact ⟨hlines.furnished, hlines.styles, hlines.out⟩

theorem Furnished.useMargins (h : s.Furnished P) : s.useMargins.Furnished P := by
  intro _ hmem
  obtain ⟨m, hm, rfl⟩ := List.mem_map.mp hmem
  exact h m hm

theorem lays_writeMargin (h : s.Furnished P) :
    Lays P s (s.writeMargin lettersSink) s.styles [] := by
  obtain ⟨texts, htexts, hmargin⟩ := h.nextMargin
  unfold writeMargin
  split
  · exact lays_nothing (t := s.useMargins) h.useMargins rfl
  · have hlays := lays_layout h (.margin htexts)
    rw [← hmargin] at hlays
    exact ⟨hlays.furnished.useMargins, hlays.styles, hlays.out⟩

/-- A character is written as it is, unless it is a line feed. -/
theorem lays_writeChar (h : s.Furnished P) (style : TextStyle) (c : Char) :
    Lays P s (writeChar lettersSink style s c) s.styles [(c, style)] := by
  unfold writeChar
  split
  · rename_i hfeed
    rw [beq_iff_eq.mp hfeed]
    exact ⟨h, rfl, [], (List.append_nil _).symm, .feed .nil⟩
  · rename_i hne
    have hflush := lays_flush h
    have hstart : Lays P s (if (s.flush lettersSink).atLineStart then
        (s.flush lettersSink).writeMargin lettersSink else s.flush lettersSink) s.styles [] := by
      split
      · exact hflush.seq (lays_writeMargin hflush.furnished)
      · exact hflush
    have hletter : Laid P [(c, style)] [(c, style)] := .letter (by simpa using hne) .nil
    obtain ⟨more, hmore, hlaid⟩ := hstart.out
    have hsingleton : (String.singleton c).isEmpty = false := by simp
    dsimp only [writeLine]
    rw [hsingleton, if_neg Bool.false_ne_true]
    refine ⟨hstart.furnished, hstart.styles, more ++ [(c, style)], ?_, hlaid.append hletter⟩
    have hsingle : (String.singleton c).toList.map (·, style) = [(c, style)] := by simp
    rw [← List.append_assoc, ← hmore, ← hsingle]
    rfl

/-- **Written text adds its characters in its style.** -/
theorem lays_writeStyled (h : s.Furnished P) (text : String) (style : TextStyle) :
    Lays P s (s.writeStyled lettersSink text style) s.styles (text.toList.map (·, style)) := by
  rw [writeStyled_eq_foldl joins_letters]
  generalize text.toList = cs
  induction cs generalizing s with
  | nil => exact lays_nothing h rfl
  | cons c cs ih =>
    have hc := lays_writeChar h style c
    exact hc.seq (ih hc.furnished)

/-! ## Code -/

theorem lays_writeSegments (h : s.Furnished P) (theme : Theme) (mode : ColorMode)
    (base : TextStyle) (xs : List Segment) :
    Lays P s (s.writeSegments lettersSink theme mode base xs) s.styles
      (xs.flatMap fun x => x.text.toList.map (·, segmentStyle theme mode base x)) := by
  induction xs generalizing s with
  | nil => exact lays_nothing h rfl
  | cons x xs ih =>
    have hx := lays_writeStyled h x.text (segmentStyle theme mode base x)
    exact hx.seq (ih hx.furnished)

/-- Code is written in its segments, coloured or not. -/
theorem lays_writeCode (h : s.Furnished P) (settings : Styled.Settings) (mode : ColorMode)
    (language : Option String) (literal : String) :
    Lays P s (s.writeCode lettersSink settings.codeColors mode language literal) s.styles
      ((codeSegments settings.highlighter language literal).flatMap fun x =>
        x.text.toList.map (·, segmentStyle settings.theme mode s.style x)) := by
  have hplain : Lays P s (s.write lettersSink literal) s.styles
      ([(⟨literal, none⟩ : Segment)].flatMap fun x =>
        x.text.toList.map (·, segmentStyle settings.theme mode s.style x)) := by
    simpa [segmentStyle, write] using lays_writeStyled h literal s.style
  unfold writeCode codeSegments Styled.Settings.codeColors
  cases settings.highlighter with
  | none => exact hplain
  | some hl =>
    simp only [Option.map_some, Option.bind_some]
    cases hl.fittingTokens? literal language with
    | none => exact hplain
    | some tokens => exact lays_writeSegments h _ _ _ _

theorem lays_request (h : s.Furnished P) (gap : Gap) : Lays P s (s.request gap) s.styles [] := by
  unfold request
  split
  · exact lays_nothing (t := { s with owed := max s.owed (s.owedByCode + gap.lines) }) h rfl
  · exact lays_nothing h rfl

theorem lays_blockStart (h : s.Furnished P) : Lays P s s.blockStart s.styles [] := by
  unfold blockStart
  split
  · exact lays_nothing h rfl
  · exact lays_request h _

theorem lays_codeBlock (h : s.Furnished P) (settings : Styled.Settings) (mode : ColorMode)
    (language : Option String) (literal : String) :
    Lays P s (s.codeBlock lettersSink settings.codeColors mode language literal) s.styles
      ((codeSegments settings.highlighter language literal).flatMap fun x =>
        x.text.toList.map
          (·, segmentStyle settings.theme mode { s.style with monospace := true } x)) := by
  have hstart := (lays_blockStart h).pushStyle ({ · with monospace := true })
  have hcode := lays_writeCode hstart.furnished settings mode language literal
  have hstyle : (s.blockStart.pushStyle ({ · with monospace := true })).style =
      { s.style with monospace := true } := congrArg (·.headD {}) hstart.styles
  rw [hstyle] at hcode
  have hall := (hstart.seq hcode).popStyle
  dsimp only [codeBlock]
  split
  · exact ⟨hall.furnished, hall.styles, hall.out⟩
  · exact hall

end State

end Layout

/-- **The letters of a code block** are those of its segments, each in the style of its segment. -/
theorem Styled.letters_code (settings : Styled.Settings) (language : Option String)
    (literal : String) (c : Context) :
    withoutFeeds (Styled.renderIn settings [.code language literal] c).1.letters =
      (codeSegments settings.highlighter language literal).flatMap fun x => withoutFeeds
        (x.text.toList.map
          (·, Layout.State.segmentStyle settings.theme c.mode { monospace := true } x)) := by
  have hmap := congrArg Layout.State.out (Layout.State.map_codeBlock Layout.commutes_letters
    { out := {} } settings.codeColors c.mode language literal)
  obtain ⟨out, hout, hlaid⟩ := (Layout.State.lays_codeBlock (P := fun _ => False)
    (s := { out := [] }) nofun settings c.mode language literal).out
  have hletters : (Styled.renderIn settings [.code language literal] c).1.letters = out :=
    hmap.trans hout
  rw [hletters, hlaid.withoutFeeds_eq]
  unfold withoutFeeds
  rw [List.filter_flatMap]
  rfl

end RichMarkdown
