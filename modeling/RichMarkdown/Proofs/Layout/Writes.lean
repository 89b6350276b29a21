import Mathlib.Data.List.Chain
import Mathlib.Data.List.Forall2
import RichMarkdown.Proofs.Layout.Borders

/-!
# The writings of a layout

A layout of plain text grows by two kinds of writings only: a piece of a line, or the marker of an
empty item (`Write`). Each puts out the line ends that are owed and then something of a line. A run
of the layout is the list of its writings (`Writes`): all else that it does leaves what was put out
alone, and forgets no line end that is owed.

* `Writes.out_eq`: what a run puts out is the text of its writings.
* `Writes.content`: no writing puts out line ends alone.
* `Wrote.append`: in a run over blocks, the marker of an empty item is alone in its line.
* `at_of_margins`: a writing stands behind the markers of the containers that are open.
-/

set_option autoImplicit false

namespace RichMarkdown.Layout

open State

/-! ## Writings -/

/-- A writing in a layout: a piece of a line, or without a piece the marker of an empty item. -/
structure Write where
  before : State String
  content : Option String

namespace Write

/-- What is put into a line. A marker alone is written without the blank at its end. -/
def body (w : Write) : String :=
  match w.content with
  | some piece => (if w.before.startsLine then w.before.nextMargin else "") ++ piece
  | none => Text.trimmedEnd w.before.nextMargin

/-- All that is put out: the line ends that are owed, and then something of a line. -/
def text (w : Write) : String := w.before.lineEnds ++ w.body

end Write

/-- A run of the layout from one state to another, with its writings in order. -/
inductive Writes : State String → List Write → State String → Prop
  | idle {s t : State String} : t.out = s.out → t.started = s.started → s.owed ≤ t.owed →
    Writes s [] t
  | piece {s : State String} {piece : String} (style : TextStyle) : s.Steady → piece ≠ "" →
    '\n' ∉ piece.toList → Writes s [⟨s, some piece⟩] (s.writeLine PlainText.sink piece style)
  | marker {s : State String} {m : Margin} {ms : List Margin} : s.Steady → s.margins = m :: ms →
    m.used = false → Writes s [⟨s, none⟩] (s.writeUnused PlainText.sink)
  | append {s t u : State String} {vs ws : List Write} : Writes s vs t → Writes t ws u →
    Writes s (vs ++ ws) u

theorem writeLine_eq {s : State String} (hs : s.Steady) {piece : String} (hne : piece ≠ "")
    (style : TextStyle) :
    s.writeLine PlainText.sink piece style = s.afterContent (Write.text ⟨s, some piece⟩) := by
  rw [writeLine_plain hs (by simpa using hne)]
  simp only [Write.text, Write.body, lead, String.append_assoc]

namespace Writes

variable {s t u : State String} {vs ws : List Write}

/-- **A run puts out the text of its writings.** -/
theorem out_eq (h : Writes s ws t) : t.out = s.out ++ String.join (ws.map Write.text) := by
  induction h with
  | idle hout => simpa using hout
  | piece style hs hne => rw [writeLine_eq hs hne]; simp [afterContent]
  | marker _ hm hu => rw [writeUnused_unused hm hu]; simp [afterContent, Write.text, Write.body]
  | append _ _ ih ih' => rw [ih', ih, List.map_append, String.join_append, String.append_assoc]

/-- **Each writing puts something into a line**, and no line end after it. -/
theorem content (h : Writes s ws t) :
    ∀ w ∈ ws, w.content ≠ some "" ∧ EndsInContent w.body ∧ '\n' ∉ w.body.toList := by
  induction h with
  | idle => nofun
  | @piece s piece _ hs hne hline =>
    rw [List.forall_mem_singleton]
    have hpiece : EndsInContent piece := endsInContent_of_notMem (by simpa using hne) hline
    refine ⟨by simpa using hne, hpiece.append _, ?_⟩
    simp only [Write.body, String.toList_append, List.mem_append, not_or]
    refine ⟨?_, hline⟩
    split
    · exact hs.notMem_nextMargin
    · simp
  | @marker s m ms hs hm hu =>
    rw [List.forall_mem_singleton]
    refine ⟨nofun, hs.endsInContent_trimmedEnd hm hu, fun hmem => hs.notMem_nextMargin ?_⟩
    rw [Write.body, Text.trimmedEnd, String.toList_ofList] at hmem
    exact Text.mem_of_mem_trimEnd hmem
  | append _ _ ih ih' => exact List.forall_mem_append.mpr ⟨ih, ih'⟩

/-- A run without writings starts nothing and forgets no line end. -/
theorem of_nil (h : Writes s [] t) : t.started = s.started ∧ s.owed ≤ t.owed := by
  generalize hws : ([] : List Write) = ws at h
  induction h with
  | idle _ hstarted howed => exact ⟨hstarted, howed⟩
  | piece => cases hws
  | marker => cases hws
  | append _ _ ih ih' =>
    obtain ⟨rfl, rfl⟩ := List.append_eq_nil_iff.mp hws.symm
    exact ⟨(ih' rfl).1.trans (ih rfl).1, Nat.le_trans (ih rfl).2 (ih' rfl).2⟩

theorem started (h : Writes s ws t) (hws : ws ≠ []) : t.started = true := by
  induction h with
  | idle => exact absurd rfl hws
  | piece style hs hne => rw [writeLine_eq hs hne]; rfl
  | marker _ hm hu => rw [writeUnused_unused hm hu]; rfl
  | @append s t u vs ws _ h' ih ih' =>
    cases ws with
    | nil => exact h'.of_nil.1.trans (ih (by simpa using hws))
    | cons w ws => exact ih' (List.cons_ne_nil _ _)

/-- The line ends that are owed at first are owed until something is written. -/
theorem owed_head (h : Writes s ws t) : ∀ w ∈ ws.head?, s.owed ≤ w.before.owed := by
  induction h with
  | idle => nofun
  | piece => rintro _ ⟨⟩; exact Nat.le_refl _
  | marker => rintro _ ⟨⟩; exact Nat.le_refl _
  | @append s t u vs ws h _ ih ih' =>
    cases vs with
    | nil => exact fun w hw => Nat.le_trans h.of_nil.2 (ih' w hw)
    | cons v vs => exact ih

end Writes

/-! ## Runs over blocks and inlines -/

/-- A run over blocks, or else over inlines. -/
structure Wrote (block : Bool) (s : State String) (ws : List Write) (t : State String) : Prop where
  writes : Writes s ws t
  /-- What comes after the marker of an empty item begins a new line. -/
  alone : ws.IsChain fun v w => v.content = none → 0 < w.before.owed
  /-- Blocks begin a new line, but for the first of all. -/
  leads : block = true → s.started = true → ∀ w ∈ ws.head?, 0 < w.before.owed
  /-- Inlines hold no items. -/
  pieces : block = false → ∀ w ∈ ws, w.content ≠ none

namespace Wrote

variable {block : Bool} {s t u : State String} {vs ws : List Write}

theorem idle (hout : t.out = s.out) (hstarted : t.started = s.started) (howed : s.owed ≤ t.owed) :
    Wrote block s [] t where
  writes := .idle hout hstarted howed
  alone := .nil
  leads := nofun
  pieces := nofun

theorem append (h : Wrote block s vs t) (h' : Wrote block t ws u) :
    Wrote block s (vs ++ ws) u where
  writes := h.writes.append h'.writes
  alone := by
    refine List.isChain_append.mpr ⟨h.alone, h'.alone, fun v hv w hw hnone => ?_⟩
    have hmem : v ∈ vs := List.mem_of_getLast? hv
    cases block with
    | true => exact h'.leads rfl (h.writes.started (List.ne_nil_of_mem hmem)) w hw
    | false => exact absurd hnone (h.pieces rfl v hmem)
  leads := by
    intro hb hs
    cases vs with
    | nil => exact h'.leads hb (h.writes.of_nil.1.trans hs)
    | cons v vs => exact h.leads hb hs
  pieces := fun hb => List.forall_mem_append.mpr ⟨h.pieces hb, h'.pieces hb⟩

/-- Inlines make a block where a new line is owed. -/
theorem block_of_owed (h : Wrote false s ws t) (howed : s.started = true → 0 < s.owed) :
    Wrote true s ws t where
  writes := h.writes
  alone := h.alone
  leads := fun _ hs w hw => Nat.lt_of_lt_of_le (howed hs) (h.writes.owed_head w hw)
  pieces := nofun

end Wrote

/-! ## Writings at places -/

/-- A writing is where it should be, behind the markers that should be there. -/
structure Write.At (w : Write) (p : Place) : Prop where
  content : w.content = p.content
  margin : w.before.nextMargin = p.borders.front
  /-- Where a container waits for a line, one is begun. -/
  startsLine : p.borders.waiting ≠ [] → w.before.startsLine = true

/-! ### Margins of containers -/

theorem map_spent_margins (b : Borders) : b.margins.map Margin.spent = b.next.margins := by
  simp [Borders.margins, Borders.next, Margin.spent, Function.comp_def]

theorem join_nextMargins (b : Borders) :
    String.join (b.margins.reverse.map fun m => if m.used then m.rest else m.first) =
      b.front := by
  simp only [Borders.margins, Borders.front, List.reverse_append, List.map_append,
    String.join_append, ← List.map_reverse, List.map_map]
  rfl

theorem at_of_margins {s : State String} {b : Borders} (hs : s.Steady) (hm : s.margins = b.margins)
    (content : Option String) : Write.At ⟨s, content⟩ ⟨b, content⟩ where
  content := rfl
  margin := by
    rw [nextMargin, hm, join_nextMargins]
  startsLine := by
    intro hwaiting
    cases hline : s.startsLine with
    | true => rfl
    | false =>
      -- in an open line all margins are used
      have hused := hs.map_spent hline
      obtain ⟨x, xs, hx⟩ := List.exists_cons_of_ne_nil hwaiting
      rw [hm, Borders.margins, show b.waiting = x :: xs from hx] at hused
      have hmargin : x.margin.spent = x.margin := (List.cons.inj hused).1
      cases x <;> cases hmargin

/-! ### Runs at places -/

/-- A run over blocks or inlines whose writings are at some places, in order. -/
def Sets (block : Bool) (ps : List Place) (s t : State String) : Prop :=
  ∃ ws, Wrote block s ws t ∧ List.Forall₂ Write.At ws ps

namespace Sets

variable {block : Bool} {b : Borders} {ps qs : List Place} {s t u : State String}

theorem idle (hout : t.out = s.out) (hstarted : t.started = s.started) (howed : s.owed ≤ t.owed) :
    Sets block [] s t :=
  ⟨[], .idle hout hstarted howed, .nil⟩

theorem append (h : Sets block ps s t) (h' : Sets block qs t u) : Sets block (ps ++ qs) s u := by
  obtain ⟨vs, hvs, hps⟩ := h
  obtain ⟨ws, hws, hqs⟩ := h'
  exact ⟨vs ++ ws, hvs.append hws, List.rel_append hps hqs⟩

theorem block_of_owed (h : Sets false ps s t) (howed : s.started = true → 0 < s.owed) :
    Sets true ps s t := by
  obtain ⟨ws, hws, hps⟩ := h
  exact ⟨ws, hws.block_of_owed howed, hps⟩

theorem piece (hs : s.Steady) (hm : s.margins = b.margins) {piece : String} (hne : piece ≠ "")
    (hline : '\n' ∉ piece.toList) (style : TextStyle) :
    Sets false [⟨b, some piece⟩] s (s.writeLine PlainText.sink piece style) := by
  refine ⟨[⟨s, some piece⟩], ?_, .cons (at_of_margins hs hm _) .nil⟩
  exact
    { writes := .piece style hs hne hline
      alone := .singleton _
      leads := nofun
      pieces := fun _ => List.forall_mem_singleton.mpr nofun }

/-- The marker of an item is put out alone only where a line begins. -/
theorem marker (hs : s.Steady) {x : Sign}
    (hm : s.margins = (b.enter (some x)).margins) :
    Sets true [⟨b.enter (some x), none⟩] s (s.writeUnused PlainText.sink) := by
  have hat := at_of_margins hs hm none
  refine ⟨[⟨s, none⟩], ?_, .cons hat .nil⟩
  exact
    { writes := .marker hs hm rfl
      alone := .singleton _
      leads := by
        rintro - hstarted _ ⟨⟩
        have hline := hat.startsLine (List.cons_ne_nil x b.waiting)
        simpa [startsLine, hs.lineStart, hstarted] using hline
      pieces := nofun }

end Sets

end RichMarkdown.Layout
