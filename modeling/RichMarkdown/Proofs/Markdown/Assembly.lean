import RichMarkdown.Markdown.Assembly

/-!
# Induction over events

What events can do to open elements is little: they start and end elements and add content to the
innermost one. A property of open elements that is kept by each of these (`OpenElement.Invariant`)
is kept by every event (`Invariant.add`), so it holds of the element that stands for the document.

* `OpenElement.Invariant.exists_root`: a document from events is what an element with the property
  has collected.
-/

set_option autoImplicit false

namespace RichMarkdown

/-- An inline that an event adds as it is. -/
def Inline.isLeaf : Inline → Bool
  | .marked _ _ | .image _ _ _ | .directive _ _ _ => false
  | _ => true

namespace OpenElement

/-- A property of open elements that all that events do to them keeps. -/
structure Invariant (P : OpenElement → Prop) : Prop where
  new (element : Element) : P { element }
  loosen {e : OpenElement} : P e → P { e with loose := true }
  setTask {e : OpenElement} (checked : Bool) : P e → P { e with task := some checked }
  addLiteral {e : OpenElement} (s : String) : P e → P (e.addLiteral s)
  addInline {e : OpenElement} {i : Inline} : i.isLeaf = true → P e → P (e.addInline i)
  addHtml {e : OpenElement} (s : String) : P e → P (e.addBlock (.html s))
  addRule {e : OpenElement} : P e → P (e.addBlock .rule)
  wrapInlines {e : OpenElement} : P e → P e.wrapInlines
  handTo {parent e : OpenElement} : P parent → P e → P (parent.handTo e)

end OpenElement

namespace Assembly

/-- All open elements have a property. -/
structure All (P : OpenElement → Prop) (a : Assembly) : Prop where
  top : P a.top
  below : ∀ e ∈ a.below, P e

end Assembly

namespace OpenElement.Invariant

open Assembly

variable {P : OpenElement → Prop} {a : Assembly}

theorem start (hP : Invariant P) (h : a.All P) (element : Element) : (a.start element).All P := by
  refine ⟨hP.new element, List.forall_mem_cons.mpr ⟨?_, h.below⟩⟩
  split
  · unfold noteParagraph
    split
    · exact hP.loosen h.top
    · exact h.top
  · exact h.top

theorem finish (hP : Invariant P) (h : a.All P) : a.finish.All P := by
  unfold Assembly.finish
  split
  · exact h
  · rename_i parent below hb
    obtain ⟨hparent, hbelow⟩ := List.forall_mem_cons.mp (hb ▸ h.below)
    exact ⟨hP.handTo hparent h.top, hbelow⟩

/-- The mark of a task goes to one of the open elements, or to none. -/
theorem task (hP : Invariant P) (checked : Bool) {es : List OpenElement} (h : ∀ e ∈ es, P e) :
    ∀ e ∈ Assembly.setTask checked es, P e := by
  induction es with
  | nil => exact h
  | cons e es ih =>
    obtain ⟨he, hes⟩ := List.forall_mem_cons.mp h
    unfold Assembly.setTask
    split
    · exact List.forall_mem_cons.mpr ⟨hP.setTask checked he, hes⟩
    · exact List.forall_mem_cons.mpr ⟨he, ih hes⟩

/-- **Every event keeps the property.** -/
theorem add (hP : Invariant P) (h : a.All P) (event : Event) : (a.add event).All P := by
  have inline (i : Inline) (hi : i.isLeaf = true) : (a.onTop (·.addInline i)).All P :=
    ⟨hP.addInline hi h.top, h.below⟩
  have literal (s : String) : (a.onTop (·.addLiteral s)).All P :=
    ⟨hP.addLiteral s h.top, h.below⟩
  cases event with
  | start element => exact hP.start h element
  | finish => exact hP.finish h
  | text s =>
    simp only [Assembly.add, Assembly.onTop]
    split
    · exact literal s
    · exact inline (.text s) rfl
  | html s =>
    simp only [Assembly.add, Assembly.onTop]
    split
    · exact literal s
    · exact ⟨hP.addHtml s h.top, h.below⟩
  | code s => exact inline (.code s) rfl
  | inlineHtml s => exact inline (.html s) rfl
  | footnoteReference label => exact inline (.footnote label) rfl
  | softBreak => exact inline .softBreak rfl
  | lineBreak => exact inline .lineBreak rfl
  | rule => exact ⟨hP.addRule h.top, h.below⟩
  | task checked =>
    have hs := hP.task checked (List.forall_mem_cons.mpr ⟨h.top, h.below⟩)
    dsimp only [Assembly.add]
    split
    · rename_i top below he
      obtain ⟨ht, hb⟩ := List.forall_mem_cons.mp (he ▸ hs)
      exact ⟨ht, hb⟩
    · exact h

theorem run (hP : Invariant P) (h : a.All P) (events : List Event) :
    (events.foldl Assembly.add a).All P := by
  induction events generalizing a with
  | nil => exact h
  | cons event events ih => exact ih (hP.add h event)

/-- The elements that are still open end one after the other. -/
theorem root (hP : Invariant P) {below : List OpenElement} {e : OpenElement} (he : P e)
    (hb : ∀ x ∈ below, P x) : P (below.foldl (fun e parent => parent.handTo e) e) := by
  induction below generalizing e with
  | nil => exact he
  | cons parent below ih =>
    obtain ⟨hparent, hb⟩ := List.forall_mem_cons.mp hb
    exact ih (hP.handTo hparent he) hb

/-- **Documents from events are collected by an element with the property.** -/
theorem exists_root (hP : Invariant P) (events : List Event) :
    ∃ e, P e ∧ Document.ofEvents events = e.blocks.reverse := by
  have hempty : Assembly.empty.All P := ⟨hP.new .group, fun _ he => absurd he List.not_mem_nil⟩
  have hrun := hP.run hempty events
  exact ⟨_, hP.wrapInlines (hP.root hrun.top hrun.below), rfl⟩

end OpenElement.Invariant

end RichMarkdown
