import RichMarkdown.Proofs.Directive.Account
import RichMarkdown.Proofs.Text.Lines

/-!
# Directives inside of directives

`Passage.ofText` splits a text and then the bodies of its directives, again and again.
`OnePass.read` reads all lines of a text once and keeps a stack of the open directives.
`ofText_eq_read`: the two give the same passages.

A body that is split starts anew, with no fence and no open directive. The pass over the whole text
is then in the same state but for what lies under it on the stack (`OnePass.State.above`), because a
line that is directive syntax is never inside of a fence (`after_of_directive?`). What lies under it
is not touched before the line that closes the directive (`step_above`, `step_body`); that is where
the split ends the body too (`finish_within`).
-/

set_option autoImplicit false

namespace RichMarkdown

/-- A passage of a text: plain Markdown, or a directive with the passages of its body. -/
inductive Passage where
  | markdown (text : String)
  | leaf (head : Head)
  | container (head : Head) (inner : List Passage)

set_option linter.unusedVariables false in
/-- The passages of a text, by splitting it and then the body of each of its directives. -/
def Passage.ofText (text : String) : List Passage :=
  (Piece.split text).attach.map fun
    | ⟨.markdown t, _⟩ => .markdown t
    | ⟨.leaf head, _⟩ => .leaf head
    | ⟨.container head body, h⟩ => .container head (ofText body)
termination_by text.toList.length
decreasing_by exact Piece.length_body_lt h

/-- The passage of a piece. -/
def Piece.passage : Piece → Passage
  | .markdown t => .markdown t
  | .leaf head => .leaf head
  | .container head body => .container head (Passage.ofText body)

theorem Passage.ofText_eq (text : String) :
    Passage.ofText text = (Piece.split text).map Piece.passage := by
  rw [Passage.ofText, ← List.attach_map_val (l := Piece.split text) (f := Piece.passage)]
  refine List.map_congr_left fun p _ => ?_
  obtain ⟨p, hp⟩ := p
  cases p <;> rfl

namespace OnePass

/-! ## The one pass -/

/-- What has been read of a text or of a body, all lists from the latest to the first. -/
structure Contents where
  passages : List Passage := []
  /-- The plain lines since the last passage. -/
  text : List (List Char) := []

namespace Contents

def addLine (c : Contents) (line : List Char) : Contents := { c with text := line :: c.text }

/-- Makes a passage of the plain lines, or drops them if they are blank. -/
def flush (c : Contents) : Contents :=
  let cs := c.text.reverse.flatten
  if Text.allBlank cs then { c with text := [] }
  else ⟨.markdown (String.ofList cs) :: c.passages, []⟩

def add (c : Contents) (p : Passage) : Contents := ⟨p :: c.flush.passages, []⟩

/-- The passages from the first to the latest. -/
def all (c : Contents) : List Passage := c.flush.passages.reverse

end Contents

/-- An open directive, and what had been read around it when it was opened. -/
structure Level where
  head : Head
  colons : Nat
  outer : Contents

/-- What has been read around a directive once it is closed with these passages in it. -/
def Level.close (l : Level) (inner : List Passage) : Contents :=
  l.outer.add (.container l.head inner)

/-- A pass under way: the contents of the innermost open directive, or of the text if none is open,
and the stack of the open directives, innermost first. -/
structure State where
  fence : Option Fence := none
  contents : Contents := {}
  stack : List Level := []

/-- Reads one line. A start opens a directive; an end closes the innermost one if it has at least as
many colons, and is plain text otherwise. -/
def step (s : State) (line : List Char) : State :=
  let fence := Fence.after s.fence line
  match Piece.directive? s.fence line with
  | some (.containerStart colons head) => ⟨fence, {}, ⟨head, colons, s.contents⟩ :: s.stack⟩
  | some (.containerEnd colons) =>
    match s.stack with
    | top :: stack =>
      if top.colons ≤ colons then ⟨fence, top.close s.contents.all, stack⟩
      else ⟨fence, s.contents.addLine line, top :: stack⟩
    | [] => ⟨fence, s.contents.addLine line, []⟩
  | some (.leaf head) => ⟨fence, s.contents.add (.leaf head), s.stack⟩
  | none => ⟨fence, s.contents.addLine line, s.stack⟩

/-- Closes the open directives, innermost first, around the passages of the innermost one. -/
def closeAll (inner : List Passage) : List Level → List Passage
  | [] => inner
  | l :: ls => closeAll (l.close inner).all ls

def State.finish (s : State) : List Passage := closeAll s.contents.all s.stack

/-- The passages of a text, read line by line. -/
def read (text : String) : List Passage :=
  ((Text.lines text.toList).foldl step {}).finish

theorem fence_step (s : State) (line : List Char) :
    (step s line).fence = Fence.after s.fence line := by
  dsimp only [step]
  split
  case h_2 =>
    split
    · split <;> rfl
    · rfl
  all_goals rfl

/-! ## Contents -/

theorem all_mk (passages : List Passage) (text : List (List Char)) :
    (Contents.mk passages text).all =
      passages.reverse ++ (Piece.plain text).map Piece.passage := by
  dsimp only [Contents.all, Contents.flush, Piece.plain]
  split
  · exact (List.append_nil _).symm
  · exact List.reverse_cons

theorem all_add (c : Contents) (p : Passage) : (c.add p).all = c.all ++ [p] :=
  (all_mk _ []).trans (by rw [List.reverse_cons, List.append_assoc]; rfl)

/-! ## What lies under a directive -/

/-- The pass inside of an open directive, given the pass over its body alone. -/
def State.above (s : State) (l : Level) : State := { s with stack := s.stack ++ [l] }

theorem closeAll_append (l : Level) (stack : List Level) (inner : List Passage) :
    closeAll inner (stack ++ [l]) = (l.close (closeAll inner stack)).all := by
  induction stack generalizing inner with
  | nil => rfl
  | cons top stack ih => exact ih _

/-- At the end of the text a directive is closed around what its body alone gives. -/
theorem finish_above (s : State) (l : Level) :
    (s.above l).finish = l.outer.all ++ [.container l.head s.finish] :=
  (closeAll_append l s.stack _).trans (all_add _ _)

/-- A line that does not close a directive means the same inside of it as in its body alone. -/
theorem step_above (s : State) (l : Level) (line : List Char)
    (h : ∀ n, Piece.directive? s.fence line = some (.containerEnd n) → s.stack = [] →
      ¬ l.colons ≤ n) :
    step (s.above l) line = (step s line).above l := by
  obtain ⟨fence, contents, stack⟩ := s
  dsimp only [step, State.above] at h ⊢
  cases hd : Piece.directive? fence line with
  | none => rfl
  | some d =>
    cases d with
    | containerStart colons head => rfl
    | leaf head => rfl
    | containerEnd n =>
      cases stack with
      | nil => exact if_neg (h n hd rfl)
      | cons top stack =>
        dsimp only [List.cons_append]
        split <;> rfl

/-! ## Bodies -/

/-- A line that is directive syntax leaves no fence open, so what follows is read as at the start
of a text. -/
theorem after_of_directive? {fence : Option Fence} {line : List Char} {d : DirectiveLine}
    (h : Piece.directive? fence line = some d) : Fence.after fence line = none := by
  unfold Piece.directive? at h
  split at h
  · cases h
  · rename_i hc
    simp only [Fence.covers, Bool.or_eq_true, not_or] at hc
    simpa using hc.2

/-- The pass over the body of an open directive has come to this state. -/
structure Body (c : OpenContainer) (s : State) : Prop where
  run : c.body.reverse.foldl step {} = s
  nested : s.stack.map Level.colons = c.nested

/-- A line of the body that does not close the directive takes the two on alike. -/
theorem step_body {c : OpenContainer} {s : State} (h : Body c s) (line : List Char) :
    Body (c.addLine line (Piece.directive? s.fence line)) (step s line) := by
  refine ⟨?_, ?_⟩
  · rw [Piece.body_addLine, List.reverse_cons, List.foldl_append, h.run]
    rfl
  · obtain ⟨fence, contents, stack⟩ := s
    obtain ⟨-, hn⟩ := h
    dsimp only [OpenContainer.addLine, step]
    rw [← hn]
    cases Piece.directive? fence line with
    | none => rfl
    | some d =>
      cases d with
      | containerStart colons head => rfl
      | leaf head => rfl
      | containerEnd n =>
        cases stack with
        | nil => rfl
        | cons top stack =>
          by_cases hle : top.colons ≤ n
          · simp only [List.map_cons, hle, if_true]
          · simp only [List.map_cons, hle, if_false]

/-- The bodies of pieces are read in one pass. -/
def BodiesRead (ps : List Piece) : Prop :=
  ∀ head body, .container head body ∈ ps → Passage.ofText body = read body

theorem BodiesRead.right {ps qs : List Piece} (h : BodiesRead (ps ++ qs)) : BodiesRead qs :=
  fun head body hm => h head body (List.mem_append_right ps hm)

theorem BodiesRead.tail {p : Piece} {ps : List Piece} (h : BodiesRead (p :: ps)) : BodiesRead ps :=
  fun head body hm => h head body (List.mem_cons_of_mem p hm)

/-- A directive is closed around what the pass over its body has come to. -/
theorem passage_piece {c : OpenContainer} {s : State} {ps : List Piece} (hs : Body c s)
    (hl : Text.AreLines c.body.reverse) (hb : BodiesRead (c.piece :: ps)) :
    c.piece.passage = .container c.head s.finish := by
  have hr := hb c.head _ List.mem_cons_self
  rw [OpenContainer.piece, Piece.passage, hr, read, String.toList_ofList, Text.lines_flatten hl,
    hs.run]

/-- Whether a line ends the directive itself. -/
def Closes (c : OpenContainer) (d : Option DirectiveLine) : Prop :=
  ∃ n, d = some (.containerEnd n) ∧ c.isClosedBy n = true

theorem within_of_closes {fence : Option Fence} {c : OpenContainer} {line : List Char}
    (h : Closes c (Piece.directive? fence line)) (lines : List (List Char)) :
    Piece.within fence c (line :: lines) =
      c.piece :: Piece.outside (Fence.after fence line) [] lines := by
  obtain ⟨n, hd, hc⟩ := h
  simp only [Piece.within, hd, hc, if_true]

theorem within_of_not_closes {fence : Option Fence} {c : OpenContainer} {line : List Char}
    (h : ¬ Closes c (Piece.directive? fence line)) (lines : List (List Char)) :
    Piece.within fence c (line :: lines) =
      Piece.within (Fence.after fence line) (c.addLine line (Piece.directive? fence line))
        lines := by
  simp only [Piece.within]
  split
  case h_1 n hd =>
    exact if_neg fun hc => h ⟨n, hd, hc⟩
  case h_2 => rfl

/-- The line that ends a directive closes it around what the pass over its body has come to. -/
theorem step_above_of_closes {c : OpenContainer} {s : State} {l : Level} {line : List Char}
    (hs : Body c s) (hc : l.colons = c.colons)
    (h : Closes c (Piece.directive? s.fence line)) :
    step (s.above l) line = ⟨Fence.after s.fence line, l.close s.finish, []⟩ := by
  obtain ⟨fence, contents, stack⟩ := s
  obtain ⟨n, hd, hclosed⟩ := h
  obtain ⟨hnested, hle⟩ : c.nested = [] ∧ c.colons ≤ n := by
    simpa [OpenContainer.isClosedBy] using hclosed
  obtain rfl : stack = [] := List.map_eq_nil_iff.mp (hs.nested.trans hnested)
  dsimp only [step, State.above] at hd ⊢
  rw [hd]
  exact if_pos (hc ▸ hle)

theorem step_above_of_not_closes {c : OpenContainer} {s : State} {l : Level} {line : List Char}
    (hs : Body c s) (hc : l.colons = c.colons)
    (h : ¬ Closes c (Piece.directive? s.fence line)) :
    step (s.above l) line = (step s line).above l := by
  refine step_above s l line fun n hd hstack hle => h ⟨n, hd, ?_⟩
  have hnested : c.nested = [] := by rw [← hs.nested, hstack, List.map_nil]
  simp [OpenContainer.isClosedBy, hnested, ← hc, hle]

mutual

theorem finish_outside (fence : Option Fence) (passages : List Passage) (text : List (List Char)) :
    ∀ lines : List (List Char), Text.AreLines lines →
      BodiesRead (Piece.outside fence text lines) →
      (lines.foldl step ⟨fence, ⟨passages, text⟩, []⟩).finish =
        passages.reverse ++ (Piece.outside fence text lines).map Piece.passage
  | [], _, _ => all_mk passages text
  | line :: lines, hl, hb => by
    have hall := all_mk passages text
    rw [List.foldl_cons]
    simp only [Piece.outside] at hb ⊢
    dsimp only [step]
    cases hd : Piece.directive? fence line with
    | none =>
      rw [hd] at hb
      exact finish_outside _ passages (line :: text) lines hl.tail hb
    | some d =>
      rw [hd] at hb
      cases d with
      | containerStart colons head =>
        -- the body starts without a fence and without open directives
        have hw := finish_within (c := { head, colons }) (s := {})
          (l := ⟨head, colons, ⟨passages, text⟩⟩) ⟨rfl, rfl⟩ rfl rfl lines hl.tail
        rw [after_of_directive? hd] at hb ⊢
        dsimp only at hb ⊢
        rw [List.map_append, ← List.append_assoc, ← hall]
        exact hw hb.right
      | leaf head =>
        have ho := finish_outside (Fence.after fence line)
          (.leaf head :: (Contents.mk passages text).flush.passages) [] lines hl.tail hb.right.tail
        dsimp only
        rw [List.map_append, ← List.append_assoc, ← hall, List.map_cons]
        rwa [List.reverse_cons, List.append_assoc] at ho
      | containerEnd n => exact finish_outside _ passages (line :: text) lines hl.tail hb

theorem finish_within {c : OpenContainer} {s : State} {l : Level} (hs : Body c s)
    (hh : l.head = c.head) (hc : l.colons = c.colons) :
    ∀ lines : List (List Char), Text.AreLines (c.body.reverse ++ lines) →
      BodiesRead (Piece.within s.fence c lines) →
      (lines.foldl step (s.above l)).finish =
        l.outer.all ++ (Piece.within s.fence c lines).map Piece.passage
  | [], hl, hb => by
    simp only [Piece.within] at hb ⊢
    rw [List.map_singleton, passage_piece hs hl.left hb, ← hh]
    exact finish_above s l
  | line :: lines, hl, hb => by
    rw [List.foldl_cons]
    by_cases hclose : Closes c (Piece.directive? s.fence line)
    · rw [within_of_closes hclose] at hb ⊢
      rw [step_above_of_closes hs hc hclose, List.map_cons, passage_piece hs hl.left hb, ← hh]
      have ho := finish_outside (Fence.after s.fence line)
        (.container l.head s.finish :: l.outer.flush.passages) [] lines hl.right.tail hb.tail
      rwa [List.reverse_cons, List.append_assoc] at ho
    · rw [within_of_not_closes hclose] at hb ⊢
      rw [step_above_of_not_closes hs hc hclose]
      have hl' : Text.AreLines
          ((c.addLine line (Piece.directive? s.fence line)).body.reverse ++ lines) := by
        rwa [Piece.body_addLine, List.reverse_cons, List.append_assoc]
      rw [← fence_step] at hb ⊢
      exact finish_within (step_body hs line) hh hc lines hl' hb

end

/-- The pieces of a text, each with its body read in one pass, are what one pass gives. -/
theorem read_eq {text : String} (hb : BodiesRead (Piece.split text)) :
    read text = (Piece.split text).map Piece.passage :=
  finish_outside none [] [] _ (Text.areLines_lines _) hb

/-- **Splitting again and again is one pass**: it ends, since bodies are shorter than the text they
come from, and it gives the passages of the pass that keeps a stack. -/
theorem ofText_eq_read (text : String) :
    (∀ head body, .container head body ∈ Piece.split text → body.length < text.length) ∧
      Passage.ofText text = read text := by
  refine ⟨fun head body h => Piece.length_body_lt h, ?_⟩
  induction hn : text.length using Nat.strongRecOn generalizing text with
  | ind n ih =>
    have hb : BodiesRead (Piece.split text) := fun head body h =>
      ih _ (hn ▸ Piece.length_body_lt h) body rfl
    rw [Passage.ofText_eq, read_eq hb]

end OnePass

end RichMarkdown
