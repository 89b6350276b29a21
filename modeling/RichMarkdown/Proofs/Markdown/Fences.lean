import RichMarkdown.Directive.Piece
import RichMarkdown.Proofs.Text.Runs

/-!
# Fenced code by the rule

The rule for fenced code in Markdown (`Fence.Opens`, `Fence.Closes`): a fence is indented by at most
three spaces and has at least three marks, no back quote follows an opening run of back quotes, and
nothing but spaces and tabs follows a closing run. `Fence.Rule` says what it makes of one line, and
`Fence.Ruled` of a list of lines. The fences that are found line by line follow the rule up to the
first line that is misread: every blank counts as indentation and as the end of a line there, and
back quotes may follow back quotes.

* `Fence.ruled_afterLines`: as long as no line is misread, the state is the one of the rule.
* `Fence.follows_iff`: lines are taken for code exactly as the rule says, unless one is misread.
-/

set_option autoImplicit false

namespace RichMarkdown

namespace Fence

/-! ## The rule -/

/-- The column in which the text of a line starts, with tabs to every fourth column. -/
def columnFrom (column : Nat) : List Char → Nat
  | [] => column
  | c :: cs =>
    if c = ' ' then columnFrom (column + 1) cs
    else if c = '\t' then columnFrom (column + (4 - column % 4)) cs
    else column

/-- By how many columns a line is indented. -/
def indentation (line : List Char) : Nat := columnFrom 0 line

/-- A line is made of the blanks `gap`, a run of `n` marks and the text `rest` behind it. -/
structure Marked (line gap : List Char) (mark : Char) (n : Nat) (rest : List Char) : Prop where
  eq : line = gap ++ (List.replicate n mark ++ rest)
  blank : Text.allBlank gap = true
  visible : Text.isBlank mark = false
  pos : 0 < n
  stops : rest.head? ≠ some mark

/-- A fence is made of at least three back quotes or tildes. -/
structure Proper (f : Fence) : Prop where
  mark : f.mark = '\x60' ∨ f.mark = '~'
  length : 3 ≤ f.length

/-- A line opens a fence: behind at most three spaces it has the marks, and then a text, without
back quotes if these are the marks. -/
def Opens (line : List Char) (f : Fence) : Prop :=
  f.Proper ∧ ∃ spaces ≤ 3, ∃ info, Marked line (List.replicate spaces ' ') f.mark f.length info ∧
    (f.mark = '\x60' → '\x60' ∉ info)

/-- The characters that may follow the marks of a closing fence. -/
def endsLine (c : Char) : Bool := c == ' ' || c == '\t' || c == '\n' || c == '\r'

/-- A line closes a fence: behind at most three spaces it has at least as many of the marks, and
then nothing but spaces and tabs. -/
def Closes (line : List Char) (f : Fence) : Prop :=
  ∃ spaces ≤ 3, ∃ n ≥ f.length, ∃ blanks,
    Marked line (List.replicate spaces ' ') f.mark n blanks ∧ ∀ c ∈ blanks, endsLine c = true

/-- What the rule makes of a line: the fences that are open before and after it. -/
inductive Rule : Option Fence → List Char → Option Fence → Prop
  | opens {line : List Char} {f : Fence} : Opens line f → Rule none line (some f)
  | outside {line : List Char} : (∀ f, ¬ Opens line f) → Rule none line none
  | closes {line : List Char} {f : Fence} : Closes line f → Rule (some f) line none
  | inside {line : List Char} {f : Fence} : ¬ Closes line f → Rule (some f) line (some f)

/-- The fence that is open after some lines by the rule. -/
inductive Ruled : List (List Char) → Option Fence → Prop
  | start : Ruled [] none
  | line {lines : List (List Char)} {line : List Char} {s s' : Option Fence} :
      Ruled lines s → Rule s line s' → Ruled (lines ++ [line]) s'

/-! ## Lines that are misread -/

/-- A line on which the rule is missed. It is taken for an opening fence although another back quote
follows the back quotes, or for a fence although the blanks before the marks are not all spaces, or
for a closing fence although the blanks behind the marks are not all spaces and tabs. -/
inductive Misread : Option Fence → List Char → Prop
  | span {line gap info : List Char} {n : Nat} : Marked line gap '\x60' n info → 3 ≤ n →
      '\x60' ∈ info → Misread none line
  | opening {line gap info : List Char} {f : Fence} : f.Proper →
      Marked line gap f.mark f.length info → (∃ c ∈ gap, c ≠ ' ') → Misread none line
  | closing {line gap blanks : List Char} {n : Nat} {f : Fence} : Marked line gap f.mark n blanks →
      f.length ≤ n → Text.allBlank blanks = true →
      ((∃ c ∈ gap, c ≠ ' ') ∨ ∃ c ∈ blanks, endsLine c = false) → Misread (some f) line

/-! ## Fences as they are found -/

section

variable {f : Fence} {line gap rest : List Char} {mark : Char} {n : Nat}

theorem Marked.gap_run (h : Marked line gap mark n rest) :
    Text.Run Text.isBlank gap (List.replicate n mark ++ rest) := by
  refine ⟨Text.allBlank_iff.mp h.blank, fun c hc => ?_⟩
  obtain ⟨m, rfl⟩ := Nat.exists_eq_succ_of_ne_zero (Nat.ne_of_gt h.pos)
  obtain rfl : mark = c := by simpa [List.replicate_succ] using hc
  exact h.visible

theorem Marked.mark_run (h : Marked line gap mark n rest) :
    Text.Run (· == mark) (List.replicate n mark) rest := by
  refine ⟨fun c hc => by rw [List.eq_of_mem_replicate hc]; exact beq_self_eq_true mark,
    fun c hc => beq_false_of_ne ?_⟩
  rintro rfl
  exact h.stops hc

/-- The parts of a line are settled. -/
theorem Marked.unique {gap' rest' : List Char} {mark' : Char} {n' : Nat}
    (h : Marked line gap mark n rest) (h' : Marked line gap' mark' n' rest') :
    gap = gap' ∧ mark = mark' ∧ n = n' ∧ rest = rest' := by
  have hline := h.eq.symm.trans h'.eq
  have hgap : gap = gap' := by
    rw [← h.gap_run.takeWhile, hline, h'.gap_run.takeWhile]
  subst hgap
  have hmarks := List.append_cancel_left hline
  have hmark : mark = mark' := by
    have hhead := congrArg List.head? hmarks
    simpa [List.head?_append, List.head?_replicate, Nat.ne_of_gt h.pos, Nat.ne_of_gt h'.pos]
      using hhead
  subst hmark
  have hrun : List.replicate n mark = List.replicate n' mark := by
    rw [← h.mark_run.takeWhile, hmarks, h'.mark_run.takeWhile]
  rw [hrun] at hmarks
  exact ⟨rfl, rfl, by simpa using congrArg List.length hrun, List.append_cancel_left hmarks⟩

/-- Every line that is not blank has such parts. -/
theorem exists_marked {c : Char} {cs : List Char} (h : Text.trimStart line = c :: cs) :
    ∃ gap n rest, Marked line gap c n rest ∧ runLength c (c :: cs) = n ∧
      (c :: cs).dropWhile (· == c) = rest := by
  obtain ⟨gap, behind, rfl, hgap⟩ := Text.exists_run Text.isBlank line
  rw [Text.trimStart_run hgap] at h
  obtain ⟨run, rest, hrest, hrun⟩ := Text.exists_run (· == c) behind
  have hreplicate : run = List.replicate run.length c :=
    List.eq_replicate_of_mem fun d hd => eq_of_beq (hrun.all d hd)
  refine ⟨gap, run.length, rest, ⟨by rw [hrest, ← hreplicate], Text.allBlank_iff.mpr hgap.all,
    hgap.stops c (by rw [h]; rfl), ?_, fun hc => ?_⟩, ?_, ?_⟩
  · refine List.length_pos_iff.mpr ?_
    rintro rfl
    rw [List.nil_append] at hrest
    have hstop := hrun.stops c (by rw [← hrest, h]; rfl)
    rw [beq_self_eq_true] at hstop
    cases hstop
  · have hstop := hrun.stops c hc
    rw [beq_self_eq_true] at hstop
    cases hstop
  · rw [runLength, ← h, hrest, hrun.takeWhile]
  · rw [← h, hrest, hrun.dropWhile]

theorem Marked.exists_trimStart (h : Marked line gap mark n rest) :
    ∃ cs, Text.trimStart line = mark :: cs ∧ runLength mark (mark :: cs) = n ∧
      (mark :: cs).dropWhile (· == mark) = rest := by
  obtain ⟨m, rfl⟩ := Nat.exists_eq_succ_of_ne_zero (Nat.ne_of_gt h.pos)
  refine ⟨List.replicate m mark ++ rest, ?_, ?_, ?_⟩
  · rw [h.eq, Text.trimStart_run h.gap_run]
    rfl
  · rw [runLength, ← List.cons_append, ← List.replicate_succ, h.mark_run.takeWhile,
      List.length_replicate]
  · rw [← List.cons_append, ← List.replicate_succ, h.mark_run.dropWhile]

/-- What is found as an opening fence. -/
theorem opening?_eq_some_iff : opening? line = some f ↔
    f.Proper ∧ ∃ gap info, Marked line gap f.mark f.length info := by
  constructor
  · intro h
    rw [opening?] at h
    split at h
    · cases h
    · rename_i c cs hline
      obtain ⟨gap, n, info, hmarked, hn, -⟩ := exists_marked hline
      dsimp only at h
      rw [hn] at h
      split at h
      · rename_i hfence
        obtain rfl := Option.some.inj h
        rw [Bool.and_eq_true, Bool.or_eq_true, beq_iff_eq, beq_iff_eq, decide_eq_true_eq] at hfence
        exact ⟨⟨hfence.1, hfence.2⟩, gap, info, hmarked⟩
      · cases h
  · rintro ⟨hf, gap, info, hmarked⟩
    obtain ⟨cs, hline, hn, -⟩ := hmarked.exists_trimStart
    have hfence : ((f.mark == '\x60' || f.mark == '~') && 3 ≤ f.length) = true := by
      simpa using ⟨hf.mark, hf.length⟩
    rw [opening?, hline]
    dsimp only
    rw [hn, if_pos hfence]

/-- What is found as a closing fence. -/
theorem isClosedBy_iff (hf : f.Proper) : f.isClosedBy line = true ↔
    ∃ gap n blanks, Marked line gap f.mark n blanks ∧ f.length ≤ n ∧
      Text.allBlank blanks = true := by
  rw [isClosedBy, Bool.and_eq_true, decide_eq_true_eq]
  have hlength := hf.length
  constructor
  · rintro ⟨hle, hblanks⟩
    cases hline : Text.trimStart line with
    | nil =>
      rw [hline, runLength] at hle
      simp at hle
      omega
    | cons c cs =>
      obtain ⟨gap, n, blanks, hmarked, hn, hrest⟩ := exists_marked hline
      have hc : c = f.mark := by
        by_contra hne
        rw [hline, runLength, List.takeWhile_cons_of_neg (by simpa using hne)] at hle
        simp at hle
        omega
      subst hc
      rw [hline, hrest] at hblanks
      rw [hline, hn] at hle
      exact ⟨gap, n, blanks, hmarked, hle, hblanks⟩
  · rintro ⟨gap, n, blanks, hmarked, hle, hblanks⟩
    obtain ⟨cs, hline, hn, hrest⟩ := hmarked.exists_trimStart
    rw [hline, hn, hrest]
    exact ⟨hle, hblanks⟩

/-! ## One line -/

theorem Opens.opening? (h : Opens line f) : Fence.opening? line = some f := by
  obtain ⟨hf, spaces, -, info, hmarked, -⟩ := h
  exact opening?_eq_some_iff.mpr ⟨hf, _, info, hmarked⟩

theorem isBlank_of_endsLine {c : Char} (h : endsLine c = true) : Text.isBlank c = true := by
  simp only [endsLine, Bool.or_eq_true, beq_iff_eq] at h
  rcases h with ((rfl | rfl) | rfl) | rfl <;> decide

theorem Closes.isClosedBy (h : Closes line f) (hf : f.Proper) : f.isClosedBy line = true := by
  obtain ⟨spaces, -, n, hn, blanks, hmarked, hblanks⟩ := h
  exact (isClosedBy_iff hf).mpr ⟨_, n, blanks, hmarked, hn,
    Text.allBlank_iff.mpr fun c hc => isBlank_of_endsLine (hblanks c hc)⟩

theorem le_columnFrom (column : Nat) (cs : List Char) : column ≤ columnFrom column cs := by
  induction cs generalizing column with
  | nil => exact Nat.le_refl _
  | cons c cs ih =>
    rw [columnFrom]
    split
    · exact Nat.le_trans (Nat.le_add_right _ _) (ih _)
    · split
      · exact Nat.le_trans (Nat.le_add_right _ _) (ih _)
      · exact Nat.le_refl _

theorem columnFrom_spaces (column spaces : Nat) (cs : List Char) :
    columnFrom column (List.replicate spaces ' ' ++ cs) = columnFrom (column + spaces) cs := by
  induction spaces generalizing column with
  | zero => rfl
  | succ spaces ih =>
    rw [List.replicate_succ, List.cons_append, columnFrom, if_pos rfl, ih]
    congr 1
    omega

/-- Spaces that indent a line by less than four columns are at most three. -/
theorem Marked.exists_spaces (hline : Marked line gap mark n rest) (h : indentation line < 4)
    (hgap : ∀ c ∈ gap, c = ' ') : ∃ spaces ≤ 3, gap = List.replicate spaces ' ' := by
  have hspaces : gap = List.replicate gap.length ' ' := List.eq_replicate_of_mem hgap
  refine ⟨gap.length, ?_, hspaces⟩
  rw [indentation, hline.eq, hspaces, columnFrom_spaces] at h
  have hle := le_columnFrom (0 + gap.length) (List.replicate n mark ++ rest)
  omega

/-- Where a line is not misread, the rule is followed. -/
theorem rule_after {s : Option Fence} (hs : ∀ f ∈ s, f.Proper) (h : indentation line < 4)
    (hread : ¬ Misread s line) : Rule s line (after s line) := by
  cases s with
  | none =>
    rw [after]
    cases hopening : Fence.opening? line with
    | none => exact .outside fun f hf => by cases hf.opening?.symm.trans hopening
    | some f =>
      obtain ⟨hf, gap, info, hmarked⟩ := opening?_eq_some_iff.mp hopening
      have hgap : ∀ c ∈ gap, c = ' ' := by
        intro c hc
        by_contra hne
        exact hread (.opening hf hmarked ⟨c, hc, hne⟩)
      obtain ⟨spaces, hspaces, rfl⟩ := hmarked.exists_spaces h hgap
      refine .opens ⟨hf, spaces, hspaces, info, hmarked, fun hquote hinfo => hread ?_⟩
      exact .span (hquote ▸ hmarked) hf.length hinfo
  | some f =>
    have hf := hs f rfl
    rw [after]
    split
    · rename_i hclosed
      obtain ⟨gap, n, blanks, hmarked, hn, hblanks⟩ := (isClosedBy_iff hf).mp hclosed
      have hgap : ∀ c ∈ gap, c = ' ' := by
        intro c hc
        by_contra hne
        exact hread (.closing hmarked hn hblanks (.inl ⟨c, hc, hne⟩))
      obtain ⟨spaces, hspaces, rfl⟩ := hmarked.exists_spaces h hgap
      refine .closes ⟨spaces, hspaces, n, hn, blanks, hmarked, fun c hc => ?_⟩
      by_contra hends
      exact hread (.closing hmarked hn hblanks (.inr ⟨c, hc, Bool.not_eq_true _ ▸ hends⟩))
    · rename_i hopen
      exact .inside fun hcloses => hopen (hcloses.isClosedBy hf)

/-- Where a line is misread, a fence is opened or closed against the rule. -/
theorem Misread.rule {s : Option Fence} (hread : Misread s line) (hs : ∀ f ∈ s, f.Proper) :
    Rule s line s ∧ (after s line).isSome = ! s.isSome := by
  have hspaces {gap : List Char} {spaces : Nat} (hne : ∃ c ∈ gap, c ≠ ' ') :
      gap ≠ List.replicate spaces ' ' := by
    rintro rfl
    obtain ⟨c, hc, hne⟩ := hne
    exact hne (List.eq_of_mem_replicate hc)
  cases hread with
  | @span _ gap info n hmarked hn hinfo =>
    have hopening : Fence.opening? line = some ⟨'\x60', n⟩ :=
      opening?_eq_some_iff.mpr ⟨⟨.inl rfl, hn⟩, gap, info, hmarked⟩
    refine ⟨.outside ?_, by rw [after, hopening]; rfl⟩
    rintro f ⟨-, spaces, -, info', hmarked', hquote⟩
    obtain ⟨-, hmark, -, rfl⟩ := hmarked.unique hmarked'
    exact hquote hmark.symm hinfo
  | @opening _ gap info f hf hmarked hne =>
    have hopening : Fence.opening? line = some f :=
      opening?_eq_some_iff.mpr ⟨hf, gap, info, hmarked⟩
    refine ⟨.outside ?_, by rw [after, hopening]; rfl⟩
    rintro f' ⟨-, spaces, -, info', hmarked', -⟩
    exact hspaces hne (hmarked.unique hmarked').1
  | @closing _ gap blanks n f hmarked hn hblanks hne =>
    have hclosed : f.isClosedBy line = true :=
      (isClosedBy_iff (hs f rfl)).mpr ⟨gap, n, blanks, hmarked, hn, hblanks⟩
    refine ⟨.inside ?_, by rw [after, if_pos hclosed]; rfl⟩
    rintro ⟨spaces, -, n', -, blanks', hmarked', hends⟩
    obtain ⟨hgap, -, -, rfl⟩ := hmarked.unique hmarked'
    obtain hne | ⟨c, hc, hnot⟩ := hne
    · exact hspaces hne hgap
    · cases (hends c hc).symm.trans hnot

/-- A line without back quotes that is indented by spaces and has no other blanks than spaces, tabs
and its end. -/
def isPlain (line : List Char) : Bool :=
  line.all (fun c => c != '\x60' && (! Text.isBlank c || endsLine c)) &&
    (line.takeWhile Text.isBlank).all (· == ' ')

/-- **A plain line is never misread.** -/
theorem not_misread_of_isPlain {s : Option Fence} (h : isPlain line = true) :
    ¬ Misread s line := by
  rw [isPlain, Bool.and_eq_true, List.all_eq_true, List.all_eq_true] at h
  obtain ⟨hline, hgap⟩ := h
  have hspaces {gap rest : List Char} {mark : Char} {n : Nat}
      (hmarked : Marked line gap mark n rest) : ∀ c ∈ gap, c = ' ' := by
    rw [hmarked.eq, hmarked.gap_run.takeWhile] at hgap
    exact fun c hc => eq_of_beq (hgap c hc)
  intro hread
  cases hread with
  | span hmarked _ hinfo =>
    have hquote := hline '\x60' (by rw [hmarked.eq]; simp [hinfo])
    simp at hquote
  | opening _ hmarked hne =>
    obtain ⟨c, hc, hne⟩ := hne
    exact hne (hspaces hmarked c hc)
  | closing hmarked _ hblanks hne =>
    obtain ⟨c, hc, hne⟩ | ⟨c, hc, hends⟩ := hne
    · exact hne (hspaces hmarked c hc)
    · have hblank := hline c (by rw [hmarked.eq]; simp [hc])
      rw [Text.allBlank_iff.mp hblanks c hc, hends] at hblank
      simp at hblank

theorem Rule.unique {s t u : Option Fence} (h : Rule s line t) (h' : Rule s line u) : t = u := by
  cases h with
  | opens hf =>
    cases h' with
    | opens hg => exact hf.opening?.symm.trans hg.opening?
    | outside hnone => exact absurd hf (hnone _)
  | outside hnone =>
    cases h' with
    | opens hg => exact absurd hg (hnone _)
    | outside _ => rfl
  | closes hc =>
    cases h' with
    | closes _ => rfl
    | inside hn => exact absurd hc hn
  | inside hn =>
    cases h' with
    | closes hc => exact absurd hc hn
    | inside _ => rfl

/-! ## All lines -/

variable {lines before : List (List Char)} {s t : Option Fence}

theorem Ruled.exists_rule (h : Ruled (before ++ [line]) t) :
    ∃ s, Ruled before s ∧ Rule s line t := by
  generalize hlines : before ++ [line] = lines at h
  cases h with
  | start => simp at hlines
  | line hruled hrule =>
    obtain ⟨rfl, hline⟩ := List.append_inj' hlines rfl
    obtain rfl := List.singleton_inj.mp hline
    exact ⟨_, hruled, hrule⟩

/-- The rule settles the state after any lines. -/
theorem Ruled.unique (h : Ruled lines s) (h' : Ruled lines t) : s = t := by
  induction h generalizing t with
  | start =>
    generalize hlines : ([] : List (List Char)) = lines at h'
    cases h' with
    | start => rfl
    | line _ _ => simp at hlines
  | line _ hrule ih =>
    obtain ⟨s, hruled, hrule'⟩ := h'.exists_rule
    obtain rfl := ih hruled
    exact hrule.unique hrule'

theorem Ruled.proper (h : Ruled lines s) : ∀ f ∈ s, f.Proper := by
  induction h with
  | start => simp
  | line _ hrule ih =>
    cases hrule with
    | opens hf =>
      intro f hmem
      obtain rfl := Option.some.inj hmem
      exact hf.1
    | outside _ => simp
    | closes _ => simp
    | inside _ => exact ih

/-- The fence that is found open after some lines. -/
def afterLines (lines : List (List Char)) : Option Fence := lines.foldl after none

theorem afterLines_concat (lines : List (List Char)) (line : List Char) :
    afterLines (lines ++ [line]) = after (afterLines lines) line := by
  rw [afterLines, List.foldl_concat, afterLines]

/-- No line is misread in the state that the rule gives for it. -/
def WellRead (lines : List (List Char)) : Prop :=
  ∀ before line s, before ++ [line] <+: lines → Ruled before s → ¬ Misread s line

/-- **Lines that are not misread** lead to the state of the rule. -/
theorem ruled_afterLines (h : ∀ line ∈ lines, indentation line < 4) (hread : WellRead lines) :
    Ruled lines (afterLines lines) := by
  induction lines using List.reverseRecOn with
  | nil => exact .start
  | append_singleton lines line ih =>
    have hstart := List.prefix_append lines [line]
    have hruled := ih (fun l hl => h l (hstart.subset hl))
      fun before l s hl => hread before l s (hl.trans hstart)
    rw [afterLines_concat]
    exact .line hruled (rule_after hruled.proper (h line (by simp))
      (hread lines line _ (List.prefix_refl _) hruled))

/-- Lines are taken for fenced code as the rule says: after each of them a fence is open if one is
by the rule, and directives are not looked for exactly on the lines of fenced code, with the fences
at both ends. -/
structure Follows (lines : List (List Char)) : Prop where
  state : ∀ before, before <+: lines →
    ∃ s, Ruled before s ∧ (afterLines before).isSome = s.isSome
  ignored : ∀ before line, before ++ [line] <+: lines → ∃ s t, Ruled before s ∧ Rule s line t ∧
    Piece.directive? (afterLines before) line =
      if s.isSome || t.isSome then none else DirectiveLine.read? line

/-- On the first line that is misread the state of the rule is lost. -/
theorem Follows.not_misread (h : Follows lines) (hstart : before ++ [line] <+: lines)
    (hruled : Ruled before (afterLines before)) : ¬ Misread (afterLines before) line := by
  intro hread
  obtain ⟨hrule, hflipped⟩ := hread.rule hruled.proper
  obtain ⟨t, ht, hstate⟩ := h.state _ hstart
  obtain rfl := ht.unique (.line hruled hrule)
  rw [afterLines_concat, hflipped] at hstate
  cases hsome : (afterLines before).isSome <;> rw [hsome] at hstate <;> cases hstate

/-- Up to every line the state that is found is the one of the rule. -/
theorem Follows.ruled (h : Follows lines) (hindent : ∀ line ∈ lines, indentation line < 4)
    (hstart : before <+: lines) : Ruled before (afterLines before) := by
  induction before using List.reverseRecOn with
  | nil => exact .start
  | append_singleton before line ih =>
    have hruled := ih ((List.prefix_append before [line]).trans hstart)
    have hline : line ∈ lines := hstart.subset (by simp)
    rw [afterLines_concat]
    exact .line hruled
      (rule_after hruled.proper (hindent line hline) (h.not_misread hstart hruled))

theorem covers_eq (s : Option Fence) (line : List Char) :
    covers s line = (s.isSome || (after s line).isSome) := by
  cases s with
  | none => simp [covers, changes, after]
  | some f => cases hclosed : f.isClosedBy line <;> simp [covers, changes, after, hclosed]

/-- **Fenced code is found by the rule** exactly when no line is misread. -/
theorem follows_iff (h : ∀ line ∈ lines, indentation line < 4) :
    Follows lines ↔ WellRead lines := by
  constructor
  · intro hfollows before line s hstart hs
    have hbefore := (List.prefix_append before [line]).trans hstart
    obtain rfl := hs.unique (hfollows.ruled h hbefore)
    exact hfollows.not_misread hstart hs
  · intro hread
    have hruled {before : List (List Char)} (hb : before <+: lines) :
        Ruled before (afterLines before) :=
      ruled_afterLines (fun l hl => h l (hb.subset hl))
        fun b l s hl => hread b l s (hl.trans hb)
    refine ⟨fun before hb => ⟨_, hruled hb, rfl⟩, fun before line hb => ?_⟩
    have hbefore := (List.prefix_append before [line]).trans hb
    obtain ⟨s, hs, hrule⟩ := (hruled hb).exists_rule
    obtain rfl := hs.unique (hruled hbefore)
    refine ⟨_, _, hs, hrule, ?_⟩
    rw [Piece.directive?, covers_eq, afterLines_concat]

end

theorem follows_tildes :
    let lines := ["  ~~~ a\n".toList, "::toc\n".toList, "~~~~ \t\n".toList, "::toc".toList]
    (∀ line ∈ lines, indentation line < 4) ∧ Follows lines := by
  have hindent : ∀ line ∈ ["  ~~~ a\n".toList, "::toc\n".toList, "~~~~ \t\n".toList,
      "::toc".toList], indentation line < 4 := by
    decide
  have hplain : ∀ line ∈ ["  ~~~ a\n".toList, "::toc\n".toList, "~~~~ \t\n".toList,
      "::toc".toList], isPlain line = true := by
    decide
  refine ⟨hindent, (follows_iff hindent).mpr fun before line s hstart _ => ?_⟩
  exact not_misread_of_isPlain (hplain line (hstart.subset (by simp)))

/-- A code span with three back quotes is taken for an opening fence. -/
theorem not_follows : ¬ ∀ lines, (∀ line ∈ lines, indentation line < 4) → Follows lines := by
  intro h
  have hfollows := h ["\x60\x60\x60a\x60\x60\x60".toList] (by decide)
  have hmarked : Marked "\x60\x60\x60a\x60\x60\x60".toList [] '\x60' 3
      "a\x60\x60\x60".toList :=
    ⟨by decide, by decide, by decide, by decide, by decide⟩
  have hread := Misread.span hmarked (Nat.le_refl 3) (by decide)
  exact hfollows.not_misread (List.prefix_refl _) .start hread

end Fence

end RichMarkdown
