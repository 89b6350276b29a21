import RichMarkdown.Proofs.Command.Opening

/-!
# Commands set apart

A paragraph with a command line is cut into the lines before the first command line and into
sections, each a command line with the lines up to the next one (`Command.Cut`). What stands for the
paragraph is a paragraph of the lines before, if they hold anything, and one command for each
section (`Command.Divided`); lines are put together with the soft breaks between them, but nothing
stands for the empty lines before the first content of a block (`joined`).

* `splitCommands_parts`: setting commands apart changes only paragraphs with a command line, which
  are divided, and changes nothing when it is repeated.
-/

set_option autoImplicit false

namespace RichMarkdown

namespace Command

/-! ## Lines -/

/-- Lines with a soft break between each two, from the first line that is not empty. -/
def joined (ls : List (List Inline)) : List Inline :=
  [.softBreak].intercalate (ls.dropWhile List.isEmpty)

section

variable {is js l : List Inline} {ls : List (List Inline)} {i : Inline}

theorem exists_lines (is : List Inline) : ∃ l ls, lines is = l :: ls := by
  unfold lines
  split
  · exact ⟨_, _, rfl⟩
  · exact ⟨_, _, rfl⟩
  · split <;> exact ⟨_, _, rfl⟩

theorem lines_cons (hi : i ≠ .softBreak) (hlines : lines is = l :: ls) :
    lines (i :: is) = (i :: l) :: ls := by
  rw [lines, hlines]
  exact hi

theorem intercalate_lines (is : List Inline) : [.softBreak].intercalate (lines is) = is := by
  induction is with
  | nil => rfl
  | cons i is ih =>
    obtain ⟨l, ls, hlines⟩ := exists_lines is
    by_cases hi : i = .softBreak
    · subst hi
      rw [lines, hlines, List.intercalate_cons_cons, ← hlines, ih]
      rfl
    · rw [hlines] at ih
      rw [lines_cons hi hlines, ← ih]
      cases ls with
      | nil => simp
      | cons l' ls => simp

/-- A line stands at the start, or behind a soft break. -/
theorem exists_intercalate (before : List (List Inline)) (l : List Inline)
    (after : List (List Inline)) :
    ∃ front rest, [.softBreak].intercalate (before ++ l :: after) = front ++ (l ++ rest) ∧
      (front = [] ∨ front.getLast? = some .softBreak) := by
  induction before with
  | nil =>
    cases after with
    | nil => exact ⟨[], [], by simp, .inl rfl⟩
    | cons l' after => exact ⟨[], _, by simp; rfl, .inl rfl⟩
  | cons b before ih =>
    obtain ⟨front, rest, heq, hfront⟩ := ih
    refine ⟨b ++ [.softBreak] ++ front, rest, ?_, .inr ?_⟩
    · rw [List.cons_append, List.intercalate_cons_of_ne_nil (by simp), heq]
      simp only [List.append_assoc]
    · rcases hfront with rfl | hfront
      · simp
      · rw [List.getLast?_append, hfront]
        rfl

theorem notMem_of_mem_lines : ∀ l ∈ lines is, .softBreak ∉ l := by
  induction is with
  | nil => simp [lines]
  | cons i is ih =>
    by_cases hi : i = .softBreak
    · subst hi
      rw [lines]
      exact List.forall_mem_cons.mpr ⟨List.not_mem_nil, ih⟩
    · obtain ⟨l, ls, hlines⟩ := exists_lines is
      rw [lines_cons hi hlines]
      rw [hlines] at ih
      obtain ⟨hl, hls⟩ := List.forall_mem_cons.mp ih
      refine List.forall_mem_cons.mpr ⟨?_, hls⟩
      exact List.not_mem_cons_of_ne_of_not_mem (Ne.symm hi) hl

/-- A soft break ends a line. -/
theorem lines_append (is js : List Inline) :
    lines (is ++ .softBreak :: js) = lines is ++ lines js := by
  induction is with
  | nil => rfl
  | cons i is ih =>
    rw [List.cons_append]
    by_cases hi : i = .softBreak
    · subst hi
      rw [lines, lines, ih]
      rfl
    · obtain ⟨l, ls, hlines⟩ := exists_lines is
      have happend : lines (is ++ .softBreak :: js) = l :: (ls ++ lines js) := by
        rw [ih, hlines]
        rfl
      rw [lines_cons hi happend, lines_cons hi hlines]
      rfl

theorem lines_of_notMem (h : .softBreak ∉ l) : lines l = [l] := by
  induction l with
  | nil => rfl
  | cons i l ih =>
    obtain ⟨hi, hl⟩ := not_or.mp (mt List.mem_cons.mpr h)
    rw [lines_cons (Ne.symm hi) (ih hl)]

/-- **Lines are read back** from the inlines they make up. -/
theorem lines_intercalate (h : ∀ l ∈ ls, .softBreak ∉ l) (hne : ls ≠ []) :
    lines ([.softBreak].intercalate ls) = ls := by
  induction ls with
  | nil => exact absurd rfl hne
  | cons l ls ih =>
    obtain ⟨hl, hls⟩ := List.forall_mem_cons.mp h
    cases ls with
    | nil => rw [List.intercalate_singleton, lines_of_notMem hl]
    | cons l' ls =>
      rw [List.intercalate_cons_cons, List.append_assoc, List.singleton_append, lines_append,
        lines_of_notMem hl, ih hls (List.cons_ne_nil _ _)]
      rfl

/-- Lines that are added one by one are joined. -/
theorem foldl_joinLine (content : List Inline) (ls : List (List Inline)) :
    ls.foldl joinLine content = joined (content :: ls) := by
  induction ls generalizing content with
  | nil => cases content <;> simp [joined]
  | cons l ls ih =>
    rw [List.foldl_cons, ih]
    cases content with
    | nil => rfl
    | cons i content => cases ls <;> simp [joinLine, joined]

theorem lines_joined (h : ∀ l ∈ ls, .softBreak ∉ l) (hne : joined ls ≠ []) :
    ∀ l ∈ lines (joined ls), l ∈ ls := by
  have hsub : ∀ l ∈ ls.dropWhile List.isEmpty, l ∈ ls :=
    fun _ hl => (List.dropWhile_sublist _).subset hl
  have hdrop : ls.dropWhile List.isEmpty ≠ [] := by
    intro hnil
    rw [joined, hnil] at hne
    exact hne rfl
  intro l hl
  rw [joined, lines_intercalate (fun l hl => h l (hsub l hl)) hdrop] at hl
  exact hsub l hl

end

/-! ## Sections -/

/-- A command line, the command that it begins, and the lines that follow. -/
structure Section where
  line : List Inline
  command : Command
  more : List (List Inline)

namespace Section

def lines (s : Section) : List (List Inline) := s.line :: s.more

/-- The command of a section, with all its lines as content. -/
def block (s : Section) : Block :=
  .command { s.command with content := joined (s.command.content :: s.more) }

/-- Only the first line of a section begins a command. -/
structure Valid (s : Section) : Prop where
  begins : Begins s.line s.command
  goesOn : ∀ l ∈ s.more, ∀ c, ¬ Begins l c

end Section

/-- The lines of some inlines are these lines without a command, followed by these sections. -/
structure Cut (is : List Inline) (before : List (List Inline)) (sections : List Section) :
    Prop where
  eq : is = [.softBreak].intercalate (before ++ sections.flatMap Section.lines)
  noBreak : ∀ l ∈ before ++ sections.flatMap Section.lines, .softBreak ∉ l
  noCommand : ∀ l ∈ before, ∀ c, ¬ Begins l c
  valid : ∀ s ∈ sections, s.Valid

/-- Inlines and the blocks that stand for them: one for each section and, where the lines before the
first command hold anything, a paragraph of these lines first. -/
inductive Divided : List Inline → List Block → Prop
  | commands {is : List Inline} {before : List (List Inline)} {sections : List Section} :
      Cut is before sections → (∀ l ∈ before, l = []) → Divided is (sections.map Section.block)
  | paragraph {is : List Inline} {before : List (List Inline)} {sections : List Section} :
      Cut is before sections → (∃ l ∈ before, l ≠ []) →
      Divided is (.paragraph (joined before) :: sections.map Section.block)

section

variable {content : List Inline} {more before ls : List (List Inline)} {sections : List Section}

theorem joined_eq_nil_iff : joined ls = [] ↔ ∀ l ∈ ls, l = [] := by
  induction ls with
  | nil => simp [joined]
  | cons l ls ih =>
    cases l with
    | nil => simpa [joined] using ih
    | cons i l => cases ls <;> simp [joined]

theorem joined_ne_nil_iff : joined ls ≠ [] ↔ ∃ l ∈ ls, l ≠ [] := by
  rw [Ne, joined_eq_nil_iff]
  simp

/-- Blocks that stand for inlines come from a cut of their lines. -/
theorem divided_iff_cut {is : List Inline} {out : List Block} :
    Divided is out ↔ ∃ before sections, Cut is before sections ∧
      out = paragraphOf (joined before) ++ sections.map Section.block := by
  constructor
  · intro h
    cases h with
    | @commands before sections hcut hempty =>
      refine ⟨before, sections, hcut, ?_⟩
      rw [paragraphOf, joined_eq_nil_iff.mpr hempty]
      rfl
    | @paragraph before sections hcut hfull =>
      refine ⟨before, sections, hcut, ?_⟩
      rw [paragraphOf, if_neg (by simpa using joined_ne_nil_iff.mpr hfull)]
      rfl
  · rintro ⟨before, sections, hcut, rfl⟩
    rw [paragraphOf]
    split
    · rename_i hempty
      exact .commands hcut (joined_eq_nil_iff.mp (List.isEmpty_iff.mp hempty))
    · rename_i hfull
      exact .paragraph hcut (joined_ne_nil_iff.mp (mt List.isEmpty_iff.mpr hfull))

theorem continued_append (c : Command) (h : ∀ l ∈ more, ∀ c, ¬ Begins l c)
    (ls : List (List Inline)) : continued c (more ++ ls) =
      continued { c with content := joined (c.content :: more) } ls := by
  rw [← foldl_joinLine]
  induction more generalizing c with
  | nil => rfl
  | cons l more ih =>
    obtain ⟨hl, hmore⟩ := List.forall_mem_cons.mp h
    rw [List.cons_append, continued, ofLine?_eq_none_iff.mpr hl]
    exact ih _ hmore

theorem continued_sections (c : Command) (h : ∀ s ∈ sections, s.Valid) :
    continued c (sections.flatMap Section.lines) = .command c :: sections.map Section.block := by
  induction sections generalizing c with
  | nil => rfl
  | cons s sections ih =>
    obtain ⟨hs, hsections⟩ := List.forall_mem_cons.mp h
    rw [List.flatMap_cons, Section.lines, List.cons_append, continued,
      ofLine?_eq_some_iff.mpr hs.begins]
    simp only [continued_append _ hs.goesOn, ih _ hsections]
    rfl

theorem splitLines_append (content : List Inline) (h : ∀ l ∈ before, ∀ c, ¬ Begins l c)
    (ls : List (List Inline)) :
    splitLines content (before ++ ls) = splitLines (joined (content :: before)) ls := by
  rw [← foldl_joinLine]
  induction before generalizing content with
  | nil => rfl
  | cons l before ih =>
    obtain ⟨hl, hbefore⟩ := List.forall_mem_cons.mp h
    rw [List.cons_append, splitLines, ofLine?_eq_none_iff.mpr hl]
    exact ih _ hbefore

theorem splitLines_sections (content : List Inline) (h : ∀ s ∈ sections, s.Valid) :
    splitLines content (sections.flatMap Section.lines) =
      paragraphOf content ++ sections.map Section.block := by
  cases sections with
  | nil => simp [splitLines]
  | cons s sections =>
    obtain ⟨hs, hsections⟩ := List.forall_mem_cons.mp h
    rw [List.flatMap_cons, Section.lines, List.cons_append, splitLines,
      ofLine?_eq_some_iff.mpr hs.begins]
    simp only [continued_append _ hs.goesOn, continued_sections _ hsections]
    rfl

/-- Lines are some lines before the first command line, and sections. -/
theorem exists_sections (ls : List (List Inline)) :
    ∃ (before : List (List Inline)) (sections : List Section),
      ls = before ++ sections.flatMap Section.lines ∧
      (∀ l ∈ before, ∀ c, ¬ Begins l c) ∧ ∀ s ∈ sections, s.Valid := by
  induction ls with
  | nil => exact ⟨[], [], rfl, by simp, by simp⟩
  | cons l ls ih =>
    obtain ⟨before, sections, rfl, hbefore, hsections⟩ := ih
    cases hl : ofLine? l with
    | none =>
      exact ⟨l :: before, sections, rfl,
        List.forall_mem_cons.mpr ⟨ofLine?_eq_none_iff.mp hl, hbefore⟩, hsections⟩
    | some c =>
      refine ⟨[], ⟨l, c, before⟩ :: sections, by simp [Section.lines], by simp, ?_⟩
      exact List.forall_mem_cons.mpr ⟨⟨ofLine?_eq_some_iff.mp hl, hbefore⟩, hsections⟩

theorem splitLines_cut {is : List Inline} (h : Cut is before sections) :
    splitLines [] (lines is) = paragraphOf (joined before) ++ sections.map Section.block := by
  have hsplit : splitLines [] (before ++ sections.flatMap Section.lines) =
      paragraphOf (joined before) ++ sections.map Section.block := by
    rw [splitLines_append [] h.noCommand, splitLines_sections _ h.valid]
    rfl
  rw [h.eq]
  by_cases hne : before ++ sections.flatMap Section.lines = []
  · -- no lines at all make up what a single empty line makes up
    rw [hne] at hsplit ⊢
    exact hsplit
  · rw [lines_intercalate h.noBreak hne, hsplit]

theorem exists_cut (is : List Inline) : ∃ before sections, Cut is before sections := by
  obtain ⟨before, sections, hlines, hbefore, hsections⟩ := exists_sections (lines is)
  have hnot : ∀ l ∈ lines is, .softBreak ∉ l := notMem_of_mem_lines
  have heq := intercalate_lines is
  rw [hlines] at hnot heq
  exact ⟨before, sections, heq.symm, hnot, hbefore, hsections⟩

/-- **Inlines are divided in one way**, by reading their lines one by one. -/
theorem divided_iff {is : List Inline} {out : List Block} :
    Divided is out ↔ out = splitLines [] (lines is) := by
  rw [divided_iff_cut]
  constructor
  · rintro ⟨before, sections, hcut, rfl⟩
    exact (splitLines_cut hcut).symm
  · rintro rfl
    obtain ⟨before, sections, hcut⟩ := exists_cut is
    exact ⟨before, sections, hcut, splitLines_cut hcut⟩

end

/-! ## Paragraphs -/

/-- A command starts at the start of a line. -/
def HasCommand (is : List Inline) : Prop :=
  ∃ front i rest, is = front ++ i :: rest ∧
    (front = [] ∨ front.getLast? = some .softBreak) ∧ ∃ c, Begins [i] c

/-- A paragraph without a command stays, and one with a command is divided. -/
inductive Parted : List Inline → List Block → Prop
  | whole {is : List Inline} : ¬ HasCommand is → Parted is [.paragraph is]
  | divided {is : List Inline} {out : List Block} : HasCommand is → Divided is out → Parted is out

section

variable {is : List Inline} {out : List Block}

/-- Commands are found where the lines are that begin them. -/
theorem hasCommand_iff : HasCommand is ↔ ∃ l ∈ lines is, ∃ c, Begins l c := by
  constructor
  · rintro ⟨front, i, rest, rfl, hfront, hbegins⟩
    have hi : i ≠ .softBreak := by
      rintro rfl
      obtain ⟨_, ⟨⟩⟩ := hbegins
    obtain ⟨l, ls, hrest⟩ := exists_lines rest
    have hline : i :: l ∈ lines (i :: rest) := by
      rw [lines_cons hi hrest]
      exact List.mem_cons_self
    obtain ⟨c, hc⟩ := hbegins
    refine ⟨i :: l, ?_, hc.of_cons⟩
    rcases hfront with rfl | hfront
    · exact hline
    · obtain ⟨front, rfl⟩ := List.getLast?_eq_some_iff.mp hfront
      rw [List.append_assoc, List.singleton_append, lines_append]
      exact List.mem_append_right _ hline
  · rintro ⟨l, hl, c, hbegins⟩
    obtain ⟨before, after, hlines⟩ := List.append_of_mem hl
    obtain ⟨front, rest, heq, hfront⟩ := exists_intercalate before l after
    rw [← hlines, intercalate_lines] at heq
    obtain ⟨s, l, -, -, -, rfl, -, -⟩ := hbegins.exists_opening
    exact ⟨front, .text s, l ++ rest, heq, hfront, hbegins.of_cons⟩

/-- A paragraph is split exactly when it has a command, and then it is divided. -/
theorem parted_iff : Parted is out ↔ out = splitParagraph is := by
  have hany : ((lines is).any fun l => (ofLine? l).isSome) = true ↔ HasCommand is := by
    simp only [hasCommand_iff, List.any_eq_true, Option.isSome_iff_exists, ofLine?_eq_some_iff]
  rw [splitParagraph]
  constructor
  · rintro (hnone | ⟨hcommand, hdivided⟩)
    · rw [if_neg (mt hany.mp hnone)]
    · rw [if_pos (hany.mpr hcommand), divided_iff.mp hdivided]
  · rintro rfl
    split
    · rename_i hcommand
      exact .divided (hany.mp hcommand) (divided_iff.mpr rfl)
    · rename_i hnone
      exact .whole (mt hany.mpr hnone)

/-- A paragraph that is split off has no command. -/
theorem not_hasCommand_joined {before : List (List Inline)} (hnot : ∀ l ∈ before, .softBreak ∉ l)
    (hbefore : ∀ l ∈ before, ∀ c, ¬ Begins l c) (hne : joined before ≠ []) :
    ¬ HasCommand (joined before) := by
  rw [hasCommand_iff]
  rintro ⟨l, hl, c, hbegins⟩
  exact hbefore l (lines_joined hnot hne l hl) c hbegins

end

end Command

/-! ## Blocks -/

mutual

/-- A block and the blocks that stand for it: its paragraphs are parted, at all depths, and all else
stays. -/
inductive Block.Parted : Block → List Block → Prop
  | paragraph {is : List Inline} {out : List Block} : Command.Parted is out →
      Block.Parted (.paragraph is) out
  | heading (level : Nat) (is : List Inline) : Block.Parted (.heading level is) [.heading level is]
  | code (language : Option String) (literal : String) :
      Block.Parted (.code language literal) [.code language literal]
  | list (start : Option UInt64) (tight : Bool) {is js : List Item} : ItemsParted is js →
      Block.Parted (.list start tight is) [.list start tight js]
  | quote (alert : Option Alert) {bs cs : List Block} : BlocksParted bs cs →
      Block.Parted (.quote alert bs) [.quote alert cs]
  | rule : Block.Parted .rule [.rule]
  | html (s : String) : Block.Parted (.html s) [.html s]
  | table (t : Table) : Block.Parted (.table t) [.table t]
  | footnote (label : String) {bs cs : List Block} : BlocksParted bs cs →
      Block.Parted (.footnote label bs) [.footnote label cs]
  | metadata (s : String) : Block.Parted (.metadata s) [.metadata s]
  | directive (head : Directive) {bs cs : List Block} : BlocksParted bs cs →
      Block.Parted (.directive head bs) [.directive head cs]
  | command (c : Command) : Block.Parted (.command c) [.command c]

inductive BlocksParted : List Block → List Block → Prop
  | nil : BlocksParted [] []
  | cons {b : Block} {bs out outs : List Block} : Block.Parted b out → BlocksParted bs outs →
      BlocksParted (b :: bs) (out ++ outs)

inductive ItemsParted : List Item → List Item → Prop
  | nil : ItemsParted [] []
  | cons (task : Option Bool) {bs cs : List Block} {is js : List Item} : BlocksParted bs cs →
      ItemsParted is js → ItemsParted (⟨task, bs⟩ :: is) (⟨task, cs⟩ :: js)

end

mutual

theorem Block.parted_splitCommands : ∀ b : Block, b.Parted b.splitCommands
  | .paragraph _ => .paragraph (Command.parted_iff.mpr rfl)
  | .heading level content => .heading level content
  | .code language literal => .code language literal
  | .list start tight items => .list start tight (parted_splitCommandsInItems items)
  | .quote alert children => .quote alert (parted_splitCommands children)
  | .rule => .rule
  | .html s => .html s
  | .table t => .table t
  | .footnote label children => .footnote label (parted_splitCommands children)
  | .metadata s => .metadata s
  | .directive head children => .directive head (parted_splitCommands children)
  | .command c => .command c

theorem parted_splitCommands : ∀ bs : List Block, BlocksParted bs (splitCommands bs)
  | [] => .nil
  | b :: bs => .cons b.parted_splitCommands (parted_splitCommands bs)

theorem parted_splitCommandsInItems :
    ∀ items : List Item, ItemsParted items (splitCommandsInItems items)
  | [] => .nil
  | ⟨task, children⟩ :: rest =>
    .cons task (parted_splitCommands children) (parted_splitCommandsInItems rest)

end

mutual

theorem Block.Parted.eq : ∀ {b : Block} {out : List Block}, b.Parted out → out = b.splitCommands
  | _, _, .paragraph h => Command.parted_iff.mp h
  | _, _, .heading _ _ | _, _, .code _ _ | _, _, .rule | _, _, .html _ | _, _, .table _
  | _, _, .metadata _ | _, _, .command _ => rfl
  | _, _, .list _ _ h => by rw [Block.splitCommands, h.eq]
  | _, _, .quote _ h | _, _, .footnote _ h | _, _, .directive _ h => by
    rw [Block.splitCommands, h.eq]

theorem BlocksParted.eq : ∀ {bs out : List Block}, BlocksParted bs out → out = splitCommands bs
  | _, _, .nil => rfl
  | _, _, .cons hb h => by rw [splitCommands, hb.eq, h.eq]

theorem ItemsParted.eq :
    ∀ {is js : List Item}, ItemsParted is js → js = splitCommandsInItems is
  | _, _, .nil => rfl
  | _, _, .cons _ hb h => by rw [splitCommandsInItems, hb.eq, h.eq]

end

theorem splitCommands_append (as bs : List Block) :
    splitCommands (as ++ bs) = splitCommands as ++ splitCommands bs := by
  induction as with
  | nil => rfl
  | cons a as ih => rw [List.cons_append, splitCommands, splitCommands, ih, List.append_assoc]

/-- The blocks that stand for a paragraph have no further commands to set apart. -/
theorem Command.Parted.splitCommands_eq {is : List Inline} {out : List Block}
    (h : Command.Parted is out) : splitCommands out = out := by
  have hparagraph {content : List Inline} (hnone : ¬ Command.HasCommand content) :
      splitCommands [.paragraph content] = [.paragraph content] := by
    rw [splitCommands, Block.splitCommands, ← Command.parted_iff.mp (.whole hnone)]
    rfl
  have hsections (sections : List Command.Section) :
      splitCommands (sections.map Command.Section.block) =
        sections.map Command.Section.block := by
    induction sections with
    | nil => rfl
    | cons s sections ih =>
      rw [List.map_cons, splitCommands, ih]
      rfl
  cases h with
  | whole hnone => exact hparagraph hnone
  | divided _ hdivided =>
    cases hdivided with
    | commands => exact hsections _
    | @paragraph before sections hcut hfull =>
      have hleft := fun l hl => hcut.noBreak l (List.mem_append_left _ hl)
      have hnone := Command.not_hasCommand_joined hleft hcut.noCommand
        (Command.joined_ne_nil_iff.mpr hfull)
      have happend : splitCommands (.paragraph (Command.joined before) ::
          sections.map Command.Section.block) =
          splitCommands [.paragraph (Command.joined before)] ++
            splitCommands (sections.map Command.Section.block) :=
        splitCommands_append [.paragraph (Command.joined before)] _
      rw [happend, hparagraph hnone, hsections]
      rfl

mutual

theorem Block.splitCommands_idem :
    ∀ b : Block, RichMarkdown.splitCommands b.splitCommands = b.splitCommands
  | .paragraph _ => (Command.parted_iff.mpr rfl).splitCommands_eq
  | .heading _ _ | .code _ _ | .rule | .html _ | .table _ | .metadata _ | .command _ => rfl
  | .list _ _ items => by
    simp only [Block.splitCommands, splitCommands, splitCommandsInItems_idem items,
      List.append_nil]
  | .quote _ children | .footnote _ children | .directive _ children => by
    simp only [Block.splitCommands, splitCommands, splitCommands_idem children, List.append_nil]

theorem splitCommands_idem :
    ∀ bs : List Block, splitCommands (splitCommands bs) = splitCommands bs
  | [] => rfl
  | b :: bs => by
    rw [splitCommands, splitCommands_append, b.splitCommands_idem, splitCommands_idem bs]

theorem splitCommandsInItems_idem : ∀ items : List Item,
    splitCommandsInItems (splitCommandsInItems items) = splitCommandsInItems items
  | [] => rfl
  | ⟨_, children⟩ :: rest => by
    simp only [splitCommandsInItems, splitCommands_idem children, splitCommandsInItems_idem rest]

end

/-- **Setting commands apart.** There is one way to part blocks: only paragraphs with a command
change, and what stands for them holds their lines in order, the command lines less their commands.
When it is repeated it changes nothing. -/
theorem splitCommands_parts (bs : List Block) :
    (∀ out, BlocksParted bs out ↔ out = splitCommands bs) ∧
      splitCommands (splitCommands bs) = splitCommands bs := by
  refine ⟨fun out => ⟨BlocksParted.eq, ?_⟩, splitCommands_idem bs⟩
  rintro rfl
  exact parted_splitCommands bs

/-- A text before the first command, a command with an argument and an empty line before its first
content, and a command whose name is short for another. -/
def addition : List Block :=
  [.quote none [.paragraph [.softBreak, .text "Adds.", .softBreak, .text "@param\u3000x",
    .softBreak, .softBreak, .text "count", .softBreak, .text "\\return  The sum."]]]

theorem splitCommands_parts_addition :
    BlocksParted addition
        [.quote none [.paragraph [.text "Adds."], .command ⟨"param", some "x", [.text "count"]⟩,
          .command ⟨"returns", none, [.text "The sum."]⟩]] ∧
      splitCommands (splitCommands addition) = splitCommands addition := by
  obtain ⟨hparted, hidem⟩ := splitCommands_parts addition
  exact ⟨(hparted _).mpr rfl, hidem⟩

end RichMarkdown
