import RichMarkdown.Command.Split
import RichMarkdown.Proofs.Text.Runs

/-!
# How a command line starts

The first text of a command line is a sigil, the name of a command, for a command with an argument
a word, and the text that is left, with blanks between these parts (`Command.Opening`). Every part
is as long as it can be, so a text is cut in one way only. Names are recorded as they are written,
but for one that is short for another (`Command.RecordedAs`). A line starts a command when its first
inline is such a text; the inlines that are left are the content of the command so far
(`Command.Begins`).

* `ofLine?_eq_some_iff`: a line is read as a command exactly when it begins one.
-/

set_option autoImplicit false

namespace RichMarkdown.Command

open Text (isBlank trimStart Run)

def IsSigil (c : Char) : Prop := c = '\\' ∨ c = '@'

/-- The names of commands, each as it is written and as it is recorded. -/
inductive RecordedAs : String → String → Prop
  | param : RecordedAs "param" "param"
  | returns : RecordedAs "returns" "returns"
  /-- The short form is recorded like the long one. -/
  | short : RecordedAs "return" "returns"
  | note : RecordedAs "note" "note"
  | discussion : RecordedAs "discussion" "discussion"
  | abstract : RecordedAs "abstract" "abstract"

/-- A text that starts with a command: the text, the name as it is recorded, the argument and the
text that is left. -/
inductive Opening : List Char → String → Option String → List Char → Prop
  | plain {sigil : Char} {written name : String} {gap left : List Char} : IsSigil sigil →
      RecordedAs written name → written ≠ "param" →
      Run (! isBlank ·) written.toList (gap ++ left) → Run isBlank gap left →
      Opening (sigil :: (written.toList ++ (gap ++ left))) name none left
  | bare {sigil : Char} {gap : List Char} : IsSigil sigil → Run isBlank gap [] →
      Opening (sigil :: ("param".toList ++ gap)) "param" none []
  | argument {sigil : Char} {gap word space left : List Char} : IsSigil sigil → gap ≠ [] →
      Run isBlank gap (word ++ (space ++ left)) → word ≠ [] →
      Run (! isBlank ·) word (space ++ left) → Run isBlank space left →
      Opening (sigil :: ("param".toList ++ (gap ++ (word ++ (space ++ left))))) "param"
        (some (String.ofList word)) left

/-- A line that begins a command, whose content is what is left of the line. Of a text that is a
command and nothing else, nothing is left. -/
inductive Begins : List Inline → Command → Prop
  | text {s name : String} {rest : List Inline} {argument : Option String} {left : List Char} :
      Opening s.toList name argument left → left ≠ [] →
      Begins (.text s :: rest) ⟨name, argument, .text (String.ofList left) :: rest⟩
  | whole {s name : String} {rest : List Inline} {argument : Option String} :
      Opening s.toList name argument [] → Begins (.text s :: rest) ⟨name, argument, rest⟩

/-! ## Names -/

theorem recordedAs_iff {written name : String} :
    RecordedAs written name ↔ written ∈ names ∧ canonicalName written = name := by
  constructor
  · rintro ⟨⟩ <;> decide
  · rintro ⟨hnames, rfl⟩
    simp only [names, List.mem_cons, List.not_mem_nil, or_false] at hnames
    rcases hnames with rfl | rfl | rfl | rfl | rfl | rfl
    · exact .param
    · exact .returns
    · exact .short
    · exact .note
    · exact .discussion
    · exact .abstract

theorem isBlank_of_mem_names {name : String} (h : name ∈ names) :
    ∀ c ∈ name.toList, (! isBlank c) = true := by
  have hall : names.all (fun n => n.toList.all (! isBlank ·)) = true := by decide
  exact List.all_eq_true.mp (List.all_eq_true.mp hall name h)

/-- The name of a command is the longest word behind a sigil. -/
theorem atStart?_eq_some_iff {cs after : List Char} {name : String} :
    atStart? cs = some (name, after) ↔
      ∃ sigil, IsSigil sigil ∧ name ∈ names ∧ Run (! isBlank ·) name.toList after ∧
        cs = sigil :: (name.toList ++ after) := by
  constructor
  · intro h
    cases cs with
    | nil => cases h
    | cons sigil cs =>
      simp only [atStart?] at h
      split at h
      · rename_i hstart
        obtain ⟨rfl, rfl⟩ := Prod.mk.inj (Option.some.inj h)
        simp only [Bool.and_eq_true, Bool.or_eq_true, beq_iff_eq, List.contains_iff_mem] at hstart
        obtain ⟨word, rest, rfl, hrun⟩ := Text.exists_run (! isBlank ·) cs
        rw [hrun.takeWhile] at hstart ⊢
        rw [hrun.dropWhile, String.toList_ofList]
        exact ⟨sigil, hstart.1, hstart.2, hrun, rfl⟩
      · cases h
  · rintro ⟨sigil, hsigil, hname, hrun, rfl⟩
    have hstart : (sigil == '\\' || sigil == '@') = true := by
      simpa [IsSigil] using hsigil
    simp only [atStart?, hrun.takeWhile, hrun.dropWhile, String.ofList_toList, hstart,
      List.contains_iff_mem.mpr hname, Bool.and_self, if_true]

/-! ## Arguments -/

theorem takeArgument_plain {name : String} (h : name ≠ "param") (cs : List Char) :
    takeArgument name cs = (none, trimStart cs) := by
  simp [takeArgument, h]

theorem takeArgument_param (cs : List Char) :
    takeArgument "param" cs =
      (if ((trimStart cs).takeWhile (! isBlank ·)).isEmpty then none
        else some (String.ofList ((trimStart cs).takeWhile (! isBlank ·))),
      trimStart ((trimStart cs).dropWhile (! isBlank ·))) := by
  simp [takeArgument]

/-- What is read behind the name of a command makes up its opening. -/
theorem opening_takeArgument {sigil : Char} {written name : String} {after : List Char}
    (hsigil : IsSigil sigil) (hname : RecordedAs written name)
    (hrun : Run (! isBlank ·) written.toList after) :
    Opening (sigil :: (written.toList ++ after)) name (takeArgument written after).1
      (takeArgument written after).2 := by
  obtain ⟨gap, rest, rfl, hgap⟩ := Text.exists_run isBlank after
  by_cases hparam : written = "param"
  · subst hparam
    obtain rfl : "param" = name := (recordedAs_iff.mp hname).2
    obtain ⟨word, rest, rfl, hword⟩ := Text.exists_run (! isBlank ·) rest
    obtain ⟨space, left, rfl, hspace⟩ := Text.exists_run isBlank rest
    rw [takeArgument_param, Text.trimStart_run hgap, hword.takeWhile, hword.dropWhile,
      Text.trimStart_run hspace]
    cases word with
    | nil =>
      -- the blanks before the word are all there are, so nothing follows an empty word
      have hnil : space ++ left = [] := by
        cases hrest : space ++ left with
        | nil => rfl
        | cons c cs =>
          have hblank := hgap.stops c (by rw [hrest]; rfl)
          have hnot := hword.stops c (by rw [hrest]; rfl)
          rw [hblank] at hnot
          cases hnot
      obtain ⟨rfl, rfl⟩ := List.append_eq_nil_iff.mp hnil
      rw [List.append_nil, List.append_nil, List.append_nil]
      exact .bare hsigil hgap
    | cons c cs =>
      have hne : gap ≠ [] := by
        rintro rfl
        have hboundary := hrun.stops c rfl
        rw [hword.all c List.mem_cons_self] at hboundary
        cases hboundary
      exact .argument hsigil hne hgap (List.cons_ne_nil c cs) hword hspace
  · rw [takeArgument_plain hparam, Text.trimStart_run hgap]
    exact .plain hsigil hname hparam hrun hgap

/-- An opening is read as it is cut. -/
theorem Opening.read {cs left : List Char} {name : String} {argument : Option String}
    (h : Opening cs name argument left) :
    ∃ written after, atStart? cs = some (written, after) ∧ canonicalName written = name ∧
      takeArgument written after = (argument, left) := by
  cases h with
  | plain hsigil hname hparam hrun hgap =>
    obtain ⟨hnames, hname⟩ := recordedAs_iff.mp hname
    refine ⟨_, _, atStart?_eq_some_iff.mpr ⟨_, hsigil, hnames, hrun, rfl⟩, hname, ?_⟩
    rw [takeArgument_plain hparam, Text.trimStart_run hgap]
  | @bare sigil gap hsigil hgap =>
    obtain ⟨hnames, hname⟩ := recordedAs_iff.mp .param
    have hrun : Run (! isBlank ·) "param".toList gap := by
      refine ⟨isBlank_of_mem_names hnames, fun c hc => ?_⟩
      simp [hgap.all c (List.mem_of_mem_head? hc)]
    have htrim : trimStart gap = [] := by
      simpa using Text.trimStart_run hgap
    refine ⟨_, _, atStart?_eq_some_iff.mpr ⟨_, hsigil, hnames, hrun, rfl⟩, hname, ?_⟩
    rw [takeArgument_param, htrim]
    rfl
  | @argument sigil gap word space left hsigil hne hgap hword hrunWord hspace =>
    obtain ⟨hnames, hname⟩ := recordedAs_iff.mp .param
    have hrun : Run (! isBlank ·) "param".toList (gap ++ (word ++ (space ++ left))) := by
      refine ⟨isBlank_of_mem_names hnames, fun c hc => ?_⟩
      obtain ⟨d, ds, rfl⟩ := List.exists_cons_of_ne_nil hne
      obtain rfl : d = c := by simpa using hc
      simp [hgap.all d List.mem_cons_self]
    refine ⟨_, _, atStart?_eq_some_iff.mpr ⟨_, hsigil, hnames, hrun, rfl⟩, hname, ?_⟩
    rw [takeArgument_param, Text.trimStart_run hgap, hrunWord.takeWhile, hrunWord.dropWhile,
      Text.trimStart_run hspace]
    simp [hword]

/-! ## Lines -/

theorem begins_of_opening {s name : String} {argument : Option String} {left : List Char}
    (h : Opening s.toList name argument left) (rest : List Inline) :
    Begins (.text s :: rest)
      ⟨name, argument, if left.isEmpty then rest else .text (String.ofList left) :: rest⟩ := by
  cases left with
  | nil => exact .whole h
  | cons c cs => exact .text h (List.cons_ne_nil c cs)

/-- A line begins a command by its first text. -/
theorem Begins.exists_opening {line : List Inline} {c : Command} (h : Begins line c) :
    ∃ s rest name argument left, line = .text s :: rest ∧ Opening s.toList name argument left ∧
      c = ⟨name, argument, if left.isEmpty then rest else .text (String.ofList left) :: rest⟩ := by
  cases h with
  | @text s name rest argument left hopening hleft =>
    refine ⟨s, rest, name, argument, left, rfl, hopening, ?_⟩
    rw [if_neg (by simpa using hleft)]
  | @whole s name rest argument hopening =>
    exact ⟨s, rest, name, argument, [], rfl, hopening, rfl⟩

/-- **Command lines.** A line is read as a command exactly when it begins one. -/
theorem ofLine?_eq_some_iff {line : List Inline} {c : Command} :
    ofLine? line = some c ↔ Begins line c := by
  constructor
  · intro h
    unfold ofLine? at h
    split at h
    · rename_i s rest
      obtain ⟨⟨written, after⟩, hstart, rfl⟩ := Option.map_eq_some_iff.mp h
      obtain ⟨sigil, hsigil, hnames, hrun, heq⟩ := atStart?_eq_some_iff.mp hstart
      have hopening := opening_takeArgument hsigil (recordedAs_iff.mpr ⟨hnames, rfl⟩) hrun
      rw [← heq] at hopening
      exact begins_of_opening hopening rest
    · cases h
  · intro h
    obtain ⟨s, rest, name, argument, left, rfl, hopening, rfl⟩ := h.exists_opening
    obtain ⟨written, after, hstart, rfl, hargument⟩ := hopening.read
    simp only [ofLine?, hstart, Option.map_some, hargument]

theorem ofLine?_eq_none_iff {line : List Inline} :
    ofLine? line = none ↔ ∀ c, ¬ Begins line c := by
  rw [Option.eq_none_iff_forall_ne_some]
  exact forall_congr' fun c => not_congr ofLine?_eq_some_iff

/-- Only the first inline of a line decides whether it begins a command. -/
theorem Begins.of_cons {i : Inline} {line line' : List Inline} {c : Command}
    (h : Begins (i :: line) c) : ∃ c', Begins (i :: line') c' := by
  obtain ⟨s, rest, name, argument, left, heq, hopening, rfl⟩ := h.exists_opening
  obtain ⟨rfl, rfl⟩ := List.cons.inj heq
  exact ⟨_, begins_of_opening hopening line'⟩

end RichMarkdown.Command
