import RichMarkdown.Proofs.Directive.Heads
import RichMarkdown.Proofs.Text.Lines

/-!
# The text of directive lines

What a directive line says stands in its parts: colons, blanks, a name, a label in brackets and
attributes in braces. `Head.Spelled` tells how a head is spelled at the start of a text, and
`DirectiveLine.Opens` how a line starts with colons and a head; both leave a rest that belongs to
none of these parts. After two colons a line with such a rest is no directive. After three or more
it is one all the same, and the rest is lost.

* `Head.read?_eq_some_iff`: heads are read as they are spelled, and nothing else is.
* `DirectiveLine.Opens.read?_eq`, `DirectiveLine.read?_cases`: what a line is that starts with
  colons and a head, and what a line starts with that is a directive.
* `DirectiveLine.keepsText_iff`: no text of a line is lost, unless it follows a head after three or
  more colons.
-/

set_option autoImplicit false

namespace RichMarkdown

namespace Head

/-! ## Parts between delimiters -/

/-- A part between delimiters at the start of `part ++ rest`, with its content: it is balanced, or
else there is none because no balanced part stands there. -/
inductive Part (opener closer : Char) : Option (List Char) → List Char → List Char → Prop
  | between {content rest : List Char} : Balanced opener closer content →
      Part opener closer (some content) (opener :: (content ++ [closer])) rest
  | absent {rest : List Char} : (∀ content after, Balanced opener closer content →
      rest ≠ opener :: (content ++ closer :: after)) → Part opener closer none [] rest

section

variable {opener closer : Char} {content : Option (List Char)} {part rest blanks cs : List Char}

theorem optional_between {inside : List Char} (hne : closer ≠ opener)
    (h : Balanced opener closer inside) :
    optional opener closer (opener :: (inside ++ closer :: rest)) = (some inside, rest) := by
  rw [optional, delimited?, if_pos (beq_self_eq_true opener),
    (untilClosed?_eq_some_iff hne).mpr ⟨rfl, h⟩]

/-- An optional part is read as it stands. -/
theorem optional_eq_iff (hne : closer ≠ opener) :
    optional opener closer cs = (content, rest) ↔
      ∃ part, cs = part ++ rest ∧ Part opener closer content part rest := by
  constructor
  · intro h
    obtain ⟨inside, label, after, rfl, hclosed, heq⟩ | heq := optional_cases opener closer cs
    · obtain ⟨rfl, rfl⟩ := Prod.mk.inj (heq.symm.trans h)
      obtain ⟨rfl, hbalanced⟩ := (untilClosed?_eq_some_iff hne).mp hclosed
      exact ⟨_, by simp, .between hbalanced⟩
    · obtain ⟨rfl, rfl⟩ := Prod.mk.inj (heq.symm.trans h)
      refine ⟨[], rfl, .absent ?_⟩
      rintro inside after hbalanced rfl
      cases (optional_between hne hbalanced).symm.trans heq
  · rintro ⟨part, rfl, hpart⟩
    cases hpart with
    | between hbalanced =>
      rw [List.cons_append, List.append_assoc]
      exact optional_between hne hbalanced
    | absent hnone =>
      obtain ⟨inside, label, after, hinside, hclosed, -⟩ | heq := optional_cases opener closer rest
      · obtain ⟨rfl, hbalanced⟩ := (untilClosed?_eq_some_iff hne).mp hclosed
        exact absurd hinside (hnone _ _ hbalanced)
      · exact heq

theorem Part.last (h : Part opener closer content part rest) : ∀ c ∈ part.getLast?, c = closer := by
  cases h with
  | between _ =>
    intro c hc
    rw [← List.cons_append, List.getLast?_concat] at hc
    exact (Option.some.inj hc).symm
  | absent _ => simp

/-- Blanks behind the text make no difference, since they close nothing. -/
theorem Part.append_blanks_iff (hcloser : Text.isBlank closer = false)
    (hblanks : Text.allBlank blanks = true) :
    Part opener closer content part (rest ++ blanks) ↔ Part opener closer content part rest := by
  constructor
  · intro h
    cases h with
    | between hbalanced => exact .between hbalanced
    | absent hnone =>
      refine .absent fun inside after hbalanced heq => hnone inside (after ++ blanks) hbalanced ?_
      rw [heq]
      simp
  · intro h
    cases h with
    | between hbalanced => exact .between hbalanced
    | absent hnone =>
      refine .absent fun inside after hbalanced heq => ?_
      have hcut : rest ++ blanks = (opener :: (inside ++ [closer])) ++ after := by
        rw [heq]
        simp
      obtain ⟨x, hpart, rfl⟩ | ⟨x, rfl, -⟩ := List.append_eq_append_iff.mp hcut
      · -- the closer would be one of the blanks, or the last character of the text
        rcases x.eq_nil_or_concat with rfl | ⟨front, last, rfl⟩
        · refine hnone inside [] hbalanced ?_
          rw [← List.append_nil rest, ← hpart]
        · rw [List.concat_eq_append, ← List.cons_append, ← List.append_assoc] at hpart
          obtain rfl := List.singleton_inj.mp (List.append_inj' hpart rfl).2
          have hblank := Text.allBlank_iff.mp hblanks closer (by simp)
          rw [hcloser] at hblank
          cases hblank
      · exact hnone inside x hbalanced (by simp)

end

/-! ## Spelled heads -/

/-- A head is spelled by the text `source` when `rest` follows: a name, perhaps a label in brackets,
and perhaps attributes in braces. -/
inductive Spelled : Head → List Char → List Char → Prop
  | intro {name bracketed braced rest : List Char} {label attributes : Option (List Char)} :
      name ≠ [] → (∀ c ∈ name, isNameChar c = true) →
      (∀ c ∈ (bracketed ++ (braced ++ rest)).head?, endsName c = true) →
      Part '[' ']' label bracketed (braced ++ rest) → Part '\x7b' '\x7d' attributes braced rest →
      Spelled ⟨String.ofList name, label.map String.ofList, Attributes.read (attributes.getD [])⟩
        (name ++ (bracketed ++ braced)) rest

section

variable {head : Head} {cs source rest blanks : List Char}

/-- **Heads are read as they are spelled**, and nothing else is read. -/
theorem read?_eq_some_iff :
    read? cs = some (head, rest) ↔ ∃ source, cs = source ++ rest ∧ head.Spelled source rest := by
  constructor
  · intro h
    obtain ⟨name, after, rfl, hrun⟩ := Text.exists_run (! endsName ·) cs
    rcases hlabel : optional '[' ']' after with ⟨label, unlabelled⟩
    rcases hattributes : optional '\x7b' '\x7d' unlabelled with ⟨attributes, left⟩
    rw [read?, hrun.takeWhile, hrun.dropWhile, hlabel] at h
    dsimp only at h
    rw [hattributes] at h
    split at h
    · cases h
    · rename_i hvalid
      rw [Bool.or_eq_true, not_or, List.isEmpty_iff, Bool.not_eq_true', Bool.not_eq_false,
        List.all_eq_true] at hvalid
      obtain ⟨rfl, rfl⟩ := Prod.mk.inj (Option.some.inj h)
      obtain ⟨bracketed, rfl, hbracketed⟩ := (optional_eq_iff (by decide)).mp hlabel
      obtain ⟨braced, rfl, hbraced⟩ := (optional_eq_iff (by decide)).mp hattributes
      refine ⟨name ++ (bracketed ++ braced), by simp,
        .intro hvalid.1 hvalid.2 (fun c hc => ?_) hbracketed hbraced⟩
      simpa using hrun.stops c hc
  · rintro ⟨source, rfl, hspelled⟩
    cases hspelled with
    | @intro name bracketed braced _ label attributes hne hvalid hends hlabel hattributes =>
      have hrun : Text.Run (! endsName ·) name (bracketed ++ (braced ++ rest)) := by
        refine ⟨fun c hc => ?_, fun c hc => ?_⟩
        · rw [endsName_of_isNameChar (hvalid c hc)]
          rfl
        · rw [hends c hc]
          rfl
      have hall : (name.isEmpty || ! name.all isNameChar) = false := by
        rw [List.isEmpty_eq_false_iff.mpr hne, List.all_eq_true.mpr hvalid]
        rfl
      rw [List.append_assoc, List.append_assoc, read?, hrun.takeWhile, hrun.dropWhile, hall,
        if_neg Bool.false_ne_true, (optional_eq_iff (by decide)).mpr ⟨bracketed, rfl, hlabel⟩]
      dsimp only
      rw [(optional_eq_iff (by decide)).mpr ⟨braced, rfl, hattributes⟩]

/-- A spelled head starts with a character of its name, and ends in one or with a closer. -/
theorem Spelled.isTrimmed (h : head.Spelled source rest) :
    Text.IsTrimmed source ∧ ∃ c ∈ source.head?, c ≠ ':' := by
  cases h with
  | @intro name bracketed braced _ label attributes hne hvalid hends hlabel hattributes =>
    obtain ⟨c, cs, rfl⟩ := List.exists_cons_of_ne_nil hne
    have hc := hvalid c List.mem_cons_self
    refine ⟨⟨fun d hd => ?_, fun d hd => ?_⟩, c, rfl, ne_colon_of_isNameChar hc⟩
    · obtain rfl : c = d := by simpa using hd
      exact isBlank_of_isNameChar hc
    · rw [List.getLast?_append, List.getLast?_append, Option.mem_def, Option.or_eq_some_iff,
        Option.or_eq_some_iff] at hd
      obtain (hd | ⟨-, hd⟩) | ⟨-, hd⟩ := hd
      · rw [hattributes.last d hd]
        rfl
      · rw [hlabel.last d hd]
        rfl
      · exact isBlank_of_isNameChar (hvalid d (List.mem_of_getLast? hd))

/-- Blanks end a name like the end of the text. -/
theorem endsName_append_blanks_iff (hblanks : Text.allBlank blanks = true) :
    (∀ c ∈ (cs ++ blanks).head?, endsName c = true) ↔ ∀ c ∈ cs.head?, endsName c = true := by
  simp only [List.head?_append, Option.mem_def, Option.or_eq_some_iff]
  refine ⟨fun h c hc => h c (.inl hc), fun h c hc => ?_⟩
  obtain hc | ⟨-, hc⟩ := hc
  · exact h c hc
  · rw [endsName, Text.allBlank_iff.mp hblanks c (List.mem_of_mem_head? hc), Bool.or_true]

/-- Blanks behind a head make no difference. -/
theorem spelled_append_blanks_iff (hblanks : Text.allBlank blanks = true) :
    head.Spelled source (rest ++ blanks) ↔ head.Spelled source rest := by
  constructor
  · rintro ⟨hne, hvalid, hends, hlabel, hattributes⟩
    rw [← List.append_assoc] at hlabel
    rw [← List.append_assoc, ← List.append_assoc, List.append_assoc _ _ rest] at hends
    exact .intro hne hvalid ((endsName_append_blanks_iff hblanks).mp hends)
      ((Part.append_blanks_iff rfl hblanks).mp hlabel)
      ((Part.append_blanks_iff rfl hblanks).mp hattributes)
  · rintro ⟨hne, hvalid, hends, hlabel, hattributes⟩
    refine .intro hne hvalid ?_ ?_ ((Part.append_blanks_iff rfl hblanks).mpr hattributes)
    · rw [← List.append_assoc, ← List.append_assoc, List.append_assoc _ _ rest]
      exact (endsName_append_blanks_iff hblanks).mpr hends
    · rw [← List.append_assoc]
      exact (Part.append_blanks_iff rfl hblanks).mpr hlabel

end

end Head

namespace DirectiveLine

/-! ## Lines that start with a head -/

/-- The line starts with so many colons, the blanks `gap` and a head, and `rest` follows. -/
structure Opens (line : List Char) (colons : Nat) (gap : List Char) (head : Head)
    (rest : List Char) : Prop where
  blank : Text.allBlank gap = true
  spelled : ∃ source, line = List.replicate colons ':' ++ (gap ++ (source ++ rest)) ∧
    head.Spelled source rest

section

variable {line gap rest blanks : List Char} {colons : Nat} {head : Head}

theorem Opens.append_blanks (h : Opens line colons gap head rest)
    (hblanks : Text.allBlank blanks = true) :
    Opens (line ++ blanks) colons gap head (rest ++ blanks) := by
  obtain ⟨hgap, source, rfl, hspelled⟩ := h
  exact ⟨hgap, source, by simp, (Head.spelled_append_blanks_iff hblanks).mpr hspelled⟩

/-- The head itself is not trimmed. -/
theorem Opens.trimEnd (h : Opens line colons gap head rest) :
    Opens (Text.trimEnd line) colons gap head (Text.trimEnd rest) := by
  obtain ⟨hgap, source, rfl, hspelled⟩ := h
  obtain ⟨blanks, hrest, hblanks⟩ := Text.exists_trimEnd_append rest
  obtain ⟨htrimmed, c, hc, -⟩ := hspelled.isTrimmed
  refine ⟨hgap, source, ?_, (Head.spelled_append_blanks_iff hblanks).mp (hrest ▸ hspelled)⟩
  have hfront : Text.trimEnd (List.replicate colons ':' ++ (gap ++ source)) =
      List.replicate colons ':' ++ (gap ++ source) := by
    have hne : source ≠ [] := List.ne_nil_of_mem (List.mem_of_mem_head? hc)
    refine Text.trimEnd_eq_self fun d hd => ?_
    rw [List.getLast?_append_of_ne_nil _ (by simp [hne]),
      List.getLast?_append_of_ne_nil _ hne] at hd
    exact htrimmed.last d hd
  rw [← List.append_assoc gap, ← List.append_assoc, Text.trimEnd_append, hfront]
  split
  · rename_i hempty
    simp [List.isEmpty_iff.mp hempty]
  · simp

/-- What stands behind the colons does not start with another one. -/
theorem Opens.head?_ne {source : List Char} (hgap : Text.allBlank gap = true)
    (hspelled : head.Spelled source rest) : (gap ++ (source ++ rest)).head? ≠ some ':' := by
  obtain ⟨-, c, hc, hcolon⟩ := hspelled.isTrimmed
  intro heq
  rw [List.head?_append, List.head?_append, Option.or_eq_some_iff, Option.or_eq_some_iff] at heq
  obtain hblank | ⟨-, hsource | ⟨hnone, -⟩⟩ := heq
  · exact absurd (Text.allBlank_iff.mp hgap ':' (List.mem_of_mem_head? hblank)) (by decide)
  · exact hcolon (Option.some.inj (hc.symm.trans hsource))
  · cases hnone.symm.trans hc

/-- A head does not start with blanks. -/
theorem read?_eq_none_of_gap (hgap : Text.allBlank gap = true) (hne : gap ≠ []) (cs : List Char) :
    Head.read? (gap ++ cs) = none := by
  rw [Option.eq_none_iff_forall_ne_some]
  rintro ⟨head, rest⟩ hread
  obtain ⟨source, hsource, hspelled⟩ := Head.read?_eq_some_iff.mp hread
  obtain ⟨htrimmed, c, hc, -⟩ := hspelled.isTrimmed
  obtain ⟨d, gap, rfl⟩ := List.exists_cons_of_ne_nil hne
  have hd : source.head? = some d := by
    have hhead := congrArg List.head? hsource
    rw [List.head?_append (l := source), Option.mem_def.mp hc, Option.some_or] at hhead
    exact hc.trans hhead.symm
  have hblank := Text.allBlank_iff.mp hgap d List.mem_cons_self
  rw [htrimmed.head d hd] at hblank
  cases hblank

/-- **What a line is that starts with colons and a head.** After two colons nothing may stand around
the head; after three or more it makes no difference what does. -/
theorem Opens.read?_eq (h : Opens line colons gap head rest) :
    read? line =
      if colons = 2 then if gap = [] ∧ Text.allBlank rest = true then some (.leaf head) else none
      else if 3 ≤ colons then some (.containerStart colons head) else none := by
  have hrest : Text.allBlank (Text.trimEnd rest) = Text.allBlank rest := by
    obtain ⟨blanks, hblanks, hall⟩ := Text.exists_trimEnd_append rest
    conv_rhs => rw [hblanks, Text.allBlank, List.all_append]
    rw [show blanks.all Text.isBlank = true from hall, Bool.and_true]
    rfl
  obtain ⟨hgap, source, hline, hspelled⟩ := h.trimEnd
  have hread := Head.read?_eq_some_iff.mpr ⟨source, rfl, hspelled⟩
  obtain ⟨htrimmed, c, hc, -⟩ := hspelled.isTrimmed
  have hsource : source ≠ [] := List.ne_nil_of_mem (List.mem_of_mem_head? hc)
  rw [read?_colons hline (Opens.head?_ne hgap hspelled)]
  refine if_congr .rfl ?_ (if_congr .rfl ?_ rfl)
  · rw [ofLeaf?]
    by_cases hnil : gap = []
    · simp [hnil, hread, hrest]
    · simp [hnil, read?_eq_none_of_gap hgap hnil]
  · have hrun : Text.Run Text.isBlank gap (source ++ Text.trimEnd rest) := by
      refine ⟨Text.allBlank_iff.mp hgap, fun d hd => htrimmed.head d ?_⟩
      rwa [List.head?_append_of_ne_nil _ hsource] at hd
    rw [Text.trimStart_run hrun, ofContainer?, hread]
    simp [hsource]

/-- Every line is read by its colons and the text behind them. -/
theorem exists_colons (line : List Char) : ∃ n after,
    Text.trimEnd line = List.replicate n ':' ++ after ∧
      read? line = if n = 2 then ofLeaf? after
        else if 3 ≤ n then ofContainer? n (Text.trimStart after) else none := by
  obtain ⟨run, after, hline, hrun⟩ := Text.exists_run (· == ':') (Text.trimEnd line)
  have hcolons : run = List.replicate run.length ':' :=
    List.eq_replicate_of_mem fun c hc => eq_of_beq (hrun.all c hc)
  rw [hcolons] at hline
  exact ⟨run.length, after, hline, read?_colons hline fun heq => by cases hrun.stops ':' heq⟩

theorem ofLeaf?_eq_some {after : List Char} {d : DirectiveLine} (h : ofLeaf? after = some d) :
    ∃ head rest, Head.read? after = some (head, rest) ∧ Text.allBlank rest = true ∧
      d = .leaf head := by
  rw [ofLeaf?] at h
  split at h
  · rename_i head rest hhead
    split at h
    · exact ⟨head, rest, hhead, ‹_›, (Option.some.inj h).symm⟩
    · cases h
  · cases h

theorem ofContainer?_eq_some {after : List Char} {d : DirectiveLine}
    (h : ofContainer? colons after = some d) : d = .containerEnd colons ∨
      ∃ head rest, Head.read? after = some (head, rest) ∧ d = .containerStart colons head := by
  rw [ofContainer?] at h
  split at h
  · exact .inl (Option.some.inj h).symm
  · obtain ⟨⟨head, rest⟩, hhead, rfl⟩ := Option.map_eq_some_iff.mp h
    exact .inr ⟨head, rest, hhead, rfl⟩

/-- **A line that is read as a directive** ends one, or is made of two colons and a head, or starts
with three or more colons and a head. -/
theorem read?_cases {d : DirectiveLine} (h : read? line = some d) :
    (∃ colons, d = .containerEnd colons) ∨
    (∃ head rest, d = .leaf head ∧ Opens line 2 [] head rest ∧ Text.allBlank rest = true) ∨
    ∃ colons gap head rest, d = .containerStart colons head ∧ 3 ≤ colons ∧
      Opens line colons gap head rest := by
  obtain ⟨n, after, hline, hread⟩ := exists_colons line
  obtain ⟨blanks, hblanks, hall⟩ := Text.exists_trimEnd_append line
  rw [hread] at h
  split at h
  · subst n
    obtain ⟨head, rest, hhead, hrest, rfl⟩ := ofLeaf?_eq_some h
    obtain ⟨source, rfl, hspelled⟩ := Head.read?_eq_some_iff.mp hhead
    have hopens : Opens (Text.trimEnd line) 2 [] head rest := ⟨rfl, source, hline, hspelled⟩
    refine .inr (.inl ⟨head, rest ++ blanks, rfl, hblanks ▸ hopens.append_blanks hall, ?_⟩)
    exact Text.allBlank_iff.mpr
      (List.forall_mem_append.mpr ⟨Text.allBlank_iff.mp hrest, Text.allBlank_iff.mp hall⟩)
  · split at h
    · rename_i hn
      obtain rfl | ⟨head, rest, hhead, rfl⟩ := ofContainer?_eq_some h
      · exact .inl ⟨n, rfl⟩
      · obtain ⟨source, hafter, hspelled⟩ := Head.read?_eq_some_iff.mp hhead
        obtain ⟨gap, behind, rfl, hrun⟩ := Text.exists_run Text.isBlank after
        rw [Text.trimStart_run hrun] at hafter
        have hopens : Opens (Text.trimEnd line) n gap head rest :=
          ⟨Text.allBlank_iff.mpr hrun.all, source, hafter ▸ hline, hspelled⟩
        exact .inr (.inr ⟨n, gap, head, rest ++ blanks, rfl, hn,
          hblanks ▸ hopens.append_blanks hall⟩)
    · cases h

/-! ## Text that is lost -/

/-- The colons and the head of a line that starts a directive. -/
def start? : DirectiveLine → Option (Nat × Head)
  | .containerStart colons head => some (colons, head)
  | .containerEnd _ => none
  | .leaf head => some (2, head)

/-- No text of the line is lost: if it starts a directive, it is made of the colons and the head
that are read, with blanks around the head; and with other text behind a head it is no directive. -/
structure KeepsText (line : List Char) : Prop where
  whole : ∀ d colons head, read? line = some d → d.start? = some (colons, head) →
    ∃ gap rest, Opens line colons gap head rest ∧ Text.allBlank rest = true
  plain : ∀ colons gap head rest, 2 ≤ colons → Opens line colons gap head rest →
    Text.allBlank rest = false → read? line = none

/-- **Text is lost behind a head after three or more colons**, and nowhere else. -/
theorem keepsText_iff (line : List Char) :
    KeepsText line ↔ ∀ colons gap head rest, 3 ≤ colons → Opens line colons gap head rest →
      Text.allBlank rest = true := by
  constructor
  · intro h colons gap head rest hcolons hopens
    by_contra hrest
    have hnone := h.plain colons gap head rest (by omega) hopens (Bool.not_eq_true _ ▸ hrest)
    rw [hopens.read?_eq, if_neg (by omega), if_pos hcolons] at hnone
    cases hnone
  · refine fun h => ⟨fun d colons head hread hstart => ?_,
      fun colons gap head rest hcolons hopens hrest => ?_⟩
    · obtain ⟨_, rfl⟩ | ⟨_, rest, rfl, hopens, hrest⟩ | ⟨_, gap, _, rest, rfl, hcolons, hopens⟩ :=
        read?_cases hread
      · cases hstart
      · cases hstart
        exact ⟨[], rest, hopens, hrest⟩
      · cases hstart
        exact ⟨gap, rest, hopens, h _ _ _ _ hcolons hopens⟩
    · rw [hopens.read?_eq]
      by_cases htwo : colons = 2
      · rw [if_pos htwo, if_neg (by simp [hrest])]
      · have hall := h colons gap head rest (by omega) hopens
        rw [hrest] at hall
        cases hall

/-- The words behind the name are lost. -/
theorem not_keepsText : ¬ ∀ line, KeepsText line := by
  intro h
  have hread : Head.read? "note and more".toList =
      some (⟨"note", none, {}⟩, " and more".toList) := by
    decide +kernel
  obtain ⟨source, hsource, hspelled⟩ := Head.read?_eq_some_iff.mp hread
  have hopens : Opens (":::" ++ "note and more").toList 3 [] ⟨"note", none, {}⟩
      " and more".toList := by
    refine ⟨rfl, source, ?_, hspelled⟩
    rw [String.toList_append, hsource]
    rfl
  have hnone := (h _).plain 3 [] _ _ (by decide) hopens (by decide)
  rw [hopens.read?_eq, if_neg (by decide), if_pos (by decide)] at hnone
  cases hnone

end

end DirectiveLine

end RichMarkdown
