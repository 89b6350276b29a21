import RichMarkdown.Markdown.Parse
import RichMarkdown.Proofs.Directive.Apart
import RichMarkdown.Proofs.Markdown.Events
import RichMarkdown.Proofs.Text.Digits

/-!
# Texts of comments, paragraphs and directives

`Written`: the pieces of a text are comments on lines of their own, paragraphs and directives, set
apart by blank lines, and so are the bodies of the directives. `EntriesStand`: blocks are, one by
one, what such entries ask for. The grammar stays unknown; all that is asked of it is that it keeps
comments and paragraphs in order (`Grammar.KeepsComments`).

* `laid_source`: the text for the grammar is laid out as the text of the author is, with the line of
  a placeholder in the place of each directive.
* `keepsComments_lineGrammar`: a reader that takes each line for a block of its own keeps comments.
-/

set_option autoImplicit false

namespace RichMarkdown

/-! ## The text of placeholders -/

namespace Placeholder

theorem dropStart?_append (ps cs : List Char) : dropStart? ps (ps ++ cs) = some cs := by
  induction ps with
  | nil => rfl
  | cons p ps ih => rw [List.cons_append, dropStart?, if_pos rfl, ih]

theorem dropEnd?_append (ending cs : List Char) : dropEnd? ending (cs ++ ending) = some cs := by
  rw [dropEnd?, List.reverse_append, dropStart?_append, Option.map_some, List.reverse_reverse]

/-- Numbers are read as they are written. -/
theorem number?_toString (n : Nat) : number? (toString n).toList = some n := by
  have hplus : '+' ∉ (toString n).toList := Text.notMem_toString (by decide) n
  have hall : (toString n).toList.all Char.isDigit = true :=
    List.all_eq_true.mpr fun c hc => Text.isDigit_of_mem_toString hc
  have hne : (toString n).toList.isEmpty = false := by
    rw [Text.toList_toString]
    exact List.isEmpty_eq_false_iff.mpr Nat.toDigits_ne_nil
  have hvalue : (toString n).toList.foldl (fun n d => 10 * n + (d.toNat - '0'.toNat)) 0 = n := by
    rw [Text.toList_toString]
    exact Nat.ofDigitChars_ten_toDigits
  unfold number?
  split
  · rename_i rest hcs
    exact absurd (hcs ▸ List.mem_cons_self) hplus
  · simp only [hne, hall, hvalue]
    rfl

/-- The line of a placeholder. -/
def line (n : Nat) : List Char :=
  opener.toList ++ ((toString n).toList ++ (closer.toList ++ ['\n']))

theorem toList_block (n : Nat) : (block n).toList = '\n' :: (line n ++ ['\n']) := by
  simp [block, line]

/-- Only what stands between blanks matters. -/
theorem index?_congr {s t : String} (h : Text.trim s.toList = Text.trim t.toList) :
    index? s = index? t := by
  rw [index?, index?, h]

theorem trim_line (n : Nat) :
    Text.trim (line n) = opener.toList ++ ((toString n).toList ++ closer.toList) := by
  have hstart : Text.trimStart (line n) = line n := rfl
  have hfeed : (Text.trimEnd ['\n']).isEmpty = true := by decide
  have hcloser : (Text.trimEnd closer.toList).isEmpty = false := by decide
  have hline : line n = opener.toList ++ ((toString n).toList ++ closer.toList) ++ ['\n'] := by
    simp [line]
  rw [Text.trim, hstart, hline, Text.trimEnd_append, if_pos hfeed, ← List.append_assoc,
    Text.trimEnd_append, hcloser]
  rfl

/-- A placeholder has the index that it was made for. -/
theorem index?_line {s : String} {n : Nat} (h : Text.trim s.toList = Text.trim (line n)) :
    index? s = some n := by
  rw [index?, h, trim_line, dropStart?_append]
  simp only [Option.bind_eq_bind, Option.bind_some]
  rw [dropEnd?_append]
  exact number?_toString n

end Placeholder

/-! ## Texts of comments, paragraphs and directives -/

/-- What an author writes one after the other. -/
inductive Entry where
  /-- A comment on a line of its own. -/
  | comment (line : List Char)
  | paragraph (lines : List (List Char))
  | directive (head : Directive) (body : List Entry)

namespace Entry

def isDirective : Entry → Bool
  | directive _ _ => true
  | _ => false

end Entry

/-- A line of spaces and tabs. -/
def IsBlankLine (line : List Char) : Prop := ∀ c ∈ line, c = ' ' ∨ c = '\t' ∨ c = '\n'

/-- A line with a comment on it and nothing else, not indented as code is. -/
def IsComment (line : List Char) : Prop :=
  ∃ indent body rest, line = indent ++ ("<!--".toList ++ (body ++ ("-->".toList ++ rest))) ∧
    indent.length ≤ 3 ∧ (∀ c ∈ indent, c = ' ') ∧ IsBlankLine rest

/-- The text ends here or goes on with a blank line. -/
def Parted (lines : List (List Char)) : Prop := ∀ l ∈ lines.head?, IsBlankLine l

/-- Lines are comments and paragraphs, set apart by blank lines. -/
inductive Laid (prose : List (List Char) → Prop) : List (List Char) → List Entry → Prop
  | done : Laid prose [] []
  | blank {l : List Char} {ls : List (List Char)} {es : List Entry} : IsBlankLine l →
      Laid prose ls es → Laid prose (l :: ls) es
  | comment {l : List Char} {ls : List (List Char)} {es : List Entry} : IsComment l → Parted ls →
      Laid prose ls es → Laid prose (l :: ls) (.comment l :: es)
  | paragraph {p ls : List (List Char)} {es : List Entry} : prose p → Parted ls →
      Laid prose ls es → Laid prose (p ++ ls) (.paragraph p :: es)

/-- What a piece says of a directive. -/
def Head.directive (g : Grammar) (o : Options) (kind : DirectiveKind) (head : Head) : Directive :=
  ⟨head.name, kind, g.label o (head.label.getD ""), head.attributes⟩

/-- The pieces are entries: plain Markdown of comments and paragraphs, and directives, whose bodies
are entries again. -/
inductive Written (g : Grammar) (o : Options) (prose : List (List Char) → Prop) :
    List Piece → List Entry → Prop
  | nil : Written g o prose [] []
  | markdown {text : String} {ps : List Piece} {es fs : List Entry} :
      Laid prose (Text.lines text.toList) es → Written g o prose ps fs →
      Written g o prose (.markdown text :: ps) (es ++ fs)
  | leaf {head : Head} {ps : List Piece} {fs : List Entry} : Written g o prose ps fs →
      Written g o prose (.leaf head :: ps) (.directive (head.directive g o .leaf) [] :: fs)
  | container {head : Head} {body : String} {ps : List Piece} {es fs : List Entry} :
      Written g o prose (Piece.split body) es → Written g o prose ps fs →
      Written g o prose (.container head body :: ps)
        (.directive (head.directive g o .container) es :: fs)

/-! ## Entries in their places -/

mutual

/-- A block is what an entry asks for. A comment keeps its text, blanks around it aside. -/
inductive Entry.Stands : Entry → Block → Prop
  | comment {line : List Char} {s : String} : Text.trim s.toList = Text.trim line →
      Entry.Stands (.comment line) (.html s)
  | paragraph {lines : List (List Char)} {content : List Inline} :
      Entry.Stands (.paragraph lines) (.paragraph content)
  | directive {head : Directive} {body : List Entry} {children : List Block} :
      EntriesStand body children → Entry.Stands (.directive head body) (.directive head children)

/-- Blocks are what entries ask for, in order, and there are no others. -/
inductive EntriesStand : List Entry → List Block → Prop
  | nil : EntriesStand [] []
  | cons {e : Entry} {b : Block} {es : List Entry} {bs : List Block} : e.Stands b →
      EntriesStand es bs → EntriesStand (e :: es) (b :: bs)

end

theorem entriesStand_cons {e : Entry} {b : Block} {es : List Entry} {bs : List Block} :
    EntriesStand (e :: es) (b :: bs) ↔ e.Stands b ∧ EntriesStand es bs := by
  constructor
  · intro h
    cases h with
    | cons hb hbs => exact ⟨hb, hbs⟩
  · rintro ⟨hb, hbs⟩
    exact .cons hb hbs

/-- The grammar reads comments and paragraphs, set apart by blank lines, as raw HTML and paragraphs,
in order. -/
def Grammar.KeepsComments (g : Grammar) (o : Options) (outer : String)
    (prose : List (List Char) → Prop) : Prop :=
  ∀ (text : String) (es : List Entry), Laid prose (Text.lines text.toList) es →
    EntriesStand es (g.blocks o (some outer) text)

/-! ## The text with placeholders -/

/-- The entries with placeholders for directives, numbered from the given index. -/
def sourceEntries : Nat → List Entry → List Entry
  | _, [] => []
  | n, .directive _ _ :: es => .comment (Placeholder.line n) :: sourceEntries (n + 1) es
  | n, e :: es => e :: sourceEntries n es

variable {prose : List (List Char) → Prop}

theorem parted_of_blank {l : List Char} {ls : List (List Char)} (h : IsBlankLine l) :
    Parted (l :: ls) := by
  intro m hm
  obtain rfl := Option.some.inj hm
  exact h

theorem parted_append {xs ys : List (List Char)} (hx : Parted xs) (hy : Parted ys) :
    Parted (xs ++ ys) := by
  cases xs with
  | nil => exact hy
  | cons x xs => exact hx

theorem Laid.append {xs ys : List (List Char)} {es fs : List Entry} (h : Laid prose xs es)
    (hy : Parted ys) (h' : Laid prose ys fs) : Laid prose (xs ++ ys) (es ++ fs) := by
  induction h with
  | done => exact h'
  | blank hl _ ih => exact .blank hl ih
  | comment hl hp _ ih => exact .comment hl (parted_append hp hy) ih
  | @paragraph p ls es hprose hp _ ih =>
    rw [List.append_assoc]
    exact .paragraph hprose (parted_append hp hy) ih

theorem isBlankLine_feed : IsBlankLine ['\n'] := by
  intro c hc
  exact .inr (.inr (List.mem_singleton.mp hc))

theorem isComment_line (n : Nat) : IsComment (Placeholder.line n) := by
  refine ⟨[], "prism-directive-".toList ++ (toString n).toList, ['\n'], ?_, by decide, nofun,
    isBlankLine_feed⟩
  rw [Placeholder.line, List.nil_append, List.append_assoc, ← List.append_assoc]
  rfl

/-- A placeholder is three lines, so whatever follows starts with a line of its own. -/
theorem lines_block (n : Nat) (cs : List Char) :
    Text.lines ((Placeholder.block n).toList ++ cs) =
      ['\n'] :: Placeholder.line n :: ['\n'] :: Text.lines cs := by
  have hfeed : '\n' ∉ Placeholder.opener.toList ++
      ((toString n).toList ++ Placeholder.closer.toList) := by
    have hdigits : '\n' ∉ (toString n).toList := Text.notMem_toString (by decide) n
    have hends : '\n' ∉ Placeholder.opener.toList ∧ '\n' ∉ Placeholder.closer.toList := by decide
    simp only [List.mem_append, hdigits, hends, or_self, not_false_eq_true]
  have hblank (ds : List Char) : Text.lines ('\n' :: ds) = ['\n'] :: Text.lines ds :=
    Text.lines_append List.not_mem_nil ds
  have hline := Text.lines_append hfeed ('\n' :: cs)
  rw [hblank] at hline
  have hcs : (Placeholder.block n).toList ++ cs = '\n' :: (Placeholder.opener.toList ++
      ((toString n).toList ++ Placeholder.closer.toList) ++ ['\n'] ++ '\n' :: cs) := by
    simp [Placeholder.toList_block, Placeholder.line]
  rw [hcs, hblank, hline]
  simp [Placeholder.line]

theorem sourceEntries_append {lines : List (List Char)} {es : List Entry} (h : Laid prose lines es)
    (n : Nat) (fs : List Entry) : sourceEntries n (es ++ fs) = es ++ sourceEntries n fs := by
  induction h with
  | done => rfl
  | blank _ _ ih => exact ih
  | @comment l _ _ _ _ _ ih => exact congrArg (Entry.comment l :: ·) ih
  | @paragraph p _ _ _ _ _ ih => exact congrArg (Entry.paragraph p :: ·) ih

/-- A directive leaves a placeholder between blank lines. -/
theorem laid_block {ls : List (List Char)} {es : List Entry} (n : Nat) (h : Laid prose ls es) :
    Laid prose (['\n'] :: Placeholder.line n :: ['\n'] :: ls)
      (.comment (Placeholder.line n) :: es) := by
  exact .blank isBlankLine_feed (.comment (isComment_line n) (parted_of_blank isBlankLine_feed)
    (.blank isBlankLine_feed h))

theorem parted_source {p : Piece} (hp : p.isPlain = false) (n : Nat) (ps : List Piece) :
    Parted (Text.lines (Piece.source n (p :: ps)).toList) := by
  have hsource : Piece.source n (p :: ps) = Placeholder.block n ++ Piece.source (n + 1) ps := by
    cases p with
    | markdown text => cases hp
    | leaf head => rfl
    | container head body => rfl
  rw [hsource, String.toList_append, lines_block]
  exact parted_of_blank isBlankLine_feed

/-- **The text for the grammar is laid out like the text of the author**, with a placeholder for
each directive. -/
theorem laid_source {g : Grammar} {o : Options} {ps : List Piece} {es : List Entry}
    (h : Written g o prose ps es) : ∀ n, Piece.Apart ps →
      Laid prose (Text.lines (Piece.source n ps).toList) (sourceEntries n es) := by
  induction h with
  | nil => exact fun _ _ => .done
  | @markdown text ps es fs hl hw ih =>
    intro n ha
    rw [sourceEntries_append hl]
    cases ha with
    | last =>
      cases hw
      simpa [Piece.source, sourceEntries] using hl
    | markdown hclosed hp ha =>
      rw [Piece.source, String.toList_append, Text.lines_append_of_closed hclosed]
      exact hl.append (parted_source hp n _) (ih n ha)
    | directive hp _ => cases hp
  | leaf _ ih =>
    intro n ha
    cases ha with
    | directive _ ha =>
      rw [Piece.source, String.toList_append, lines_block]
      · exact laid_block n (ih (n + 1) ha)
      · nofun
  | container _ _ _ ih =>
    intro n ha
    cases ha with
    | directive _ ha =>
      rw [Piece.source, String.toList_append, lines_block]
      · exact laid_block n (ih (n + 1) ha)
      · nofun

/-! ## A reader of lines -/

/-- A reader for which every line that is not blank is a block of its own: raw HTML if it starts as
a comment does, else a paragraph. -/
def lineBlocks : List (List Char) → List Block
  | [] => []
  | l :: ls =>
    if l.all fun c => c == ' ' || c == '\t' || c == '\n' then lineBlocks ls
    else if "<!--".toList.isPrefixOf (Text.trimStart l) then
      .html (String.ofList l) :: lineBlocks ls
    else .paragraph [.text (String.ofList (Text.trim l))] :: lineBlocks ls

def lineGrammar : Grammar where
  events _ _ text := blocksEvents false (lineBlocks (Text.lines text.toList))

/-- One line that starts with a letter. -/
def IsProse (lines : List (List Char)) : Prop :=
  ∃ l, lines = [l] ∧ ∃ c ∈ l.head?, c.isAlpha = true

theorem merged_lineBlocks (ls : List (List Char)) : blocksMerged (lineBlocks ls) := by
  induction ls with
  | nil => trivial
  | cons l ls ih =>
    rw [lineBlocks]
    split
    · exact ih
    · split
      · exact ⟨trivial, ih⟩
      · exact ⟨⟨trivial, nofun, trivial⟩, ih⟩

theorem regular_lineBlocks (ls : List (List Char)) : blocksRegular (lineBlocks ls) := by
  induction ls with
  | nil => trivial
  | cons l ls ih =>
    rw [lineBlocks]
    split
    · exact ih
    · split
      · exact ⟨trivial, ih⟩
      · exact ⟨⟨trivial, trivial⟩, ih⟩

theorem blocks_lineGrammar (o : Options) (outer : Option String) (text : String) :
    lineGrammar.blocks o outer text = lineBlocks (Text.lines text.toList) :=
  ofEvents_blocksEvents (merged_lineBlocks _) (regular_lineBlocks _)

theorem lineBlocks_comment {l : List Char} (hl : IsComment l) (ls : List (List Char)) :
    lineBlocks (l :: ls) = .html (String.ofList l) :: lineBlocks ls := by
  obtain ⟨indent, body, rest, rfl, -, hindent, -⟩ := hl
  have hmark : '<' ∈ indent ++ ("<!--".toList ++ (body ++ ("-->".toList ++ rest))) := by simp
  have hblank : ¬ (indent ++ ("<!--".toList ++ (body ++ ("-->".toList ++ rest)))).all
      (fun c => c == ' ' || c == '\t' || c == '\n') = true := by
    intro hall
    exact absurd (List.all_eq_true.mp hall '<' hmark) (by decide)
  have htrim : Text.trimStart (indent ++ ("<!--".toList ++ (body ++ ("-->".toList ++ rest)))) =
      "<!--".toList ++ (body ++ ("-->".toList ++ rest)) := by
    have hdrop : ∀ c ∈ indent, Text.isBlank c = true := by
      intro c hc
      rw [hindent c hc]
      rfl
    rw [Text.trimStart, List.dropWhile_append_of_pos hdrop]
    rfl
  have hopens : "<!--".toList.isPrefixOf
      ("<!--".toList ++ (body ++ ("-->".toList ++ rest))) = true :=
    List.isPrefixOf_iff_prefix.mpr (List.prefix_append _ _)
  rw [lineBlocks, if_neg hblank, htrim, if_pos hopens]

theorem isBlank_of_isAlpha {c : Char} (h : c.isAlpha = true) : Text.isBlank c = false := by
  have hletter : (decide (c.val ≥ 65 ∧ c.val ≤ 90) ||
      (decide (c.val ≥ 97) && decide (c.val ≤ 122))) = true := h
  simp only [Bool.or_eq_true, Bool.and_eq_true, decide_eq_true_eq, ge_iff_le,
    UInt32.le_iff_toNat_le] at hletter
  have hn : (65 ≤ c.toNat ∧ c.toNat ≤ 90) ∨ (97 ≤ c.toNat ∧ c.toNat ≤ 122) := hletter
  simp only [Text.isBlank, Bool.or_eq_false_iff, Bool.and_eq_false_iff, decide_eq_false_iff_not,
    beq_eq_false_iff_ne]
  omega

theorem lineBlocks_prose {l : List Char} (hl : ∃ c ∈ l.head?, c.isAlpha = true)
    (ls : List (List Char)) :
    lineBlocks (l :: ls) = .paragraph [.text (String.ofList (Text.trim l))] :: lineBlocks ls := by
  obtain ⟨c, hc, halpha⟩ := hl
  obtain ⟨cs, rfl⟩ := List.head?_eq_some_iff.mp hc
  have hvisible := isBlank_of_isAlpha halpha
  have hblank : ¬ (c :: cs).all (fun c => c == ' ' || c == '\t' || c == '\n') = true := by
    intro hall
    have hcase := List.all_eq_true.mp hall c List.mem_cons_self
    simp only [Bool.or_eq_true, beq_iff_eq] at hcase
    rcases hcase with (rfl | rfl) | rfl <;> exact absurd halpha (by decide)
  have htrim : Text.trimStart (c :: cs) = c :: cs := by
    rw [Text.trimStart, List.dropWhile_cons, hvisible]
    rfl
  have hopens : ¬ "<!--".toList.isPrefixOf (c :: cs) = true := by
    intro hprefix
    obtain ⟨rest, hrest⟩ := List.isPrefixOf_iff_prefix.mp hprefix
    obtain rfl : '<' = c := (List.cons.inj hrest).1
    exact absurd halpha (by decide)
  rw [lineBlocks, if_neg hblank, htrim, if_neg hopens]

theorem stand_lineBlocks {ls : List (List Char)} {es : List Entry} (h : Laid IsProse ls es) :
    EntriesStand es (lineBlocks ls) := by
  induction h with
  | done => exact .nil
  | @blank l ls es hl _ ih =>
    have hblank : l.all (fun c => c == ' ' || c == '\t' || c == '\n') = true :=
      List.all_eq_true.mpr fun c hc => by simpa [or_assoc] using hl c hc
    rw [lineBlocks, if_pos hblank]
    exact ih
  | comment hl _ _ ih =>
    rw [lineBlocks_comment hl]
    exact .cons (.comment (by rw [String.toList_ofList])) ih
  | paragraph hp _ _ ih =>
    obtain ⟨l, rfl, hl⟩ := hp
    rw [List.singleton_append, lineBlocks_prose hl]
    exact .cons .paragraph ih

theorem keepsComments_lineGrammar (o : Options) (outer : String) :
    lineGrammar.KeepsComments o outer IsProse := by
  intro text es h
  rw [blocks_lineGrammar]
  exact stand_lineBlocks h

end RichMarkdown
