import Mathlib.Data.List.DropRight
import Mathlib.Data.List.Forall2
import RichMarkdown.Proofs.Layout.Gaps

/-!
# Code is verbatim

The line ends at the end of code are owed like any others, and a gap comes on top of them. So the
text that a layout stands for is what it has written with what it owes (`State.withOwed`), and
outside of containers every character that is written, line feeds too, is one more of that text.

* `Steady.withOwed_writeStyled`: writing a text adds that text.
* `renderIn_eq_rdropWhile`: code blocks and paragraphs show as they are, joined by blank lines; only
  the line ends after all content are never written.
-/

set_option autoImplicit false

namespace RichMarkdown.Layout

namespace State

variable {s t : State String}

/-! ## What a layout stands for -/

/-- The text of a layout with the line ends that it owes. -/
def withOwed (s : State String) : List Char := s.out.toList ++ List.replicate s.owed '\n'

/-- What is owed is all that the text lacks. -/
theorem Steady.rdropWhile_withOwed (h : s.Steady) :
    s.withOwed.rdropWhile (· == '\n') = s.out.toList := by
  have hfeeds : (List.replicate s.owed '\n').reverse.dropWhile (· == '\n') = [] :=
    List.dropWhile_eq_nil_iff.mpr fun c hc => by simp_all
  have hrest : s.withOwed.rdropWhile (· == '\n') = s.out.toList.rdropWhile (· == '\n') := by
    rw [withOwed, List.rdropWhile, List.reverse_append, List.dropWhile_append, hfeeds]
    rfl
  rw [hrest]
  cases hs : s.started with
  | false => rw [(h.untouched hs).1]; rfl
  | true =>
    obtain ⟨c, hc, hne⟩ := h.ended hs
    obtain ⟨cs, hcs⟩ := List.getLast?_eq_some_iff.mp hc
    rw [hcs, List.rdropWhile_concat_neg _ _ _ (by simpa using hne)]

theorem Steady.started_of_mem (h : s.Steady) {c : Char} (hc : c ∈ s.withOwed) (hne : c ≠ '\n') :
    s.started = true := by
  by_contra hs
  rw [withOwed, (h.untouched (by simpa using hs)).1] at hc
  exact hne (List.eq_of_mem_replicate hc)

/-! ## Writing outside of containers -/

theorem Steady.withOwed_writeChar (h : s.Steady) (hm : s.margins = []) (style : TextStyle)
    (c : Char) : (s.writeChar PlainText.sink style c).withOwed = s.withOwed ++ [c] := by
  unfold State.writeChar
  split
  · rename_i hc
    obtain rfl : c = '\n' := by simpa using hc
    simp only [withOwed, State.newline, List.replicate_succ', List.append_assoc]
  · have hblank : s.blankMargin = "" := by
      rw [blankMargin, hm]
      rfl
    have hnext : s.nextMargin = "" := by
      rw [nextMargin, hm]
      rfl
    rw [writeLine_plain h (by simp)]
    simp [withOwed, State.afterContent, lead, hnext, toList_lineEnds_of_blank hblank]

/-- **Outside of containers a text is added as it is**, its line feeds as line ends that are owed or
written. -/
theorem Steady.withOwed_writeStyled (h : s.Steady) (hm : s.margins = []) (text : String)
    (style : TextStyle) :
    (s.writeStyled PlainText.sink text style).withOwed = s.withOwed ++ text.toList := by
  rw [writeStyled_eq_foldl joins_plainText]
  generalize text.toList = cs
  induction cs generalizing s with
  | nil => exact (List.append_nil _).symm
  | cons c cs ih =>
    have hc := h.writeChar style c
    rw [List.foldl_cons, ih hc.steady (hc.margins_nil hm), h.withOwed_writeChar hm,
      List.append_assoc]
    rfl

end State

/-! ## Verbatim blocks -/

open State

/-- The block is code with content, or a paragraph of one line, and this is its text. -/
inductive Verbatim : Block → String → Prop
  | code {language : Option String} {literal : String} (h : ∃ c ∈ literal.toList, c ≠ '\n') :
    Verbatim (.code language literal) literal
  | text {text : String} (hne : text ≠ "") (h : '\n' ∉ text.toList) :
    Verbatim (.paragraph [.text text]) text

theorem Verbatim.exists_mem {x : Block} {text : String} (h : Verbatim x text) :
    ∃ c ∈ text.toList, c ≠ '\n' := by
  cases h with
  | code h => exact h
  | text hne h =>
    obtain ⟨c, hc⟩ := List.exists_mem_of_ne_nil text.toList (by simpa using hne)
    exact ⟨c, hc, fun heq => h (heq ▸ hc)⟩

/-- Between verbatim blocks the line ends that are owed are those of code. -/
structure AfterCode (s : State String) : Prop extends Outermost s where
  owedByCode : s.owedByCode = s.owed

theorem afterCode_empty : AfterCode { out := "" } := ⟨outermost_empty, rfl⟩

namespace AfterCode

variable {s : State String}

/-- The gap comes on top of what code owes. -/
theorem withOwed_blockStart (h : AfterCode s) (hs : s.started = true) :
    s.blockStart.withOwed = s.withOwed ++ "\n\n".toList := by
  have hgap : max s.owed (s.owedByCode + 2) = s.owed + 2 := by
    have howed := h.owedByCode
    omega
  have hstart : s.blockStart = { s with owed := s.owed + 2 } := by
    simp only [State.blockStart, h.fresh, h.tightness, request, hs, Gap.lines]
    simpa using hgap
  rw [hstart]
  simp only [withOwed, List.replicate_succ', List.append_assoc]
  rfl

/-- A block owes the line ends of its code and no others. -/
theorem owedByCode_block {x : Block} {text : String} (hx : Verbatim x text) (c : Context)
    (s : State String) : (Walk.block plain x ⟨c, s⟩).out.owedByCode =
      (Walk.block plain x ⟨c, s⟩).out.owed := by
  cases hx with
  | code hany =>
    have hany' : text.toList.any (· ≠ '\n') = true := by simpa using hany
    simp only [Walk.block, Walk.leaf, backend, leaf, codeBlock, hany', if_true]
  | text hne hl =>
    have hline : (s.blockStart.write PlainText.sink text).InLine :=
      inLine_writeStyled (endsInContent_of_notMem (by simpa using hne) hl) _ _
    exact hline.owedByCode.trans hline.owed.symm

theorem withOwed_block (h : AfterCode s) {x : Block} {text : String} (hx : Verbatim x text)
    (c : Context) :
    (Walk.block plain x ⟨c, s⟩).out.withOwed = s.blockStart.withOwed ++ text.toList := by
  have hstart := h.steady.blockStart
  have hmargins := hstart.margins_nil h.margins
  cases hx with
  | code hany =>
    have hwrite := (hstart.steady.withStyles ({ s.blockStart.style with monospace := true } ::
      s.blockStart.styles)).withOwed_writeStyled hmargins text
      { s.blockStart.style with monospace := true }
    simp only [Walk.block, Walk.leaf, backend, leaf, codeBlock]
    split
    · exact hwrite
    · exact hwrite
  | text hne hl => exact hstart.steady.withOwed_writeStyled hmargins text _

theorem block (h : AfterCode s) {x : Block} {text : String} (hx : Verbatim x text) (c : Context) :
    AfterCode (Walk.block plain x ⟨c, s⟩).out :=
  ⟨h.toOutermost.block x c, owedByCode_block hx c s⟩

theorem started_block (h : AfterCode s) {x : Block} {text : String} (hx : Verbatim x text)
    (c : Context) : (Walk.block plain x ⟨c, s⟩).out.started = true := by
  obtain ⟨a, ha, hne⟩ := hx.exists_mem
  refine (h.block hx c).steady.started_of_mem (c := a) ?_ hne
  rw [h.withOwed_block hx c]
  exact List.mem_append_right _ ha

/-- Blocks behind content. -/
theorem withOwed_blocks (h : AfterCode s) (hs : s.started = true) {xs : List Block}
    {texts : List String} (hx : List.Forall₂ Verbatim xs texts) (c : Context) :
    AfterCode (Walk.blocks plain xs ⟨c, s⟩).out ∧
      (Walk.blocks plain xs ⟨c, s⟩).out.withOwed =
        s.withOwed ++ (String.join (texts.map ("\n\n" ++ ·))).toList := by
  induction hx generalizing s c with
  | nil => exact ⟨h, (List.append_nil _).symm⟩
  | @cons x text xs texts hx _ ih =>
    obtain ⟨hafter, htail⟩ := ih (h.block hx c) (h.started_block hx c)
      (Walk.block plain x ⟨c, s⟩).context
    refine ⟨hafter, ?_⟩
    rw [h.withOwed_block hx c, h.withOwed_blockStart hs] at htail
    rw [List.map_cons, String.join_cons, String.toList_append, String.toList_append]
    simp only [List.append_assoc] at htail ⊢
    exact htail

end AfterCode

/-- **Code is verbatim.** The plain text of code blocks with content and of paragraphs of one line
is their texts as they are, joined by blank lines, but for the line ends after all content. -/
theorem renderIn_eq_rdropWhile {xs : List Block} {texts : List String}
    (hx : List.Forall₂ Verbatim xs texts) (c : Context) :
    (PlainText.renderIn xs c).1.toList =
      ("\n\n".intercalate texts).toList.rdropWhile (· == '\n') := by
  cases hx with
  | nil => rfl
  | @cons x text xs texts hx hxs =>
    have hfirst := afterCode_empty.withOwed_block hx c
    obtain ⟨hafter, htexts⟩ := (afterCode_empty.block hx c).withOwed_blocks
      (afterCode_empty.started_block hx c) hxs (Walk.block plain x ⟨c, { out := "" }⟩).context
    have hwhole : (Walk.blocks plain (x :: xs) ⟨c, { out := "" }⟩).out.withOwed =
        ("\n\n".intercalate (text :: texts)).toList := by
      rw [intercalate_cons, String.toList_append]
      exact htexts.trans (congrArg (· ++ _) hfirst)
    rw [← hwhole]
    exact hafter.steady.rdropWhile_withOwed.symm

/-- The empty lines around the first code are kept; those after the last are not. -/
theorem renderIn_listing :
    List.Forall₂ Verbatim
        [.code none "\n\na\n\n", .code none "\nb", .paragraph [.text "c"], .code none "d\n\n"]
        ["\n\na\n\n", "\nb", "c", "d\n\n"] ∧
      (PlainText.renderIn
          [.code none "\n\na\n\n", .code none "\nb", .paragraph [.text "c"], .code none "d\n\n"]
          {}).1.toList = "\n\na\n\n\n\n\nb\n\nc\n\nd".toList := by
  have hblocks : List.Forall₂ Verbatim
      [.code none "\n\na\n\n", .code none "\nb", .paragraph [.text "c"], .code none "d\n\n"]
      ["\n\na\n\n", "\nb", "c", "d\n\n"] :=
    .cons (.code ⟨'a', by decide⟩) <| .cons (.code ⟨'b', by decide⟩) <|
      .cons (.text (by decide) (by decide)) <| .cons (.code ⟨'d', by decide⟩) .nil
  exact ⟨hblocks, (renderIn_eq_rdropWhile hblocks {}).trans (by decide)⟩

end RichMarkdown.Layout
