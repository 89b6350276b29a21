import RichMarkdown.Proofs.Markdown.Entries
import RichMarkdown.Proofs.Markdown.Placement

/-!
# Placeholders and comments of authors

The placeholder of a directive is a comment like any other and is found by its text, so a comment of
the author may be taken for it. A walk over the level of a text has placed just the directives
before the entry that it comes to, so a comment keeps its place unless it reads as the placeholder
of a directive after it (`Placement.stands_place_iff`).

* `stands_parseBlocks_iff`: the blocks of a text of comments, paragraphs and directives are what the
  author wrote, at every depth, exactly when no comment is in the way of a directive.
-/

set_option autoImplicit false

namespace RichMarkdown

/-! ## Comments that are taken for placeholders -/

/-- How many directives there are, apart from those in bodies. -/
def directiveCount (es : List Entry) : Nat := (es.filter Entry.isDirective).length

mutual

/-- An entry after so many directives of so many in all is no placeholder of a directive that is
still to come. -/
def Entry.Clear (before total : Nat) : Entry → Prop
  | .comment line =>
    ∀ i, Placeholder.index? (String.ofList line) = some i → i < before ∨ total ≤ i
  | .paragraph _ => True
  | .directive _ body => entriesClear 0 (directiveCount body) body

/-- No comment is the placeholder of a directive that comes after it in the same text. -/
def entriesClear (before total : Nat) : List Entry → Prop
  | [] => True
  | e :: es => e.Clear before total ∧
      entriesClear (if e.isDirective then before + 1 else before) total es

end

variable {prose : List (List Char) → Prop}

/-! ## Placing on a laid out level -/

/-- The node of a directive, which is right if the comments in its body are clear. -/
structure Entry.Gets (e : Entry) (d : Block) : Prop where
  directive : d.isDirective = true
  stands (before total : Nat) : e.Stands d ↔ e.Clear before total

namespace Placement

variable {ds : List Block}

theorem isDirective_of_gets {es : List Entry} {ds : List Block}
    (h : List.Forall₂ Entry.Gets es ds) : ∀ d ∈ ds, d.isDirective = true := by
  induction h with
  | nil => nofun
  | cons hd _ ih => exact List.forall_mem_cons.mpr ⟨hd.directive, ih⟩

theorem not_stands_directive {line : List Char} {d : Block} (hd : d.isDirective = true) :
    ¬ (Entry.comment line).Stands d := by
  intro h
  cases h
  cases hd

/-- A comment keeps its place unless it is the placeholder of a directive that is still to come,
which would take its place. -/
theorem html_comment {k : Nat} (hds : ∀ d ∈ ds.drop k, d.isDirective = true) {line : List Char}
    {s : String} (hs : Text.trim s.toList = Text.trim line) :
    (Entry.comment line).Clear k ds.length ∧
        html (left ds (List.range k)) s = (.html s, left ds (List.range k)) ∨
      ¬ (Entry.comment line).Clear k ds.length ∧
        (html (left ds (List.range k)) s).1.isDirective = true := by
  have hindex : Placeholder.index? (String.ofList line) = Placeholder.index? s :=
    Placeholder.index?_congr (by rw [String.toList_ofList, hs])
  simp only [Entry.Clear, hindex, html]
  cases hi : Placeholder.index? s with
  | none =>
    refine .inl ⟨?_, rfl⟩
    rintro j ⟨⟩
  | some i =>
    rw [Option.bind_some, take?_left]
    by_cases hk : i < k
    · rw [if_pos (List.mem_range.mpr hk)]
      refine .inl ⟨?_, rfl⟩
      rintro j ⟨⟩
      exact .inl hk
    · rw [if_neg (mt List.mem_range.mp hk)]
      cases hd : ds[i]? with
      | none =>
        refine .inl ⟨?_, rfl⟩
        rintro j ⟨⟩
        exact .inr (List.getElem?_eq_none_iff.mp hd)
      | some d =>
        obtain ⟨hlt, -⟩ := List.getElem?_eq_some_iff.mp hd
        refine .inr ⟨?_, ?_⟩
        · intro hclear
          rcases hclear i rfl with h | h
          · exact hk h
          · omega
        · refine hds d (List.mem_of_getElem? (i := i - k) ?_)
          rw [List.getElem?_drop, Nat.add_sub_cancel' (Nat.not_lt.mp hk), hd]

/-- A placeholder takes the next directive. -/
theorem html_placeholder {k : Nat} {d : Block} {rest : List Block} (hds : ds.drop k = d :: rest)
    {s : String} (hs : Text.trim s.toList = Text.trim (Placeholder.line k)) :
    html (left ds (List.range k)) s = (d, left ds (List.range (k + 1))) := by
  have hd : ds[k]? = some d := by
    rw [← Nat.add_zero k, ← List.getElem?_drop, hds]
    rfl
  have hk : k ∉ List.range k := by simp
  rw [html, Placeholder.index?_line hs, Option.bind_some, take?_left, if_neg hk, hd,
    List.range_succ]
  rfl

theorem blocks_cons (p : Placement) (b : Block) (bs : List Block) :
    blocks p (b :: bs) =
      ((block p b).1 :: (blocks (block p b).2 bs).1, (blocks (block p b).2 bs).2) := rfl

theorem reduceOption_left_all {k : Nat} (hk : ds.length ≤ k) :
    (left ds (List.range k)).reduceOption = [] := by
  have hnone : (List.range ds.length).filter (· ∉ List.range k) = [] := by
    refine List.filter_eq_nil_iff.mpr fun i hi => ?_
    have hlt := List.mem_range.mp hi
    simp only [List.mem_range, decide_eq_true_eq, not_not]
    omega
  rw [reduceOption_left, hnone]
  rfl

/-- **Entries are in their places** exactly when no comment is in the way: the directives before an
entry have been placed when a walk comes to it, and no others. -/
theorem stands_place_iff : ∀ (es : List Entry) (k : Nat) (bs : List Block),
    EntriesStand (sourceEntries k es) bs →
    List.Forall₂ Entry.Gets (es.filter Entry.isDirective) (ds.drop k) →
    (EntriesStand es ((blocks (left ds (List.range k)) bs).1 ++
        (blocks (left ds (List.range k)) bs).2.reduceOption) ↔
      entriesClear k ds.length es)
  | [], k, bs, hbs, hds => by
    cases hbs
    have hdrop : ds.drop k = [] := by simpa using hds
    rw [blocks, List.nil_append, reduceOption_left_all (List.drop_eq_nil_iff.mp hdrop)]
    exact iff_of_true .nil trivial
  | .comment line :: es, k, bs, hbs, hds => by
    cases hbs with
    | @cons _ _ _ bs hb hbs =>
      cases hb with
      | @comment _ s hs =>
        rw [blocks_cons, List.cons_append, entriesStand_cons, block]
        rcases html_comment (isDirective_of_gets hds) hs with ⟨hclear, hkept⟩ | ⟨hclear, htaken⟩
        · rw [hkept]
          exact and_congr (iff_of_true (.comment hs) hclear) (stands_place_iff es k bs hbs hds)
        · refine iff_of_false ?_ fun h => hclear h.1
          exact fun h => not_stands_directive htaken h.1
  | .paragraph lines :: es, k, bs, hbs, hds => by
    cases hbs with
    | @cons _ _ _ bs hb hbs =>
      cases hb with
      | @paragraph _ content =>
        have hkept (p : Placement) : block p (.paragraph content) = (.paragraph content, p) := rfl
        rw [blocks_cons, List.cons_append, entriesStand_cons, hkept]
        exact and_congr (iff_of_true .paragraph trivial) (stands_place_iff es k bs hbs hds)
  | .directive head body :: es, k, bs, hbs, hds => by
    cases hbs with
    | @cons _ _ _ bs hb hbs =>
      cases hb with
      | @comment _ s hs =>
        obtain ⟨d, rest, hd, hrest, hdrop⟩ := List.forall₂_cons_left_iff.mp hds
        have hnext : ds.drop (k + 1) = rest := by
          rw [← List.tail_drop, hdrop, List.tail_cons]
        rw [blocks_cons, List.cons_append, entriesStand_cons, block, html_placeholder hdrop hs]
        exact and_congr (hd.stands k ds.length)
          (stands_place_iff es (k + 1) bs hbs (hnext ▸ hrest))

end Placement

/-! ## Texts of comments, paragraphs and directives in their places -/

variable {g : Grammar} {o : Options} {outer : String}

/-- A level is right when the directives on it get their nodes. -/
theorem stands_of_gets (hg : g.KeepsComments o outer prose) {text : String} {es : List Entry}
    (hw : Written g o prose (Piece.split text) es)
    (hds : List.Forall₂ Entry.Gets (es.filter Entry.isDirective) (directivesOf g o outer text)) :
    EntriesStand es (parseBlocks g o outer text) ↔ entriesClear 0 (directiveCount es) es := by
  have hread : EntriesStand (sourceEntries 0 es) (readAround g o outer text) :=
    hg _ _ (laid_source hw 0 (Piece.apart_split text))
  rw [parseBlocks_eq, directiveCount, hds.length_eq, Placement.place, ← Placement.left_nil]
  exact Placement.stands_place_iff es 0 _ hread hds

theorem filter_laid {lines : List (List Char)} {es : List Entry} (h : Laid prose lines es) :
    es.filter Entry.isDirective = [] := by
  induction h with
  | done => rfl
  | blank _ _ ih => exact ih
  | comment _ _ _ ih => exact ih
  | paragraph _ _ _ ih => exact ih

theorem gets_directive {head : Directive} {body : List Entry} {children : List Block}
    (h : EntriesStand body children ↔ entriesClear 0 (directiveCount body) body) :
    Entry.Gets (.directive head body) (.directive head children) where
  directive := rfl
  stands _ _ := by
    rw [Entry.Clear, ← h]
    constructor
    · intro hs
      cases hs with
      | directive hbody => exact hbody
    · exact .directive

/-- The directives of a text get their nodes, each after those in its body. -/
theorem gets_node (hg : g.KeepsComments o outer prose) {ps : List Piece} {es : List Entry}
    (hw : Written g o prose ps es) :
    List.Forall₂ Entry.Gets (es.filter Entry.isDirective)
      (ps.filterMap (Piece.node? g o outer)) := by
  induction hw with
  | nil => exact .nil
  | markdown hl _ ih =>
    rw [List.filter_append, filter_laid hl]
    exact ih
  | leaf _ ih => exact .cons (gets_directive (iff_of_true .nil trivial)) ih
  | container hbody _ ihbody ih => exact .cons (gets_directive (stands_of_gets hg hbody ihbody)) ih

/-- **Directives are where the author wrote them, and comments stay comments**, exactly when no
comment of the author reads as the placeholder of a directive that comes after it in the same
text. -/
theorem stands_parseBlocks_iff (hg : g.KeepsComments o outer prose) {text : String}
    {es : List Entry} (hw : Written g o prose (Piece.split text) es) :
    EntriesStand es (parseBlocks g o outer text) ↔ entriesClear 0 (directiveCount es) es :=
  stands_of_gets hg hw (gets_node hg hw)

/-! ### Comments beside directives -/

/-- The line of a comment. -/
def commentLine (body : String) : List Char :=
  "<!--".toList ++ (body.toList ++ ("-->".toList ++ ['\n']))

theorem isComment_commentLine (body : String) : IsComment (commentLine body) :=
  ⟨[], body.toList, ['\n'], rfl, by decide, nofun, isBlankLine_feed⟩

/-- A comment that reads as a placeholder, but of no directive of the text, a paragraph, and a
directive around a comment. -/
def notes : String := "<!--prism-directive-7-->\n\nx\n\n:::box[Title]\n<!--note-->\n:::\n"

def boxHead : Head := ⟨"box", some "Title", Attributes.read []⟩

def notesEntries : List Entry :=
  [.comment (commentLine "prism-directive-7"), .paragraph ["x\n".toList],
    .directive (boxHead.directive lineGrammar {} .container) [.comment (commentLine "note")]]

/-- The directive that the comment before it reads as the placeholder of. -/
def impostor : String := "<!--prism-directive-0-->\n\n::real[x]\n"

def realHead : Head := ⟨"real", some "x", Attributes.read []⟩

def impostorEntries : List Entry :=
  [.comment (commentLine "prism-directive-0"),
    .directive (realHead.directive lineGrammar {} .leaf) []]

theorem written_notes : Written lineGrammar {} IsProse (Piece.split notes) notesEntries := by
  have hsplit : Piece.split notes =
      [.markdown "<!--prism-directive-7-->\n\nx\n\n", .container boxHead "<!--note-->\n"] := rfl
  have hsplit' : Piece.split "<!--note-->\n" = [.markdown "<!--note-->\n"] := by decide
  have hlines : Text.lines "<!--prism-directive-7-->\n\nx\n\n".toList =
      [commentLine "prism-directive-7", ['\n'], "x\n".toList, ['\n']] := by decide
  have hlines' : Text.lines "<!--note-->\n".toList = [commentLine "note"] := by decide
  have hx : Laid IsProse ["x\n".toList, ['\n']] [.paragraph ["x\n".toList]] :=
    .paragraph (p := ["x\n".toList]) ⟨_, rfl, 'x', rfl, by decide⟩
      (parted_of_blank isBlankLine_feed) (.blank isBlankLine_feed .done)
  have houter : Laid IsProse (Text.lines "<!--prism-directive-7-->\n\nx\n\n".toList)
      [.comment (commentLine "prism-directive-7"), .paragraph ["x\n".toList]] := by
    rw [hlines]
    exact .comment (isComment_commentLine _) (parted_of_blank isBlankLine_feed)
      (.blank isBlankLine_feed hx)
  have hinner : Laid IsProse (Text.lines "<!--note-->\n".toList)
      [.comment (commentLine "note")] := by
    rw [hlines']
    exact .comment (isComment_commentLine _) nofun .done
  have hbody : Written lineGrammar {} IsProse (Piece.split "<!--note-->\n")
      [.comment (commentLine "note")] := by
    rw [hsplit']
    exact .markdown hinner .nil
  rw [hsplit]
  exact .markdown houter (.container hbody .nil)

theorem written_impostor :
    Written lineGrammar {} IsProse (Piece.split impostor) impostorEntries := by
  have hsplit : Piece.split impostor =
      [.markdown "<!--prism-directive-0-->\n\n", .leaf realHead] := rfl
  have hlines : Text.lines "<!--prism-directive-0-->\n\n".toList =
      [commentLine "prism-directive-0", ['\n']] := by decide
  have houter : Laid IsProse (Text.lines "<!--prism-directive-0-->\n\n".toList)
      [.comment (commentLine "prism-directive-0")] := by
    rw [hlines]
    exact .comment (isComment_commentLine _) (parted_of_blank isBlankLine_feed)
      (.blank isBlankLine_feed .done)
  rw [hsplit]
  exact .markdown houter (.leaf .nil)

/-- Comments beside directives that are not in the way. -/
theorem stands_notes :
    lineGrammar.KeepsComments {} "" IsProse ∧
      Written lineGrammar {} IsProse (Piece.split notes) notesEntries ∧
      EntriesStand notesEntries (parseBlocks lineGrammar {} "" notes) := by
  have hg := keepsComments_lineGrammar {} ""
  have hseven : Placeholder.index? (String.ofList (commentLine "prism-directive-7")) = some 7 := by
    decide
  have hnote : Placeholder.index? (String.ofList (commentLine "note")) = none := by decide
  refine ⟨hg, written_notes, (stands_parseBlocks_iff hg written_notes).mpr ?_⟩
  refine ⟨?_, trivial, ⟨?_, trivial⟩, trivial⟩
  · intro i hi
    obtain rfl : 7 = i := Option.some.inj (hseven.symm.trans hi)
    exact .inr (by decide)
  · intro i hi
    cases hnote.symm.trans hi

/-- A comment that reads as the placeholder of the directive after it. -/
theorem not_stands_parseBlocks : ¬ ∀ (g : Grammar) (o : Options) (outer text : String)
    (prose : List (List Char) → Prop) (es : List Entry), g.KeepsComments o outer prose →
      Written g o prose (Piece.split text) es → EntriesStand es (parseBlocks g o outer text) := by
  intro h
  have hg := keepsComments_lineGrammar {} ""
  have hstands := h lineGrammar {} "" impostor IsProse impostorEntries hg written_impostor
  have hclear := (stands_of_gets hg written_impostor (gets_node hg written_impostor)).mp hstands
  have hzero : Placeholder.index? (String.ofList (commentLine "prism-directive-0")) = some 0 := by
    decide
  rcases hclear.1 0 hzero with h | h
  · exact absurd h (by decide)
  · exact absurd h (by decide)

end RichMarkdown
