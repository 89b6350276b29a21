import RichMarkdown.Proofs.Highlight.Lexemes

/-!
# Operators and comments

The lexer looks for a comment before it looks for an operator, but only where a lexeme starts, while
an operator goes on as far as there are operator characters. These include the characters of `//`
and of the marks around block comments, so an operator can swallow a comment that starts right
behind it (`not_commentsWin`). What decides are the runs of operator characters that the lexer
comes to.

* `commentsWin_iff`: comments win exactly in codes where no run of operator characters that the
  lexer comes to has an opener further on.
-/

set_option autoImplicit false

namespace RichMarkdown

open Text (byteLength isAsciiBlank)

namespace Language

/-- The marks that open a comment. -/
def commentMarks (language : Language) : List (List Char) :=
  language.lineComments.map String.toList ++
    (language.blockComment.map fun marks => marks.1.toList).toList

/-- A language whose comments do not start with a blank and whose strings and variables do not start
with an operator character. -/
structure Ordinary (language : Language) : Prop where
  marks : ∀ mark ∈ language.commentMarks, mark.head?.any (! isAsciiBlank ·) = true
  quotes : language.quotes.any Lexer.isOperator = false
  sigil : language.sigil.any Lexer.isOperator = false

theorem ordinary_of_find? {tag : String} {language : Language}
    (h : find? tag = some language) : language.Ordinary := by
  have hmem := List.mem_of_find?_eq_some h
  simp only [all, List.mem_cons, List.not_mem_nil, or_false] at hmem
  rcases hmem with rfl | rfl | rfl | rfl | rfl | rfl | rfl | rfl | rfl | rfl <;>
    exact ⟨by decide, by decide, by decide⟩

theorem Ordinary.exists_mark {language : Language} (h : language.Ordinary) {mark : List Char}
    (hmark : mark ∈ language.commentMarks) :
    ∃ c cs, mark = c :: cs ∧ isAsciiBlank c = false := by
  have hhead := h.marks mark hmark
  rcases mark with _ | ⟨c, cs⟩
  · cases hhead
  · exact ⟨c, cs, rfl, by simpa using hhead⟩

end Language

namespace Lexer

/-- What it takes for comments to win over operators: no operator has the opener of a comment in it,
and an opener right behind an operator starts a comment. -/
structure CommentsWin (language : Language) (code : String) : Prop where
  apart : ∀ t ∈ tokenize language code, t.category = .operator →
    ∀ text, t.text? code = some text → ∀ mark ∈ language.commentMarks, ¬ mark <:+: text.toList
  follow : ∀ t ∈ tokenize language code, t.category = .operator →
    ∀ before after, code.toList = before ++ after → byteLength before = t.stop →
      ∀ mark ∈ language.commentMarks, mark <+: after →
        ∃ u ∈ tokenize language code, u.start = t.stop ∧ u.category = .comment

/-! ## Rules and their categories -/

section

variable {language : Language} {found : Found} {rest : List Char}

theorem comment?_category (h : comment? language rest = some found) :
    found.category = .comment := by
  unfold comment? at h
  split at h
  · rw [← Option.some.inj h]
  · split at h
    · dsimp only at h
      split at h
      · rw [← Option.some.inj h]
      · cases h
    · cases h

theorem attribute?_category {lineStart : Bool}
    (h : attribute? language lineStart rest = some found) : found.category = .attrName := by
  unfold attribute? at h
  split at h
  · split at h
    · rw [← Option.some.inj h]
    · cases h
  · rw [← Option.some.inj h]
  · rw [← Option.some.inj h]
  · split at h
    · rw [← Option.some.inj h]
    · cases h
  · cases h

theorem string?_category (h : string? language rest = some found) :
    found.category = .property ∨ found.category = .string := by
  unfold string? at h
  split at h
  · cases h
  · split at h
    · rw [← Option.some.inj h]
      exact ite_eq_or_eq _ _ _
    · cases h

theorem number?_category (h : number? rest = some found) : found.category = .number := by
  unfold number? at h
  split at h
  · cases h
  · split at h
    · rw [← Option.some.inj h]
    · cases h

theorem variableName?_category (h : variableName? language rest = some found) :
    found.category = .varName := by
  unfold variableName? at h
  split at h
  · cases h
  · split at h
    · rw [← Option.some.inj h]
    · cases h

theorem word?_category {before : List Char} (h : word? language before rest = some found) :
    found.category ≠ .operator := by
  unfold word? at h
  split at h
  · cases h
  · split at h
    · rw [← Option.some.inj h]
      repeat' split
      all_goals simp
    · cases h

theorem punctuation?_category (h : punctuation? rest = some found) :
    found.category = .punctuation := by
  unfold punctuation? at h
  split at h
  · cases h
  · split at h
    · rw [← Option.some.inj h]
    · cases h

theorem comment?_eq_none_iff :
    comment? language rest = none ↔ ∀ mark ∈ language.commentMarks, ¬ mark <+: rest := by
  have hline : language.lineComments.any (·.toList.isPrefixOf rest) = false ↔
      ∀ mark ∈ language.lineComments.map String.toList, ¬ mark <+: rest := by
    rw [List.any_eq_false, List.forall_mem_map]
    simp only [List.isPrefixOf_iff_prefix]
  rw [comment?, Language.commentMarks, List.forall_mem_append, ← hline]
  cases language.lineComments.any (·.toList.isPrefixOf rest) with
  | true => simp
  | false =>
    cases language.blockComment with
    | none => simp
    | some marks =>
      obtain ⟨opener, closer⟩ := marks
      simp [List.isPrefixOf_iff_prefix]

/-- An operator is what the rule for operators found, where no comment starts. -/
theorem find?_operator {before : List Char} {lineStart : Bool}
    (h : find? language before lineStart rest = some found)
    (hoperator : found.category = .operator) :
    comment? language rest = none ∧ operator? rest = some found := by
  simp only [find?, Option.orElse_eq_orElse, Option.orElse_eq_or, Option.or_eq_some_iff] at h
  rcases h with h | ⟨hcomment, h | ⟨-, h | ⟨-, h | ⟨-, h | ⟨-, h | ⟨-, h | ⟨-, h⟩⟩⟩⟩⟩⟩⟩
  · exact absurd ((comment?_category h).symm.trans hoperator) (by decide)
  · exact absurd ((attribute?_category h).symm.trans hoperator) (by decide)
  · rcases string?_category h with h | h <;> exact absurd (h.symm.trans hoperator) (by decide)
  · exact absurd ((number?_category h).symm.trans hoperator) (by decide)
  · exact absurd ((variableName?_category h).symm.trans hoperator) (by decide)
  · exact absurd hoperator (word?_category h)
  · exact ⟨hcomment, h⟩
  · exact absurd ((punctuation?_category h).symm.trans hoperator) (by decide)

theorem operator?_eq_some (h : operator? rest = some found) :
    rest.take found.length = rest.takeWhile isOperator := by
  unfold operator? at h
  split at h
  · cases h
  · split at h
    · rw [← Option.some.inj h, Scanner.take_runLength]
    · cases h

theorem not_isWordPart_of_isOperator {c : Char} (h : isOperator c = true) :
    isWordPart c = false := by
  have hall : "+-*/%=<>!&|^~?:".toList.all (! isWordPart ·) = true := by decide
  have hc := List.all_eq_true.mp hall c (List.contains_iff_mem.mp h)
  rwa [Bool.not_eq_true'] at hc

theorem not_isOperator_of_isAsciiBlank {c : Char} (h : isAsciiBlank c = true) :
    isOperator c = false := by
  simp only [isAsciiBlank, Bool.or_eq_true, beq_iff_eq] at h
  rcases h with (((rfl | rfl) | rfl) | rfl) | rfl <;> decide

/-- Where no comment starts, an operator character starts an operator. -/
theorem find?_of_isOperator (ho : language.Ordinary) {before cs : List Char} {lineStart : Bool}
    {c : Char} (hc : isOperator c = true) (hcomment : comment? language (c :: cs) = none) :
    find? language before lineStart (c :: cs) =
      some ⟨runLength isOperator (c :: cs), .operator⟩ := by
  have hpart := not_isWordPart_of_isOperator hc
  have hattribute : attribute? language lineStart (c :: cs) = none := by
    unfold attribute?
    split
    all_goals first
      | rfl
      | (rename_i heq; rw [(List.cons_eq_cons.mp heq).1] at hc; cases hc)
  have hstring : string? language (c :: cs) = none := by
    rw [string?, if_neg]
    intro hquote
    exact List.any_eq_false.mp ho.quotes c (List.contains_iff_mem.mp hquote) hc
  have hnumber : number? (c :: cs) = none := by
    rw [number?, if_neg]
    intro hdigit
    rw [isWordPart, Char.isAlphanum, hdigit, Bool.or_true, Bool.true_or] at hpart
    cases hpart
  have hvariable : variableName? language (c :: cs) = none := by
    rw [variableName?, if_neg]
    intro hsigil
    have hoperator := ho.sigil
    rw [hsigil, Option.any_some, hc] at hoperator
    cases hoperator
  have hword : word? language before (c :: cs) = none := by
    rw [word?, if_neg]
    intro hstart
    rw [Scanner.isWordPart_of_isWordStart hstart] at hpart
    cases hpart
  rw [find?, hcomment, hattribute, hstring, hnumber, hvariable, hword, operator?, if_pos hc]
  rfl

end

/-! ## Places and operators -/

variable {language : Language} {code : String} {before : List Char}

/-- A run of operator characters in front of the lexer is an operator. -/
theorem StandsAt.exists_operator (hl : language.Ascii) (ho : language.Ordinary) {c : Char}
    {cs : List Char} (h : StandsAt language code.toList before (c :: cs))
    (hcomment : ∀ mark ∈ language.commentMarks, ¬ mark <+: c :: cs) (hc : isOperator c = true) :
    ∃ t ∈ tokenize language code, t.category = .operator ∧
      t.text? code = some (String.ofList ((c :: cs).takeWhile isOperator)) := by
  have hblank : isAsciiBlank c = false := by
    by_contra hb
    rw [Bool.not_eq_false] at hb
    rw [not_isOperator_of_isAsciiBlank hb] at hc
    cases hc
  obtain ⟨lineStart, htoken⟩ := h.exists_token hl hblank
  obtain ⟨t, ht, -, hcategory, htext⟩ :=
    htoken _ (find?_of_isOperator ho hc (comment?_eq_none_iff.mpr hcomment))
  rw [Scanner.take_runLength] at htext
  exact ⟨t, ht, hcategory, htext⟩

/-- Where a comment starts in front of the lexer, there is its token. -/
theorem StandsAt.exists_comment (hl : language.Ascii) (ho : language.Ordinary)
    {rest mark : List Char} (h : StandsAt language code.toList before rest)
    (hmark : mark ∈ language.commentMarks) (hrest : mark <+: rest) :
    ∃ t ∈ tokenize language code, t.start = byteLength before ∧ t.category = .comment := by
  obtain ⟨c, cs, rfl, hc⟩ := ho.exists_mark hmark
  obtain ⟨tail, rfl⟩ := hrest
  obtain ⟨lineStart, htoken⟩ := h.exists_token hl hc
  cases hcomment : comment? language (c :: (cs ++ tail)) with
  | none => exact absurd (List.prefix_append _ tail) (comment?_eq_none_iff.mp hcomment _ hmark)
  | some found =>
    have hfind : find? language before.reverse lineStart (c :: (cs ++ tail)) = some found := by
      rw [find?, hcomment]
      rfl
    obtain ⟨t, ht, hstart, hcategory, -⟩ := htoken found hfind
    exact ⟨t, ht, hstart, hcategory.trans (comment?_category hcomment)⟩

/-- **Where comments win.** Comments win over operators exactly when no run of operator characters
that the lexer comes to, with no comment at its start, has the opener of a comment in it. -/
theorem commentsWin_iff {tag : String} {language : Language}
    (h : Language.find? tag = some language) (code : String) :
    CommentsWin language code ↔
      ∀ before rest, StandsAt language code.toList before rest →
        (∀ mark ∈ language.commentMarks, ¬ mark <+: rest) →
          ∀ mark ∈ language.commentMarks, ¬ mark <:+: rest.takeWhile isOperator := by
  have hl := Language.ascii_of_find? h
  have ho := Language.ordinary_of_find? h
  constructor
  · intro hwin before rest hstands hcomment mark hmark hinfix
    obtain ⟨m, ms, rfl, -⟩ := ho.exists_mark hmark
    -- the run has a character, so it is an operator
    cases hrun : rest.takeWhile isOperator with
    | nil =>
      rw [hrun] at hinfix
      exact absurd (List.infix_nil.mp hinfix) (List.cons_ne_nil m ms)
    | cons c cs =>
      have hc : isOperator c = true := by
        have hmem : c ∈ rest.takeWhile isOperator := hrun ▸ List.mem_cons_self
        exact List.mem_takeWhile_imp hmem
      obtain ⟨tail, rfl⟩ : ∃ tail, rest = c :: tail := by
        have hprefix : rest.takeWhile isOperator <+: rest := List.takeWhile_prefix isOperator
        rw [hrun] at hprefix
        obtain ⟨tail, htail⟩ := hprefix
        exact ⟨cs ++ tail, htail.symm⟩
      obtain ⟨t, ht, hcategory, htext⟩ := hstands.exists_operator hl ho hcomment hc
      refine hwin.apart t ht hcategory _ htext _ hmark ?_
      rwa [String.toList_ofList]
  · intro hruns
    refine ⟨fun t ht hoperator text htext mark hmark => ?_,
      fun t ht _ front back hcode hfront mark hmark hback => ?_⟩
    · obtain ⟨before, run, after, hreads⟩ := exists_readsToken hl ht
      obtain ⟨lineStart, found, hfind, hcategory, htake⟩ := hreads.exists_found
      obtain ⟨hcomment, hrun⟩ := find?_operator hfind (hcategory.trans hoperator)
      have hnot := hruns before _ hreads.stands (comment?_eq_none_iff.mp hcomment) mark hmark
      rw [← operator?_eq_some hrun, htake] at hnot
      rwa [← Option.some.inj (hreads.text?_eq.symm.trans htext), String.toList_ofList]
    · obtain ⟨before, run, after, hreads⟩ := exists_readsToken hl ht
      obtain ⟨-, rfl⟩ := Text.append_inj_of_byteLength
        (hcode.symm.trans hreads.goesOn.code_eq) (hfront.trans hreads.stop)
      rw [hreads.stop]
      exact hreads.goesOn.exists_comment hl ho hmark hback

/-- A key whose separator is followed by a comment at once: the lexer comes to the run `://`. -/
theorem commentsWin_iff_key :
    Language.find? "jsonc" = some Language.json ∧
      ¬ CommentsWin Language.json "\"key\"://note" := by
  have hfind : Language.find? "jsonc" = some Language.json := by decide +kernel
  refine ⟨hfind, fun hwin => ?_⟩
  have hstands : StandsAt Language.json "\"key\"://note".toList "\"key\"".toList
      "://note".toList :=
    ⟨[⟨"\"key\"".toList, some .property⟩],
      [⟨"://".toList, some .operator⟩, ⟨"note".toList, some .varName⟩], by decide +kernel⟩
  exact (commentsWin_iff hfind _).mp hwin _ _ hstands (by decide) ['/', '/'] (by decide) (by decide)

/-- In C an assignment swallows the start of the comment behind it: the operator is `=/*`. -/
theorem not_commentsWin : ¬ ∀ (tag : String) (language : Language) (code : String),
    Language.find? tag = some language → CommentsWin language code := by
  intro h
  have hwin := h "c" Language.c "x =/* note */ 1" (by decide +kernel)
  exact hwin.apart ⟨2, 5, .operator⟩ (by decide +kernel) rfl "=/*" (by decide +kernel) ['/', '*']
    (by decide) (by decide)

end Lexer

end RichMarkdown
