import RichMarkdown.Proofs.Highlight.Lexemes

/-!
# Tokens and line ends

Most rules of the lexer stop before a line feed: they take runs of characters, none of which is a
line feed. The others look for a closer in all the code that is left, and only they make tokens of
more than one line (`SpansLines`). Strings in ordinary quotes come in between: they stop before a
line feed unless a backslash takes it with it.

* `spansLines_or_withinLine`: so each token has one of the shapes that may span lines, or it ends
  within its line.
-/

set_option autoImplicit false

namespace RichMarkdown

open Text (byteLength isAsciiBlank)

/-! ## Texts that may span lines -/

/-- A text from an opener up to a closer, or to the end of the code. -/
def Text.Enclosed (opener closer text after : List Char) : Prop :=
  ∃ body, text = opener ++ body ∧ (closer <:+ body ∨ after = [])

/-- Every line feed of a text comes directly after a backslash. -/
def Text.FeedsEscaped (text : List Char) : Prop :=
  ∀ front back, text = front ++ '\n' :: back → ['\\'] <:+ front

/-! ### Escaped line feeds -/

namespace Text.FeedsEscaped

variable {cs : List Char}

theorem nil : FeedsEscaped [] := fun front _ h => by simp at h

theorem cons {c : Char} (hc : c ≠ '\n') (h : FeedsEscaped cs) : FeedsEscaped (c :: cs) := by
  rintro (_ | ⟨d, front⟩) back heq
  · exact absurd (List.cons_eq_cons.mp heq).1 hc
  · obtain ⟨rfl, hcs⟩ := List.cons_eq_cons.mp heq
    exact (h front back hcs).trans (List.suffix_cons _ front)

/-- A backslash escapes whatever comes after it. -/
theorem escape (c : Char) (h : FeedsEscaped cs) : FeedsEscaped ('\\' :: c :: cs) := by
  rintro (_ | ⟨d, _ | ⟨e, front⟩⟩) back heq
  · exact absurd (List.cons_eq_cons.mp heq).1 (by decide)
  · obtain ⟨rfl, -⟩ := List.cons_eq_cons.mp heq
    exact List.suffix_refl _
  · obtain ⟨rfl, htail⟩ := List.cons_eq_cons.mp heq
    obtain ⟨rfl, hcs⟩ := List.cons_eq_cons.mp htail
    exact (h front back hcs).trans (List.suffix_append ['\\', c] front)

end Text.FeedsEscaped

namespace Lexer

/-- The categories of a string and of a quoted key. -/
def IsQuoted (category : Category) : Prop := category = .string ∨ category = .property

/-- The shapes of tokens that may have a line feed in them, in front of the rest of the code. -/
inductive SpansLines (language : Language) (after : List Char) : Category → List Char → Prop
  | blockComment {opener closer : String} {text : List Char} :
    language.blockComment = some (opener, closer) →
    Text.Enclosed opener.toList closer.toList text after →
    SpansLines language after .comment text
  | tripleQuoted {category : Category} {quote : Char} {text : List Char} :
    language.tripleQuotes = true → quote ∈ language.quotes → IsQuoted category →
    Text.Enclosed [quote, quote, quote] [quote, quote, quote] text after →
    SpansLines language after category text
  | backQuoted {category : Category} {text : List Char} :
    '\x60' ∈ language.quotes → IsQuoted category →
    Text.Enclosed ['\x60'] ['\x60'] text after → SpansLines language after category text
  | quoted {category : Category} {quote : Char} {text : List Char} :
    quote ∈ language.quotes → IsQuoted category → [quote] <+: text → Text.FeedsEscaped text →
    SpansLines language after category text
  | attribute {opener text : List Char} :
    language.attributes = .brackets → opener = ['#', '['] ∨ opener = ['#', '!', '['] →
    Text.Enclosed opener [']'] text after → SpansLines language after .attrName text
  | variable {sigil : Char} {body : List Char} :
    language.sigil = some sigil →
    SpansLines language after .varName (sigil :: '\x7b' :: (body ++ ['\x7d']))

/-- A token spans lines in one of the ways that are meant to, or it ends within its line. -/
def EndsInTime (language : Language) (after : List Char) (category : Category)
    (text : List Char) : Prop :=
  SpansLines language after category text ∨ '\n' ∉ text

/-! ## Lengths and line feeds -/

theorem notMem_takeWhile {p : Char → Bool} (h : p '\n' = false) (cs : List Char) :
    '\n' ∉ cs.takeWhile p := by
  intro hmem
  rw [List.mem_takeWhile_imp hmem] at h
  cases h

theorem notMem_take_runLength {p : Char → Bool} (h : p '\n' = false) (cs : List Char) :
    '\n' ∉ cs.take (runLength p cs) := by
  rw [Scanner.take_runLength]
  exact notMem_takeWhile h cs

theorem notMem_take_lineLength (cs : List Char) : '\n' ∉ cs.take (lineLength cs) :=
  notMem_take_runLength (by decide) cs

/-- A text through a closer ends in it, or with the code. -/
theorem closed_lengthThrough (closer cs : List Char) :
    closer <:+ cs.take (lengthThrough closer cs) ∨ cs.drop (lengthThrough closer cs) = [] := by
  unfold lengthThrough
  split
  · rename_i n hn
    obtain ⟨a, b, rfl, rfl⟩ := Text.exists_of_indexOf? hn
    rw [← List.append_assoc, ← List.length_append, List.take_left]
    exact .inl (List.suffix_append a closer)
  · exact .inr List.drop_length

theorem closed_bracketLength (depth : Nat) (cs : List Char) :
    [']'] <:+ cs.take (bracketLength depth cs) ∨ cs.drop (bracketLength depth cs) = [] := by
  induction cs generalizing depth with
  | nil => exact .inr rfl
  | cons c cs ih =>
    have hnext (depth : Nat) :
        [']'] <:+ (c :: cs).take (bracketLength depth cs + 1) ∨
          (c :: cs).drop (bracketLength depth cs + 1) = [] :=
      (ih depth).imp_left fun h => h.trans (List.suffix_cons c _)
    rw [bracketLength]
    split
    · exact hnext _
    split
    · rename_i hc
      split
      · rw [beq_iff_eq.mp hc]
        exact .inl (List.suffix_refl _)
      · exact hnext _
    · exact hnext _

/-- A string in back quotes ends in one, or with the code. -/
theorem closed_quotedLength (cs : List Char) :
    ['\x60'] <:+ cs.take (quotedLength '\x60' cs) ∨ cs.drop (quotedLength '\x60' cs) = [] := by
  fun_induction quotedLength '\x60' cs with
  | case1 => exact .inr rfl
  | case2 => exact .inr rfl
  | case3 c cs ih =>
    exact ih.imp_left fun h => h.trans (List.suffix_append ['\\', c] _)
  | case4 c cs _ _ hc =>
    rw [beq_iff_eq.mp hc]
    exact .inl (List.suffix_refl _)
  | case5 c cs _ _ _ hline => simp at hline
  | case6 c cs _ _ _ _ ih => exact ih.imp_left fun h => h.trans (List.suffix_cons c _)

/-- A string in ordinary quotes goes on behind a line feed only if that is escaped. -/
theorem feedsEscaped_quotedLength {quote : Char} (hfeed : quote ≠ '\n') (hback : quote ≠ '\x60')
    (cs : List Char) : Text.FeedsEscaped (cs.take (quotedLength quote cs)) := by
  fun_induction quotedLength quote cs with
  | case1 => exact .nil
  | case2 => exact .cons (by decide) .nil
  | case3 c cs ih => exact ih.escape c
  | case4 c cs _ _ hc =>
    rw [beq_iff_eq.mp hc]
    exact .cons hfeed .nil
  | case5 => exact .nil
  | case6 c cs _ _ _ hline ih =>
    refine ih.cons fun hc => hline ?_
    rw [hc, beq_self_eq_true, Bool.true_and, decide_eq_true hback]

theorem notMem_take_numberLength (cs : List Char) : '\n' ∉ cs.take (numberLength cs) := by
  induction cs with
  | nil => exact List.not_mem_nil
  | cons c cs ih =>
    rw [numberLength]
    split
    · rename_i hc
      rw [List.take_succ_cons, List.mem_cons, not_or]
      refine ⟨?_, ih⟩
      rintro rfl
      simp [show isWordPart '\n' = false by decide] at hc
    · exact List.not_mem_nil

/-! ## Rules and line feeds -/

variable {language : Language} {found : Found} {rest : List Char}

theorem comment?_endsInTime (h : comment? language rest = some found) :
    EndsInTime language (rest.drop found.length) found.category (rest.take found.length) := by
  unfold comment? at h
  split at h
  · obtain rfl := Option.some.inj h
    exact .inr (notMem_take_lineLength rest)
  · split at h
    · rename_i opener closer hmarks
      dsimp only at h
      split at h
      · rename_i hopener
        obtain ⟨tail, rfl⟩ := List.isPrefixOf_iff_prefix.mp hopener
        rw [List.drop_left] at h
        obtain rfl := Option.some.inj h
        refine .inl (.blockComment hmarks ⟨tail.take (lengthThrough closer.toList tail), ?_, ?_⟩)
        · rw [List.take_length_add_append]
        · rw [List.drop_length_add_append]
          exact closed_lengthThrough closer.toList tail
      · cases h
    · cases h

theorem attribute?_endsInTime {lineStart : Bool}
    (h : attribute? language lineStart rest = some found) :
    EndsInTime language (rest.drop found.length) found.category (rest.take found.length) := by
  unfold attribute? at h
  split at h
  · rename_i c cs _
    split at h
    · obtain rfl := Option.some.inj h
      refine .inr ?_
      rw [Nat.add_comm, List.take_succ_cons, List.mem_cons, not_or]
      exact ⟨by decide, notMem_take_runLength (by decide) (c :: cs)⟩
    · cases h
  · rename_i cs hbrackets
    obtain rfl := Option.some.inj h
    rw [Nat.add_comm]
    exact .inl (.attribute hbrackets (.inl rfl)
      ⟨cs.take (bracketLength 1 cs), rfl, closed_bracketLength 1 cs⟩)
  · rename_i cs hbrackets
    obtain rfl := Option.some.inj h
    rw [Nat.add_comm]
    exact .inl (.attribute hbrackets (.inr rfl)
      ⟨cs.take (bracketLength 1 cs), rfl, closed_bracketLength 1 cs⟩)
  · rename_i cs _
    split at h
    · obtain rfl := Option.some.inj h
      refine .inr ?_
      rw [Nat.add_assoc, Nat.add_comm 1, List.take_succ_cons, List.take_add, List.mem_cons,
        List.mem_append, not_or, not_or]
      exact ⟨by decide, notMem_take_runLength (by decide) cs,
        notMem_take_runLength (by decide) (cs.drop _)⟩
    · cases h
  · cases h

theorem string?_endsInTime {c : Char} {cs : List Char} (hc : c ≠ '\n')
    (h : string? language (c :: cs) = some found) :
    EndsInTime language ((c :: cs).drop found.length) found.category
      ((c :: cs).take found.length) := by
  unfold string? at h
  dsimp only at h
  split at h
  · rename_i hquote
    have hquote : c ∈ language.quotes := List.contains_iff_mem.mp hquote
    obtain rfl := Option.some.inj h
    have hcategory (length : Nat) :
        IsQuoted (if isKeyBefore language ((c :: cs).drop length) then .property else .string) := by
      split
      · exact .inr rfl
      · exact .inl rfl
    dsimp only
    generalize hlen : (if language.tripleQuotes && [c, c, c].isPrefixOf (c :: cs) then
      3 + lengthThrough [c, c, c] (cs.drop 2) else 1 + quotedLength c cs) = length
    split at hlen
    · rename_i htriple
      rw [Bool.and_eq_true] at htriple
      obtain ⟨tail, htail⟩ := List.isPrefixOf_iff_prefix.mp htriple.2
      obtain rfl : c :: c :: tail = cs := (List.cons_eq_cons.mp htail).2
      subst hlen
      exact .inl (.tripleQuoted htriple.1 hquote (hcategory _)
        ⟨tail.take (lengthThrough [c, c, c] tail), by rw [Nat.add_comm]; rfl, by
          rw [Nat.add_comm]; exact closed_lengthThrough [c, c, c] tail⟩)
    · rw [Nat.add_comm] at hlen
      subst hlen
      by_cases hback : c = '\x60'
      · subst hback
        exact .inl (.backQuoted hquote (hcategory _)
          ⟨cs.take (quotedLength '\x60' cs), rfl, closed_quotedLength cs⟩)
      · exact .inl (.quoted hquote (hcategory _) ⟨cs.take (quotedLength c cs), rfl⟩
          ((feedsEscaped_quotedLength hc hback cs).cons hc))
  · cases h

theorem number?_withinLine (h : number? rest = some found) : '\n' ∉ rest.take found.length := by
  unfold number? at h
  split at h
  · cases h
  · split at h
    · obtain rfl := Option.some.inj h
      exact notMem_take_numberLength _
    · cases h

theorem variableName?_endsInTime {c : Char} {cs : List Char} (hc : c ≠ '\n')
    (h : variableName? language (c :: cs) = some found) :
    EndsInTime language ((c :: cs).drop found.length) found.category
      ((c :: cs).take found.length) := by
  unfold variableName? at h
  dsimp only at h
  split at h
  · rename_i hsigil
    obtain rfl := Option.some.inj h
    have hwithin {text : List Char} (h : '\n' ∉ text) : '\n' ∉ c :: text := by
      rw [List.mem_cons, not_or]
      exact ⟨Ne.symm hc, h⟩
    dsimp only
    rw [Nat.add_comm, List.take_succ_cons, List.drop_succ_cons]
    rcases cs with _ | ⟨d, ds⟩
    · exact .inr (hwithin List.not_mem_nil)
    rw [variableLength]
    split
    · rename_i hbrace
      obtain rfl := beq_iff_eq.mp hbrace
      split
      · rename_i n hn
        obtain ⟨a, b, hab, rfl⟩ := Text.exists_of_indexOf? hn
        -- the closing brace does not stand where the opening one does
        rcases a with _ | ⟨e, body⟩
        · cases (List.cons_eq_cons.mp hab).1
        · obtain ⟨rfl, hds⟩ := List.cons_eq_cons.mp hab
          have htake : ds.take (body.length + 1) = body ++ ['\x7d'] := by
            have hlen : body.length + 1 = (body ++ ['\x7d']).length := by simp
            rw [hds, List.append_eq, ← List.append_assoc, hlen, List.take_left]
          rw [List.length_cons, List.take_succ_cons, htake]
          exact .inl (.variable hsigil)
      · exact .inr (hwithin (notMem_take_lineLength _))
    · split
      · exact .inr (hwithin (notMem_take_runLength (by decide) _))
      · split
        · rename_i hd
          refine .inr (hwithin ?_)
          rw [List.take_succ_cons, List.take_zero, List.mem_singleton]
          rintro rfl
          exact absurd hd (by decide)
        · exact .inr (hwithin List.not_mem_nil)
  · cases h

theorem word?_withinLine (hl : '\n' ∉ language.wordChars) {before : List Char}
    (h : word? language before rest = some found) : '\n' ∉ rest.take found.length := by
  unfold word? at h
  split at h
  · cases h
  · rename_i c cs
    split at h
    · generalize hp : (fun d => isWordPart d || language.wordChars.contains d) = p at h
      have hfeed : p '\n' = false := by
        rw [← hp]
        simpa [show isWordPart '\n' = false by decide] using hl
      have hword : '\n' ∉ (c :: cs).take ((c :: cs).takeWhile p).length :=
        notMem_take_runLength hfeed (c :: cs)
      have hbang (hcall : isBangCall ((c :: cs).drop ((c :: cs).takeWhile p).length) = true) :
          '\n' ∉ (c :: cs).take (((c :: cs).takeWhile p).length + 1) := by
        obtain ⟨ds, hds⟩ := Scanner.exists_of_isBangCall hcall
        rw [List.take_add, hds, List.mem_append, not_or]
        exact ⟨hword, by simp⟩
      obtain rfl := Option.some.inj h
      repeat' split
      all_goals first
        | exact hword
        | exact hbang (Bool.and_eq_true_iff.mp ‹_›).2
    · cases h

theorem operator?_withinLine (h : operator? rest = some found) :
    '\n' ∉ rest.take found.length := by
  unfold operator? at h
  split at h
  · cases h
  · split at h
    · obtain rfl := Option.some.inj h
      exact notMem_take_runLength (by decide) _
    · cases h

theorem punctuation?_withinLine (h : punctuation? rest = some found) :
    '\n' ∉ rest.take found.length := by
  unfold punctuation? at h
  split at h
  · cases h
  · rename_i c cs
    split at h
    · rename_i hc
      obtain rfl := Option.some.inj h
      rw [List.take_succ_cons, List.take_zero, List.mem_singleton]
      rintro rfl
      exact absurd hc (by decide)
    · cases h

/-- What any rule takes has a shape that may span lines, or no line feed. -/
theorem find?_endsInTime (hl : '\n' ∉ language.wordChars) {before cs : List Char}
    {lineStart : Bool} {c : Char} (hc : c ≠ '\n')
    (h : find? language before lineStart (c :: cs) = some found) :
    EndsInTime language ((c :: cs).drop found.length) found.category
      ((c :: cs).take found.length) := by
  simp only [find?, Option.orElse_eq_orElse, Option.orElse_eq_or, Option.or_eq_some_iff] at h
  rcases h with h | ⟨-, h | ⟨-, h | ⟨-, h | ⟨-, h | ⟨-, h | ⟨-, h | ⟨-, h⟩⟩⟩⟩⟩⟩⟩
  · exact comment?_endsInTime h
  · exact attribute?_endsInTime h
  · exact string?_endsInTime hc h
  · exact .inr (number?_withinLine h)
  · exact variableName?_endsInTime hc h
  · exact .inr (word?_withinLine hl h)
  · exact .inr (operator?_withinLine h)
  · exact .inr (punctuation?_withinLine h)

/-! ## Tokens -/

theorem newline_notMem_wordChars {tag : String} (h : Language.find? tag = some language) :
    '\n' ∉ language.wordChars := by
  have hmem := List.mem_of_find?_eq_some h
  simp only [Language.all, List.mem_cons, List.not_mem_nil, or_false] at hmem
  rcases hmem with rfl | rfl | rfl | rfl | rfl | rfl | rfl | rfl | rfl | rfl <;> decide

theorem Reads.endsInTime (hl : '\n' ∉ language.wordChars) {before text after : List Char}
    {lineStart : Bool} {category : Category}
    (h : Reads language before lineStart ⟨text, some category⟩ after) :
    EndsInTime language after category text := by
  cases h with
  | @word c cs after found hblank hfind htake =>
    have hne : c ≠ '\n' := by
      rintro rfl
      exact absurd hblank (by decide)
    have hdrop : (c :: (cs ++ after)).drop found.length = after := by
      have hsplit := List.take_append_drop found.length (c :: (cs ++ after))
      rw [htake] at hsplit
      exact (List.append_right_inj (c :: cs)).mp hsplit
    have hends := find?_endsInTime hl hne hfind
    rwa [htake, hdrop] at hends

/-- **Lexing errors stay local.** A token with a line feed in it is a comment between the marks of
the language, a string in triple or back quotes, an attribute in brackets, a variable in braces, or
a string or key in ordinary quotes whose line feeds all come directly after a backslash. Every other
token ends within its line. -/
theorem spansLines_or_withinLine (code : String) (tag : Option String) (t : Token)
    (ht : t ∈ Highlighter.lexical.tokenize code tag) :
    ∃ language before text after, tag.bind Language.find? = some language ∧
      code.toList = before ++ (text ++ after) ∧
      t.start = byteLength before ∧ t.stop = byteLength (before ++ text) ∧
      (SpansLines language after t.category text ∨ '\n' ∉ text) := by
  unfold Highlighter.lexical at ht
  dsimp only at ht
  split at ht
  · rename_i language hlanguage
    obtain ⟨name, -, hname⟩ := Option.bind_eq_some_iff.mp hlanguage
    obtain ⟨before, text, after, h⟩ := exists_readsToken (Language.ascii_of_find? hname) ht
    obtain ⟨lineStart, hreads⟩ := h.reads
    exact ⟨language, before, text, after, hlanguage, h.stands.code_eq, h.start, h.stop,
      hreads.endsInTime (newline_notMem_wordChars hname)⟩
  · cases ht

/-- A string over two lines, with a character outside ASCII before the backslash. -/
theorem spansLines_or_withinLine_escaped :
    ⟨4, 11, .string⟩ ∈ Highlighter.lexical.tokenize "s = \"é\\\nz\" # end" (some "py") ∧
      ∃ language before text after, (some "py").bind Language.find? = some language ∧
        "s = \"é\\\nz\" # end".toList = before ++ (text ++ after) ∧
        4 = byteLength before ∧ 11 = byteLength (before ++ text) ∧
        (SpansLines language after .string text ∨ '\n' ∉ text) := by
  have h : ⟨4, 11, .string⟩ ∈
      Highlighter.lexical.tokenize "s = \"é\\\nz\" # end" (some "py") := by
    decide +kernel
  exact ⟨h, spansLines_or_withinLine _ _ _ h⟩

end Lexer

end RichMarkdown
