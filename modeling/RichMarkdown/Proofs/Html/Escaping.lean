import RichMarkdown.Proofs.Html.Reading

/-!
# Undoing escapes

Escaped text can be read back in two ways: by `decode`, in one pass from left to right, and by
`decodeInTurn`, which replaces one entity after the other in the whole text. The second way is right
because every ampersand of the text starts an entity until the ampersands themselves come last:
a text in which some characters have been read back already is written character by character
(`escapeExcept`), and the next replacement takes exactly the entities of one more character
(`replaceAll_escapeExcept`).

* `ampersand_escape`: in escaped text, every ampersand starts an entity.
* `decodeInTurn_escape`: the replacements give back the text.
* `escape_undone`: what escaping does to texts.
-/

set_option autoImplicit false

namespace RichMarkdown.Html

/-! ## Replacements -/

/-- The rest of a text with every occurrence of the word `old` replaced by `new`, from left to
right, after some characters that belong to the last occurrence. -/
def replaceFrom (old new : List Char) : Nat → List Char → List Char
  | _, [] => []
  | skip + 1, _ :: cs => replaceFrom old new skip cs
  | 0, c :: cs =>
    if old.isPrefixOf (c :: cs) then new ++ replaceFrom old new (old.length - 1) cs
    else c :: replaceFrom old new 0 cs

/-- A text with every occurrence of a word, which is not empty, replaced. -/
def replaceAll (old new : List Char) (cs : List Char) : List Char := replaceFrom old new 0 cs

section

variable {old w : List Char} (new rest : List Char) {c : Char}

theorem replaceFrom_append (w : List Char) :
    replaceFrom old new w.length (w ++ rest) = replaceAll old new rest := by
  induction w with
  | nil => rfl
  | cons c w ih => exact ih

theorem replaceAll_cons_of_prefix (h : (c :: old) <+: c :: rest) :
    replaceAll (c :: old) new (c :: rest) = new ++ replaceFrom (c :: old) new old.length rest := by
  rw [replaceAll, replaceFrom, if_pos (List.isPrefixOf_iff_prefix.mpr h)]
  rfl

theorem replaceAll_cons_of_not_starts (h : ¬ old <+: c :: rest) :
    replaceAll old new (c :: rest) = c :: replaceAll old new rest := by
  rw [replaceAll, replaceFrom, if_neg (mt List.isPrefixOf_iff_prefix.mp h), replaceAll]

/-- An occurrence is replaced. -/
theorem replaceAll_occurrence :
    replaceAll (c :: old) new (c :: old ++ rest) = new ++ replaceAll (c :: old) new rest := by
  have hprefix : (c :: old) <+: c :: (old ++ rest) := List.prefix_append (c :: old) rest
  rw [List.cons_append, replaceAll_cons_of_prefix _ _ hprefix, replaceFrom_append]

/-- Where the first character of the word is missing, nothing is replaced. -/
theorem replaceAll_append (h : ∀ d ∈ w, d ≠ c) :
    replaceAll (c :: old) new (w ++ rest) = w ++ replaceAll (c :: old) new rest := by
  induction w with
  | nil => rfl
  | cons d w ih =>
    obtain ⟨hd, hw⟩ := List.forall_mem_cons.mp h
    have hno : ¬ (c :: old) <+: d :: (w ++ rest) := fun hprefix =>
      hd (List.cons_prefix_cons.mp hprefix).1.symm
    rw [List.cons_append, replaceAll_cons_of_not_starts _ _ hno, ih hw, List.cons_append]

end

/-! ## Entities -/

/-- The entities with the characters that they stand for, the ampersand last. -/
def entities : List (String × Char) :=
  [("&lt;", '<'), ("&gt;", '>'), ("&quot;", '\"'), ("&#x27;", '\''), ("&amp;", '&')]

/-- A text with the five entities replaced by their characters, one after the other in the whole
text. -/
def decodeInTurn (text : String) : String :=
  entities.foldl (fun t e => String.ofList (replaceAll e.1.toList [e.2] t.toList)) text

/-- A character that is escaped. -/
def IsMarkup (c : Char) : Prop := c ∈ entities.map (·.2)

instance : DecidablePred IsMarkup := fun _ => inferInstanceAs (Decidable (_ ∈ _))

/-- The entities are what their characters are escaped to. -/
theorem toList_entity : ∀ e ∈ entities, e.1.toList = escapeChar e.2 := by
  decide

/-- An entity has one ampersand, its first character. -/
theorem escapeChar_of_isMarkup {c : Char} (h : IsMarkup c) :
    ∃ w, escapeChar c = '&' :: w ∧ ∀ d ∈ w, d ≠ '&' := by
  have hall : ∀ e ∈ entities, escapeChar e.2 = '&' :: (escapeChar e.2).tail ∧
      '&' ∉ (escapeChar e.2).tail := by
    decide
  obtain ⟨e, he, rfl⟩ := List.mem_map.mp h
  obtain ⟨hescape, htail⟩ := hall e he
  exact ⟨_, hescape, fun d hd => ne_of_mem_of_not_mem hd htail⟩

theorem escapeChar_of_not_isMarkup {c : Char} (h : ¬ IsMarkup c) : escapeChar c = [c] := by
  simp only [IsMarkup, entities, List.map_cons, List.map_nil, List.mem_cons, List.not_mem_nil,
    or_false, not_or] at h
  simp [escapeChar, h]

theorem ne_ampersand {c : Char} (h : ¬ IsMarkup c) : c ≠ '&' := by
  rintro rfl
  exact h (by decide)

/-- **Every ampersand of escaped text** starts an entity. -/
theorem ampersand_escapeChars {cs b : List Char} (h : '&' :: b <:+ escapeChars cs) :
    ∃ e ∈ entities, e.1.toList <+: '&' :: b := by
  have hskip {w rest : List Char} (hw : ∀ d ∈ w, d ≠ '&') (h : '&' :: b <:+ w ++ rest) :
      '&' :: b <:+ rest := by
    induction w with
    | nil => exact h
    | cons d w ih =>
      obtain ⟨hd, hw⟩ := List.forall_mem_cons.mp hw
      obtain heq | hsuffix := List.suffix_cons_iff.mp h
      · exact absurd (List.cons.inj heq).1.symm hd
      · exact ih hw hsuffix
  induction cs with
  | nil => exact absurd (List.suffix_nil.mp h) (List.cons_ne_nil _ _)
  | cons c cs ih =>
    rw [escapeChars, List.flatMap_cons, ← escapeChars] at h
    by_cases hc : IsMarkup c
    · obtain ⟨w, hescape, hw⟩ := escapeChar_of_isMarkup hc
      rw [hescape, List.cons_append] at h
      obtain heq | hsuffix := List.suffix_cons_iff.mp h
      · obtain ⟨e, he, rfl⟩ := List.mem_map.mp hc
        refine ⟨e, he, ?_⟩
        rw [toList_entity e he, hescape, heq]
        exact List.prefix_append ('&' :: w) _
      · exact ih (hskip hw hsuffix)
    · rw [escapeChar_of_not_isMarkup hc] at h
      exact ih (hskip (List.forall_mem_singleton.mpr (ne_ampersand hc)) h)

theorem ampersand_escape {s : String} {a b : List Char}
    (h : (escape s).toList = a ++ '&' :: b) : ∃ e ∈ entities, e.1.toList <+: '&' :: b := by
  have hsuffix : '&' :: b <:+ escapeChars s.toList := ⟨a, by rw [← h, toList_escape]⟩
  exact ampersand_escapeChars hsuffix

/-! ## Replacements in turn -/

/-- What is written for a character when some characters have been read back already. -/
def escapeExcept (done : List Char) (c : Char) : List Char :=
  if c ∈ done then [c] else escapeChar c

/-- **One replacement** reads back one more character, as long as ampersands stand for entities
only. -/
theorem replaceAll_escapeExcept {done : List Char} {d : Char} (hd : IsMarkup d) (hnew : d ∉ done)
    (hamp : '&' ∉ done) (cs : List Char) :
    replaceAll (escapeChar d) [d] (cs.flatMap (escapeExcept done)) =
      cs.flatMap (escapeExcept (d :: done)) := by
  obtain ⟨old, hold, -⟩ := escapeChar_of_isMarkup hd
  induction cs with
  | nil => rfl
  | cons c cs ih =>
    rw [List.flatMap_cons, List.flatMap_cons, ← ih]
    by_cases hcd : c = d
    · -- the entity of the character itself
      subst hcd
      rw [escapeExcept, if_neg hnew, escapeExcept, if_pos List.mem_cons_self, hold,
        replaceAll_occurrence]
    · have hmem : c ∈ d :: done ↔ c ∈ done := by simp [hcd]
      have hsame : escapeExcept (d :: done) c = escapeExcept done c := by
        simp only [escapeExcept, hmem]
      rw [hsame, escapeExcept]
      by_cases hdone : c ∈ done
      · have hc : c ≠ '&' := fun h => hamp (h ▸ hdone)
        rw [if_pos hdone, hold, replaceAll_append _ _ (List.forall_mem_singleton.mpr hc)]
      · rw [if_neg hdone]
        by_cases hc : IsMarkup c
        · -- the entity of another character
          obtain ⟨w, hescape, hw⟩ := escapeChar_of_isMarkup hc
          have hno : ¬ escapeChar d <+: escapeChar c ++ cs.flatMap (escapeExcept done) := by
            rintro ⟨rest, hrest⟩
            exact hcd (escapeChar_append_injective hrest).1.symm
          rw [hescape, List.cons_append] at hno ⊢
          rw [replaceAll_cons_of_not_starts _ _ hno, hold, replaceAll_append _ _ hw,
            List.cons_append]
        · rw [escapeChar_of_not_isMarkup hc, hold,
            replaceAll_append _ _ (List.forall_mem_singleton.mpr (ne_ampersand hc))]

/-- **Replacing the entities in turn** gives back the text, since ampersands come last. -/
theorem decodeInTurn_escape (s : String) : decodeInTurn (escape s) = s := by
  have hnothing : s.toList.flatMap escapeChar = s.toList.flatMap (escapeExcept []) := rfl
  have hall : ∀ c ∈ s.toList, escapeExcept ['&', '\'', '\"', '>', '<'] c = [c] := by
    intro c _
    rw [escapeExcept]
    split
    · rfl
    · rename_i h
      have hc : ¬ IsMarkup c := fun hc => h (List.mem_reverse.mpr hc)
      exact escapeChar_of_not_isMarkup hc
  have hlt : "&lt;".toList = escapeChar '<' := toList_entity ("&lt;", '<') (by decide)
  have hgt : "&gt;".toList = escapeChar '>' := toList_entity ("&gt;", '>') (by decide)
  have hquot : "&quot;".toList = escapeChar '\"' := toList_entity ("&quot;", '\"') (by decide)
  have hapos : "&#x27;".toList = escapeChar '\'' := toList_entity ("&#x27;", '\'') (by decide)
  have hamp : "&amp;".toList = escapeChar '&' := toList_entity ("&amp;", '&') (by decide)
  apply String.toList_inj.mp
  simp only [decodeInTurn, entities, List.foldl_cons, List.foldl_nil, String.toList_ofList, escape,
    hnothing, hlt, hgt, hquot, hapos, hamp]
  rw [replaceAll_escapeExcept (by decide) (by decide) (by decide),
    replaceAll_escapeExcept (by decide) (by decide) (by decide),
    replaceAll_escapeExcept (by decide) (by decide) (by decide),
    replaceAll_escapeExcept (by decide) (by decide) (by decide),
    replaceAll_escapeExcept (by decide) (by decide) (by decide),
    List.flatMap_congr hall, List.flatMap_singleton']

/-! ## All of it -/

theorem escape_append (s t : String) : escape (s ++ t) = escape s ++ escape t := by
  apply String.toList_inj.mp
  simp only [toList_escape, String.toList_append, escapeChars_append]

/-- **Escaping can be undone.** Escaped text has none of the characters that markup is made of, and
every ampersand in it starts an entity. One pass over it gives back the text, and so does replacing
the entities one after the other, the ampersand last, whatever the text reads like. A text is
escaped part by part, and no two texts are escaped to the same. -/
theorem escape_undone (s t : String) :
    (∀ c ∈ (escape s).toList, c ≠ '<' ∧ c ≠ '>' ∧ c ≠ '\"' ∧ c ≠ '\'') ∧
      (∀ a b, (escape s).toList = a ++ '&' :: b → ∃ e ∈ entities, e.1.toList <+: '&' :: b) ∧
      decode (escape s).toList = s.toList ∧ decodeInTurn (escape s) = s ∧
      escape (s ++ t) = escape s ++ escape t ∧ (escape s = escape t ↔ s = t) := by
  refine ⟨fun c hc => isPlain_of_mem_escape hc, fun a b h => ampersand_escape h, ?_,
    decodeInTurn_escape s, escape_append s t, escape_injective, congrArg escape⟩
  rw [toList_escape, decode_escapeChars]

/-- A text that reads like an entity is read back as it was, but not if ampersands came first. -/
example : escape "&lt;" = "&amp;lt;" ∧ decodeInTurn "&amp;lt;" = "&lt;" ∧
    replaceAll "&lt;".toList ['<'] (replaceAll "&amp;".toList ['&'] "&amp;lt;".toList) = ['<'] := by
  decide +kernel

end RichMarkdown.Html
