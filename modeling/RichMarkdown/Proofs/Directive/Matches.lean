import Mathlib.Data.List.TakeWhile
import RichMarkdown.Directive.Inline

/-!
# Matches of inline directives

A match cuts a text in three: what is before it, what the directive is read from, and what is after
it (`find?_eq_some`). What is before a match holds no other match, although it is looked at anew
without what follows it: a head with a label that is read at a place is still read there when more
text follows (`isSome_atColon?_append`), so the search would have stopped at it.

* `find?_eq_some`: the three parts of a text, and the label as a part of the directive.
* `find?_before`: cutting a text before its first match makes no new match.
-/

set_option autoImplicit false

namespace RichMarkdown

namespace Head

/-! ## Balanced delimiters -/

section

variable {opener closer : Char} {depth : Nat} {cs content rest : List Char}

/-- What a search that has passed a character finds starts with this character. -/
theorem exists_of_map_untilClosed? {c : Char}
    (h : ((untilClosed? opener closer depth cs).map fun p => (c :: p.1, p.2)) =
      some (content, rest)) :
    ∃ inside, content = c :: inside ∧
      untilClosed? opener closer depth cs = some (inside, rest) := by
  obtain ⟨⟨inside, after⟩, hinside, heq⟩ := Option.map_eq_some_iff.mp h
  obtain ⟨rfl, rfl⟩ := Prod.mk.inj heq
  exact ⟨inside, rfl, hinside⟩

/-- One character of a text between delimiters: the closer that ends it, or a part of it, after
which the same search goes on at another depth. -/
theorem untilClosed?_cons {c : Char}
    (h : untilClosed? opener closer depth (c :: cs) = some (content, rest)) :
    (content = [] ∧ closer :: rest = c :: cs ∧
      ∀ other, untilClosed? opener closer depth (c :: other) = some ([], other)) ∨
    ∃ next inside, content = c :: inside ∧
      untilClosed? opener closer next cs = some (inside, rest) ∧
      ∀ other, untilClosed? opener closer depth (c :: other) =
        (untilClosed? opener closer next other).map fun p => (c :: p.1, p.2) := by
  have hgoes {next : Nat} (hnext : ∀ other, untilClosed? opener closer depth (c :: other) =
      (untilClosed? opener closer next other).map fun p => (c :: p.1, p.2)) :
      ∃ next inside, content = c :: inside ∧
        untilClosed? opener closer next cs = some (inside, rest) ∧
        ∀ other, untilClosed? opener closer depth (c :: other) =
          (untilClosed? opener closer next other).map fun p => (c :: p.1, p.2) := by
    rw [hnext] at h
    obtain ⟨inside, rfl, hinside⟩ := exists_of_map_untilClosed? h
    exact ⟨next, inside, rfl, hinside, hnext⟩
  by_cases hopener : (c == opener) = true
  · exact .inr (hgoes fun other => by rw [untilClosed?, if_pos hopener])
  · by_cases hcloser : (c == closer) = true
    · by_cases hdepth : depth ≤ 1
      · have hnow (other : List Char) :
            untilClosed? opener closer depth (c :: other) = some ([], other) := by
          rw [untilClosed?, if_neg hopener, if_pos hcloser, if_pos hdepth]
        obtain ⟨rfl, rfl⟩ := Prod.mk.inj (Option.some.inj ((hnow cs).symm.trans h))
        exact .inl ⟨rfl, by rw [eq_of_beq hcloser], hnow⟩
      · exact .inr (hgoes fun other => by
          rw [untilClosed?, if_neg hopener, if_pos hcloser, if_neg hdepth])
    · exact .inr (hgoes fun other => by rw [untilClosed?, if_neg hopener, if_neg hcloser])

theorem append_of_untilClosed? (h : untilClosed? opener closer depth cs = some (content, rest)) :
    content ++ closer :: rest = cs := by
  induction cs generalizing depth content with
  | nil => cases h
  | cons c cs ih =>
    obtain ⟨rfl, heq, -⟩ | ⟨next, inside, rfl, hinside, -⟩ := untilClosed?_cons h
    · rw [List.nil_append, heq]
    · rw [List.cons_append, ih hinside]

/-- Delimiters that balance do so whatever follows. -/
theorem untilClosed?_append (h : untilClosed? opener closer depth cs = some (content, rest))
    (tail : List Char) :
    untilClosed? opener closer depth (cs ++ tail) = some (content, rest ++ tail) := by
  induction cs generalizing depth content with
  | nil => cases h
  | cons c cs ih =>
    obtain ⟨rfl, heq, hnow⟩ | ⟨next, inside, rfl, hinside, hnext⟩ := untilClosed?_cons h
    · rw [List.cons_append, hnow, (List.cons_eq_cons.mp heq).2]
    · rw [List.cons_append, hnext, ih hinside]
      rfl

/-- A text between delimiters at the start of a text, or nothing read. -/
theorem optional_cases (opener closer : Char) (cs : List Char) :
    (∃ inside content rest, cs = opener :: inside ∧
      untilClosed? opener closer 1 inside = some (content, rest) ∧
      optional opener closer cs = (some content, rest)) ∨
    optional opener closer cs = (none, cs) := by
  rw [optional]
  cases h : delimited? opener closer cs with
  | none => exact .inr rfl
  | some p =>
    obtain ⟨content, rest⟩ := p
    rcases cs with _ | ⟨c, inside⟩
    · cases h
    · rw [delimited?] at h
      split at h
      · rename_i hc
        exact .inl ⟨inside, content, rest, by rw [eq_of_beq hc], h, rfl⟩
      · cases h

theorem suffix_optional (opener closer : Char) (cs : List Char) :
    (optional opener closer cs).2 <:+ cs := by
  obtain ⟨inside, content, rest, rfl, hclosed, heq⟩ | heq := optional_cases opener closer cs
  · rw [heq, ← append_of_untilClosed? hclosed]
    exact ⟨opener :: content ++ [closer], by simp⟩
  · exact ⟨[], congrArg Prod.snd heq⟩

end

/-! ## Heads with a label -/

/-- A head with a label: the name, the label between brackets, and what is left for attributes. -/
structure Labelled (cs name label after : List Char) : Prop where
  valid : (name.isEmpty || ! name.all isNameChar) = false
  ends : ∀ c ∈ name, (! endsName c) = true
  brackets : ∃ inside, cs = name ++ '[' :: inside ∧
    untilClosed? '[' ']' 1 inside = some (label, after)

section

variable {cs name label after rest : List Char} {head : Head}

theorem Labelled.append (h : Labelled cs name label after) (tail : List Char) :
    Labelled (cs ++ tail) name label (after ++ tail) := by
  obtain ⟨hvalid, hends, inside, rfl, hclosed⟩ := h
  exact ⟨hvalid, hends, inside ++ tail, by simp, untilClosed?_append hclosed tail⟩

theorem Labelled.eq (h : Labelled cs name label after) :
    cs = name ++ '[' :: (label ++ ']' :: after) := by
  obtain ⟨-, -, inside, rfl, hclosed⟩ := h
  rw [append_of_untilClosed? hclosed]

/-- Such a head is read, and its attributes from what is left. -/
theorem Labelled.read? (h : Labelled cs name label after) :
    read? cs = some (⟨String.ofList name, some (String.ofList label),
        Attributes.read ((optional '\x7b' '\x7d' after).1.getD [])⟩,
      (optional '\x7b' '\x7d' after).2) := by
  obtain ⟨hvalid, hends, inside, rfl, hclosed⟩ := h
  have hbracket : endsName '[' = true := rfl
  have hlabel : optional '[' ']' ('[' :: inside) = (some label, after) := by
    rw [optional, delimited?, if_pos (beq_self_eq_true '['), hclosed]
  rw [Head.read?, List.takeWhile_append_of_pos hends, List.dropWhile_append_of_pos hends,
    List.takeWhile_cons_of_neg (by simp [hbracket]),
    List.dropWhile_cons_of_neg (by simp [hbracket]), List.append_nil, hlabel]
  simp [hvalid]

/-- A head with a label is read in no other way. -/
theorem labelled_of_read? (h : read? cs = some (head, rest)) {text : String}
    (hlabel : head.label = some text) :
    ∃ name after, Labelled cs name text.toList after ∧ rest <:+ after := by
  rw [Head.read?] at h
  dsimp only at h
  split at h
  · cases h
  · rename_i hvalid
    obtain ⟨rfl, rfl⟩ := Prod.mk.inj (Option.some.inj h)
    obtain ⟨inside, label, after, hinside, hclosed, heq⟩ | heq :=
      optional_cases '[' ']' (cs.dropWhile (! endsName ·))
    · rw [heq] at hlabel ⊢
      obtain rfl := Option.some.inj hlabel
      refine ⟨cs.takeWhile (! endsName ·), after,
        ⟨Bool.eq_false_iff.mpr hvalid, fun c => List.mem_takeWhile_imp (p := (! endsName ·)),
          inside, ?_, ?_⟩, suffix_optional _ _ _⟩
      · rw [← hinside, List.takeWhile_append_dropWhile]
      · rw [hclosed, String.toList_ofList]
    · rw [heq] at hlabel
      cases hlabel

end

end Head

namespace InlineMatch

section

variable {cs rest : List Char} {head : Head} {m : InlineMatch}

/-- What stands behind the colon of a directive: a head with a label. -/
theorem exists_of_atColon? (h : atColon? cs = some (head, rest)) :
    ∃ label source, head.label = some label ∧ cs = source ++ rest ∧
      label.length ≤ source.length := by
  rw [atColon?] at h
  split at h
  · cases h
  · obtain ⟨hread, hsome⟩ := Option.filter_eq_some_iff.mp h
    obtain ⟨label, hlabel⟩ := Option.isSome_iff_exists.mp hsome
    obtain ⟨name, after, hlabelled, attributes, rfl⟩ := Head.labelled_of_read? hread hlabel
    refine ⟨label, name ++ '[' :: (label.toList ++ ']' :: attributes), hlabel, ?_, ?_⟩
    · rw [hlabelled.eq]
      simp
    · rw [← String.length_toList]
      simp
      omega

/-- A directive that is read is still read when more text follows. -/
theorem isSome_atColon?_append (h : (atColon? cs).isSome = true) (tail : List Char) :
    (atColon? (cs ++ tail)).isSome = true := by
  obtain ⟨⟨head, rest⟩, h⟩ := Option.isSome_iff_exists.mp h
  rw [atColon?] at h
  split at h
  · cases h
  · rename_i hcolon
    obtain ⟨hread, hsome⟩ := Option.filter_eq_some_iff.mp h
    obtain ⟨label, hlabel⟩ := Option.isSome_iff_exists.mp hsome
    obtain ⟨name, after, hlabelled, -⟩ := Head.labelled_of_read? hread hlabel
    have hagain := (hlabelled.append tail).read?
    have hhead : (cs ++ tail).head? = cs.head? := by
      rw [hlabelled.eq]
      cases name <;> rfl
    rw [atColon?, hhead, if_neg hcolon, hagain]
    rfl

/-- Where the search stops, and that it would not have stopped before, without what follows. -/
theorem exists_of_findAfter? {read : List Char} (h : findAfter? read cs = some m) :
    ∃ front rest, m.before = read.reverse ++ front ∧ cs = front ++ ':' :: rest ∧
      atColon? rest = some (m.head, m.after) ∧ findAfter? read front = none := by
  induction cs generalizing read with
  | nil => cases h
  | cons c cs ih =>
    -- a search that goes on past `c` goes on past it in the part before the match too
    have hpast (hgo : findAfter? (c :: read) cs = some m)
        (hnot : (c == ':' && ! blocksColon read.head?) = true → atColon? cs = none) :
        ∃ front rest, m.before = read.reverse ++ front ∧ c :: cs = front ++ ':' :: rest ∧
          atColon? rest = some (m.head, m.after) ∧ findAfter? read front = none := by
      obtain ⟨front, rest, hbefore, rfl, hat, hnone⟩ := ih hgo
      refine ⟨c :: front, rest, by simp [hbefore], rfl, hat, ?_⟩
      rw [findAfter?]
      split
      · rename_i hcolon
        have hfront : atColon? front = none := by
          by_contra hsome
          have := isSome_atColon?_append (Option.isSome_iff_ne_none.mpr hsome) (':' :: rest)
          rw [hnot hcolon] at this
          cases this
        rw [hfront]
        exact hnone
      · exact hnone
    rw [findAfter?] at h
    split at h
    · rename_i hcolon
      cases hat : atColon? cs with
      | none =>
        rw [hat] at h
        exact hpast h fun _ => hat
      | some p =>
        rw [hat] at h
        obtain rfl := Option.some.inj h
        have hc : c = ':' := eq_of_beq (Bool.and_eq_true_iff.mp hcolon).1
        exact ⟨[], cs, (List.append_nil _).symm, by rw [hc]; rfl, hat, rfl⟩
    · exact hpast h fun hcolon => absurd hcolon ‹_›

/-- **A match cuts its text** in what is before it, what it is read from, and what is after it. The
label is a part of what it is read from. -/
theorem find?_eq_some (h : find? cs = some m) :
    ∃ label source, m.head.label = some label ∧
      cs = m.before ++ (':' :: source ++ m.after) ∧ label.length ≤ source.length := by
  obtain ⟨front, rest, hbefore, rfl, hat, -⟩ := exists_of_findAfter? h
  obtain ⟨label, source, hlabel, rfl, hlength⟩ := exists_of_atColon? hat
  rw [List.reverse_nil, List.nil_append] at hbefore
  exact ⟨label, source, hlabel, by simp [hbefore], hlength⟩

/-- **Cutting makes no new match**: nothing is found in what is before a match. -/
theorem find?_before (h : find? cs = some m) : find? m.before = none := by
  obtain ⟨front, rest, hbefore, -, -, hnone⟩ := exists_of_findAfter? h
  rw [hbefore]
  exact hnone

end

end InlineMatch

end RichMarkdown
