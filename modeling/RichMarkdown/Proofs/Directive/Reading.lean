import RichMarkdown.Directive.Attributes
import RichMarkdown.Proofs.Text.Lines
import RichMarkdown.Proofs.Text.Runs

/-!
# How attributes are read

What stands at a place of a text of attributes, said without the functions that read it: a value,
quoted or up to the next blank (`Attributes.Value`), and a pair, whose name ends at the first equals
sign (`Attributes.Pair`). A reading goes on behind a blank, an identifier, a class or a pair, and
where none of these stands behind the next character (`Attributes.Reads`).

* `reads_iff`: every reading comes to an end, with what `readFrom` gives.
-/

set_option autoImplicit false

namespace RichMarkdown.Attributes

open Text (isBlank trim trimStart Run)

def IsQuote (c : Char) : Prop := c = '\"' ∨ c = '\''

/-- A value at the start of a text: the text, the value and what follows it. -/
inductive Value : List Char → List Char → List Char → Prop
  | quoted {quote : Char} {value rest : List Char} : IsQuote quote → quote ∉ value →
      Value (quote :: (value ++ quote :: rest)) value rest
  | bare {value rest : List Char} : (∀ c ∈ (value ++ rest).head?, ¬ IsQuote c) →
      Run (! isBlank ·) value rest → Value (value ++ rest) value rest

/-- A pair at the start of a text: the text, the name, the value and what follows the pair. There
may be blanks around the name but none in it. -/
inductive Pair : List Char → List Char → List Char → List Char → Prop
  | sign {front after value rest : List Char} : '=' ∉ front → trim front ≠ [] →
      (∀ c ∈ trim front, isBlank c = false) → Value after value rest →
      Pair (front ++ '=' :: after) (trim front) value rest

/-- An added class, unless its name is empty. -/
def addClass (a : Attributes) (name : List Char) : Attributes :=
  if name.isEmpty then a else { a with classes := a.classes ++ [String.ofList name] }

/-- A reading of a text from the attributes read before it to those read after it. -/
inductive Reads : Attributes → List Char → Attributes → Prop
  | done {a : Attributes} {cs : List Char} : trimStart cs = [] → Reads a cs a
  | id {a out : Attributes} {cs name rest : List Char} : trimStart cs = '#' :: (name ++ rest) →
      Run (! endsSelector ·) name rest → Reads { a with id := some (String.ofList name) } rest out →
      Reads a cs out
  | class {a out : Attributes} {cs name rest : List Char} : trimStart cs = '.' :: (name ++ rest) →
      Run (! endsSelector ·) name rest → Reads (a.addClass name) rest out → Reads a cs out
  | pair {a out : Attributes} {c : Char} {cs text name value rest : List Char} :
      trimStart cs = c :: text → c ≠ '#' → c ≠ '.' → Pair (c :: text) name value rest →
      Reads (a.insert (String.ofList name) (String.ofList value)) rest out → Reads a cs out
  | skip {a out : Attributes} {c : Char} {cs text : List Char} : trimStart cs = c :: text →
      c ≠ '#' → c ≠ '.' → (∀ name value rest, ¬ Pair (c :: text) name value rest) →
      Reads a text out → Reads a cs out

/-! ## Values and pairs -/

section

variable {cs name value rest : List Char}

theorem quotedValue?_eq_some_iff {quote : Char} :
    quotedValue? quote cs = some (value, rest) ↔ quote ∉ value ∧ cs = value ++ quote :: rest := by
  constructor
  · intro h
    obtain ⟨run, after, rfl, hrun⟩ := Text.exists_run (· ≠ quote) cs
    rw [quotedValue?, hrun.dropWhile, hrun.takeWhile] at h
    cases after with
    | nil => cases h
    | cons c after =>
      obtain ⟨rfl, rfl⟩ := Prod.mk.inj (Option.some.inj h)
      obtain rfl : c = quote := by simpa using hrun.stops c rfl
      exact ⟨fun hmem => by simpa using hrun.all c hmem, rfl⟩
  · rintro ⟨hnot, rfl⟩
    have hrun : Run (· ≠ quote) value (quote :: rest) := by
      refine .of_head (fun c hc => ?_) (by simp)
      simpa using fun heq : c = quote => hnot (heq ▸ hc)
    rw [quotedValue?, hrun.dropWhile, hrun.takeWhile]

theorem value?_eq_some_iff : value? cs = some (value, rest) ↔ Value cs value rest := by
  constructor
  · intro h
    cases cs with
    | nil =>
      obtain ⟨rfl, rfl⟩ := Prod.mk.inj (Option.some.inj h)
      have hrun : Run (! isBlank ·) [] [] := .of_end (by simp)
      exact .bare (by simp) hrun
    | cons c cs =>
      rw [value?] at h
      split at h
      · rename_i hquote
        obtain ⟨hnot, rfl⟩ := quotedValue?_eq_some_iff.mp h
        exact .quoted (by simpa [IsQuote] using hquote) hnot
      · rename_i hquote
        obtain ⟨run, after, heq, hrun⟩ := Text.exists_run (! isBlank ·) (c :: cs)
        rw [heq, hrun.takeWhile, hrun.dropWhile] at h
        obtain ⟨rfl, rfl⟩ := Prod.mk.inj (Option.some.inj h)
        rw [heq]
        refine .bare (fun d hd => ?_) hrun
        rw [← heq] at hd
        obtain rfl : c = d := by simpa using hd
        simpa [IsQuote] using hquote
  · rintro (⟨hquote, hnot⟩ | ⟨hhead, hrun⟩)
    · rw [value?, if_pos (by simpa [IsQuote] using hquote)]
      exact quotedValue?_eq_some_iff.mpr ⟨hnot, rfl⟩
    · generalize hcs : value ++ rest = cs at hhead
      cases cs with
      | nil =>
        obtain ⟨rfl, rfl⟩ := List.append_eq_nil_iff.mp hcs
        rfl
      | cons c cs =>
        have hquote : ¬ (c == '\"' || c == '\'') = true := by
          simpa [IsQuote] using hhead c rfl
        rw [value?, if_neg hquote, ← hcs, hrun.takeWhile, hrun.dropWhile]

theorem pair?_eq_some_iff :
    pair? cs = some ((name, value), rest) ↔ Pair cs name value rest := by
  constructor
  · intro h
    obtain ⟨front, after, rfl, hrun⟩ := Text.exists_run (· ≠ '=') cs
    have hfront : '=' ∉ front := fun hmem => by simpa using hrun.all '=' hmem
    rw [pair?, hrun.dropWhile, hrun.takeWhile] at h
    cases after with
    | nil => cases h
    | cons c after =>
      obtain rfl : c = '=' := by simpa using hrun.stops c rfl
      dsimp only at h
      split at h
      · cases h
      · rename_i hname
        obtain ⟨⟨v, r⟩, hvalue, heq⟩ := Option.map_eq_some_iff.mp h
        obtain ⟨hpair, rfl⟩ := Prod.mk.inj heq
        obtain ⟨rfl, rfl⟩ := Prod.mk.inj hpair
        simp only [Bool.or_eq_true, List.isEmpty_iff, List.any_eq_true, not_or, not_exists,
          not_and, Bool.not_eq_true] at hname
        exact .sign hfront hname.1 hname.2 (value?_eq_some_iff.mp hvalue)
  · rintro ⟨hfront, hname, hblank, hvalue⟩
    rename_i front after
    have hrun : Run (· ≠ '=') front ('=' :: after) := by
      refine .of_head (fun c hc => ?_) (by simp)
      simpa using fun heq : c = '=' => hfront (heq ▸ hc)
    have hcond : ((trim front).isEmpty || (trim front).any isBlank) = false := by
      simpa [hname] using hblank
    rw [pair?, hrun.dropWhile, hrun.takeWhile]
    simp only [hcond, value?_eq_some_iff.mpr hvalue, Option.map_some]
    rfl

theorem pair?_eq_none_iff : pair? cs = none ↔ ∀ name value rest, ¬ Pair cs name value rest := by
  rw [Option.eq_none_iff_forall_ne_some]
  constructor
  · intro h name value rest hpair
    exact h _ (pair?_eq_some_iff.mpr hpair)
  · rintro h ⟨⟨name, value⟩, rest⟩ heq
    exact h name value rest (pair?_eq_some_iff.mp heq)

end

/-! ## Readings -/

section

variable {a out : Attributes} {cs name value rest text : List Char} {c : Char}

theorem readFrom_done (h : trimStart cs = []) : readFrom a cs = a := by
  rw [readFrom]
  split
  · rfl
  · rename_i heq
    rw [h] at heq
    cases heq

/-- What is read at the first character that is not blank. -/
theorem readFrom_cons (h : trimStart cs = c :: text) :
    readFrom a cs =
      if c = '#' then
        readFrom { a with id := some (String.ofList (text.takeWhile (! endsSelector ·))) }
          (text.dropWhile (! endsSelector ·))
      else if c = '.' then
        readFrom (a.addClass (text.takeWhile (! endsSelector ·)))
          (text.dropWhile (! endsSelector ·))
      else (pair? (c :: text)).elim (readFrom a text) fun p =>
        readFrom (a.insert (String.ofList p.1.1) (String.ofList p.1.2)) p.2 := by
  rw [readFrom]
  split
  · rename_i heq
    rw [h] at heq
    cases heq
  · rename_i heq
    rw [h] at heq
    obtain ⟨rfl, rfl⟩ := List.cons.inj heq
    simp only [beq_iff_eq]
    split
    · rfl
    · split
      · rfl
      · split <;> rename_i hpair <;> rw [hpair] <;> rfl

theorem readFrom_id (h : trimStart cs = '#' :: (name ++ rest))
    (hrun : Run (! endsSelector ·) name rest) :
    readFrom a cs = readFrom { a with id := some (String.ofList name) } rest := by
  rw [readFrom_cons h, if_pos rfl, hrun.takeWhile, hrun.dropWhile]

theorem readFrom_class (h : trimStart cs = '.' :: (name ++ rest))
    (hrun : Run (! endsSelector ·) name rest) :
    readFrom a cs = readFrom (a.addClass name) rest := by
  rw [readFrom_cons h, if_neg (by decide), if_pos rfl, hrun.takeWhile, hrun.dropWhile]

theorem readFrom_pair (h : trimStart cs = c :: text) (hid : c ≠ '#') (hclass : c ≠ '.')
    (hpair : Pair (c :: text) name value rest) :
    readFrom a cs = readFrom (a.insert (String.ofList name) (String.ofList value)) rest := by
  rw [readFrom_cons h, if_neg hid, if_neg hclass, pair?_eq_some_iff.mpr hpair]
  rfl

theorem readFrom_skip (h : trimStart cs = c :: text) (hid : c ≠ '#') (hclass : c ≠ '.')
    (hnone : ∀ name value rest, ¬ Pair (c :: text) name value rest) :
    readFrom a cs = readFrom a text := by
  rw [readFrom_cons h, if_neg hid, if_neg hclass, pair?_eq_none_iff.mpr hnone]
  rfl

theorem Reads.eq (h : Reads a cs out) : out = readFrom a cs := by
  induction h with
  | done hcs => rw [readFrom_done hcs]
  | id hcs hrun _ ih => rw [readFrom_id hcs hrun, ih]
  | «class» hcs hrun _ ih => rw [readFrom_class hcs hrun, ih]
  | pair hcs hid hclass hpair _ ih => rw [readFrom_pair hcs hid hclass hpair, ih]
  | skip hcs hid hclass hnone _ ih => rw [readFrom_skip hcs hid hclass hnone, ih]

theorem reads_readFrom (a : Attributes) (cs : List Char) : Reads a cs (readFrom a cs) := by
  fun_induction readFrom a cs with
  | case1 a cs h => exact .done h
  | case2 a cs c rest h hid ih =>
    obtain rfl : c = '#' := by simpa using hid
    obtain ⟨name, after, rfl, hrun⟩ := Text.exists_run (! endsSelector ·) rest
    rw [hrun.takeWhile, hrun.dropWhile] at ih
    rw [hrun.takeWhile, hrun.dropWhile]
    exact .id h hrun ih
  | case3 a cs c rest h hid hclass name ih =>
    obtain rfl : c = '.' := by simpa using hclass
    obtain ⟨found, after, rfl, hrun⟩ := Text.exists_run (! endsSelector ·) rest
    have hname : name = found := hrun.takeWhile
    rw [hrun.dropWhile] at ih
    rw [hrun.dropWhile]
    simp only [hname] at ih ⊢
    exact .class h hrun ih
  | case4 a cs c rest h hid hclass name value rest' hpair ih =>
    exact .pair h (by simpa using hid) (by simpa using hclass) (pair?_eq_some_iff.mp hpair) ih
  | case5 a cs c rest h hid hclass hpair ih =>
    exact .skip h (by simpa using hid) (by simpa using hclass) (pair?_eq_none_iff.mp hpair) ih

/-- **Every reading comes to an end**, with the attributes that the text has. -/
theorem reads_iff : Reads a cs out ↔ out = readFrom a cs := by
  refine ⟨Reads.eq, ?_⟩
  rintro rfl
  exact reads_readFrom a cs

end

end RichMarkdown.Attributes
