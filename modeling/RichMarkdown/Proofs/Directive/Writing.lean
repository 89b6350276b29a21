import RichMarkdown.Proofs.Directive.Reading

/-!
# Attributes as they are written

Attributes are written as parts with a space between each two: the identifier, the classes and the
pairs, with values in the first quote that they do not hold (`Attributes.write`). Each part is read
as itself, whatever it is added to and whatever follows behind a blank (`readFrom_part`). What is
read from a text, however broken, can always be written (`Reads.writable`): names end where the
reader ends them, and a value that holds both quotes was read as a bare one.

* `read_write_iff`: attributes are read back exactly when they can be written.
-/

set_option autoImplicit false

namespace RichMarkdown.Attributes

open Text (isBlank trim trimStart Run IsTrimmed)

/-! ## Parts -/

/-- The quote that a value is written in: a double one, else a single one, unless the value holds
both. -/
def quoteFor? (value : List Char) : Option Char :=
  if '\"' ∉ value then some '\"' else if '\'' ∉ value then some '\'' else none

/-- A value in quotes, or bare when it holds both of them. -/
def writeValue (value : List Char) : List Char :=
  (quoteFor? value).elim value fun quote => quote :: (value ++ [quote])

/-- A part of written attributes. -/
inductive Part where
  | id (name : String)
  | class (name : String)
  | pair (name value : String)
  deriving DecidableEq, Repr

namespace Part

def write : Part → List Char
  | .id name => '#' :: name.toList
  | .class name => '.' :: name.toList
  | .pair name value => name.toList ++ '=' :: writeValue value.toList

/-- What a part adds to attributes. -/
def add (a : Attributes) : Part → Attributes
  | .id name => { a with id := some name }
  | .class name => { a with classes := a.classes ++ [name] }
  | .pair name value => a.insert name value

end Part

/-- The identifier, the classes and the pairs of attributes, in this order. -/
def parts (a : Attributes) : List Part :=
  a.id.toList.map .id ++ (a.classes.map .class ++ a.pairs.map fun p => .pair p.1 p.2)

/-- Attributes as they are written. -/
def write (a : Attributes) : List Char := [' '].intercalate (a.parts.map Part.write)

/-! ## What can be written -/

/-- The name of an identifier or of a class: no blank, no point and no number sign. -/
def IsSelector (name : List Char) : Prop := ∀ c ∈ name, endsSelector c = false

/-- The name of a pair. -/
structure IsKey (name : List Char) : Prop where
  ne_nil : name ≠ []
  unspaced : ∀ c ∈ name, isBlank c = false
  unsigned : '=' ∉ name
  start : ∀ c ∈ name.head?, c ≠ '#' ∧ c ≠ '.'

/-- A value that is written in quotes, or else ends at a blank and does not start with a quote. -/
def IsValue (value : List Char) : Prop :=
  quoteFor? value = none →
    (∀ c ∈ value, isBlank c = false) ∧ ∀ c ∈ value.head?, ¬ IsQuote c

/-- Attributes that can be written: none of their names and values ends before its time. -/
structure Writable (a : Attributes) : Prop where
  id : ∀ s ∈ a.id, IsSelector s.toList
  classes : ∀ s ∈ a.classes, s.toList ≠ [] ∧ IsSelector s.toList
  pairs : ∀ p ∈ a.pairs, IsKey p.1.toList ∧ IsValue p.2.toList

def Part.Writable : Part → Prop
  | .id name => IsSelector name.toList
  | .class name => name.toList ≠ [] ∧ IsSelector name.toList
  | .pair name value => IsKey name.toList ∧ IsValue value.toList

theorem Writable.part {a : Attributes} (h : a.Writable) : ∀ part ∈ a.parts, part.Writable := by
  intro part hpart
  rw [parts, List.mem_append, List.mem_append] at hpart
  rcases hpart with hid | hclass | hpair
  · obtain ⟨s, hs, rfl⟩ := List.mem_map.mp hid
    exact h.id s (Option.mem_toList.mp hs)
  · obtain ⟨s, hs, rfl⟩ := List.mem_map.mp hclass
    exact h.classes s hs
  · obtain ⟨p, hp, rfl⟩ := List.mem_map.mp hpair
    exact h.pairs p hp

/-! ## Reading what was written -/

section

variable {a : Attributes} {name value rest cs ds : List Char} {part : Part} {ps : List Part}

theorem endsSelector_of_isBlank {c : Char} (h : isBlank c = true) : endsSelector c = true := by
  simp [endsSelector, h]

theorem IsSelector.unspaced (h : IsSelector name) : ∀ c ∈ name, isBlank c = false := by
  intro c hc
  by_contra hblank
  have hends := endsSelector_of_isBlank (Bool.not_eq_false _ ▸ hblank)
  rw [h c hc] at hends
  cases hends

theorem IsSelector.run (h : IsSelector name) (hrest : ∀ c ∈ rest.head?, isBlank c = true) :
    Run (! endsSelector ·) name rest := by
  refine ⟨fun c hc => ?_, fun c hc => ?_⟩
  · simp [h c hc]
  · simp [endsSelector_of_isBlank (hrest c hc)]

theorem quoteFor?_eq_some {quote : Char} (h : quoteFor? value = some quote) :
    IsQuote quote ∧ quote ∉ value := by
  rw [quoteFor?] at h
  split at h
  · obtain rfl := Option.some.inj h
    exact ⟨.inl rfl, ‹_›⟩
  · split at h
    · obtain rfl := Option.some.inj h
      exact ⟨.inr rfl, ‹_›⟩
    · cases h

/-- A written value is read up to its end. -/
theorem IsValue.reads (h : IsValue value) (hrest : ∀ c ∈ rest.head?, isBlank c = true) :
    Value (writeValue value ++ rest) value rest := by
  rw [writeValue]
  cases hquote : quoteFor? value with
  | some quote =>
    obtain ⟨hq, hnot⟩ := quoteFor?_eq_some hquote
    have hvalue : Value (quote :: (value ++ quote :: rest)) value rest := .quoted hq hnot
    simpa using hvalue
  | none =>
    obtain ⟨hunspaced, hstart⟩ := h hquote
    refine .bare (fun c hc => ?_) ⟨fun c hc => by simp [hunspaced c hc], fun c hc => ?_⟩
    · cases value with
      | nil =>
        rintro (rfl | rfl) <;> exact absurd (hrest _ hc) (by decide)
      | cons d value => exact hstart c hc
    · simp [hrest c hc]

theorem IsKey.pair (hname : IsKey name) (hvalue : IsValue value)
    (hrest : ∀ c ∈ rest.head?, isBlank c = true) :
    Pair (name ++ '=' :: writeValue value ++ rest) name value rest := by
  have htrim : trim name = name := (Text.isTrimmed_of_forall hname.unspaced).trim_eq
  have hpair : Pair (name ++ '=' :: (writeValue value ++ rest)) (trim name) value rest :=
    .sign hname.unsigned (by rw [htrim]; exact hname.ne_nil) (by rw [htrim]; exact hname.unspaced)
      (hvalue.reads hrest)
  rw [htrim] at hpair
  simpa using hpair

/-- **A part is read as itself**, up to a blank or the end of the text. -/
theorem readFrom_part (h : part.Writable) (hrest : ∀ c ∈ rest.head?, isBlank c = true) :
    readFrom a (part.write ++ rest) = readFrom (part.add a) rest := by
  cases part with
  | id name =>
    have hstart : trimStart ('#' :: (name.toList ++ rest)) = '#' :: (name.toList ++ rest) := rfl
    rw [Part.write, List.cons_append, readFrom_id hstart (IsSelector.run h hrest),
      String.ofList_toList]
    rfl
  | «class» name =>
    have hstart : trimStart ('.' :: (name.toList ++ rest)) = '.' :: (name.toList ++ rest) := rfl
    rw [Part.write, List.cons_append, readFrom_class hstart (IsSelector.run h.2 hrest), addClass,
      if_neg (by simpa using h.1), String.ofList_toList]
    rfl
  | pair name value =>
    obtain ⟨hname, hvalue⟩ := h
    have hpair := hname.pair hvalue hrest
    rw [Part.write]
    obtain ⟨c, cs, hcs⟩ := List.exists_cons_of_ne_nil hname.ne_nil
    have hc := hname.start c (by rw [hcs]; rfl)
    have hblank := hname.unspaced c (by rw [hcs]; exact List.mem_cons_self)
    rw [hcs] at hpair ⊢
    have hstart : trimStart (c :: cs ++ '=' :: writeValue value.toList ++ rest) =
        c :: cs ++ '=' :: writeValue value.toList ++ rest :=
      Text.trimStart_eq_self fun d hd => by
        obtain rfl : c = d := by simpa using hd
        exact hblank
    rw [readFrom_pair hstart hc.1 hc.2 hpair, ← hcs, String.ofList_toList, String.ofList_toList]
    rfl

theorem readFrom_trimStart (h : trimStart cs = trimStart ds) : readFrom a cs = readFrom a ds := by
  cases hds : trimStart ds with
  | nil => rw [readFrom_done (h.trans hds), readFrom_done hds]
  | cons c text => rw [readFrom_cons (h.trans hds), readFrom_cons hds]

/-- Parts are read one after the other. -/
theorem readFrom_parts (a : Attributes) (h : ∀ part ∈ ps, part.Writable) :
    readFrom a ([' '].intercalate (ps.map Part.write)) = ps.foldl Part.add a := by
  induction ps generalizing a with
  | nil => exact readFrom_done rfl
  | cons part ps ih =>
    obtain ⟨hpart, hps⟩ := List.forall_mem_cons.mp h
    have hrest := ih (part.add a) hps
    cases ps with
    | nil =>
      have hread : readFrom a (part.write ++ []) = readFrom (part.add a) [] :=
        readFrom_part hpart (by simp)
      rw [List.append_nil] at hread
      rw [List.map_singleton, List.intercalate_singleton, hread]
      exact hrest
    | cons q ps =>
      rw [List.map_cons, List.map_cons, List.intercalate_cons_cons, List.append_assoc,
        readFrom_part hpart (by simp; decide), ← List.map_cons, List.foldl_cons, ← hrest]
      exact readFrom_trimStart rfl

/-! ## Putting attributes together -/

theorem eq_of_fields {a b : Attributes} (hid : a.id = b.id) (hclasses : a.classes = b.classes)
    (hpairs : a.pairs = b.pairs) : a = b := by
  cases a
  cases b
  simp_all

/-- A pair whose name comes after all others is added at the end. -/
theorem insertPair_append {name value : String} {pairs : List (String × String)}
    (h : ∀ p ∈ pairs, p.1 < name) : insertPair name value pairs = pairs ++ [(name, value)] := by
  induction pairs with
  | nil => rfl
  | cons p pairs ih =>
    obtain ⟨hp, hpairs⟩ := List.forall_mem_cons.mp h
    have hnot : ¬ name < p.1 := String.lt_asymm hp
    have hne : name ≠ p.1 := by
      rintro rfl
      exact String.lt_irrefl _ hp
    rw [insertPair, if_neg hnot, if_neg hne, ih hpairs, List.cons_append]

theorem foldl_pairs (a : Attributes) {pairs : List (String × String)}
    (h : Ascending (a.pairs ++ pairs)) :
    ((pairs.map fun p => Part.pair p.1 p.2).foldl Part.add a).id = a.id ∧
      ((pairs.map fun p => Part.pair p.1 p.2).foldl Part.add a).classes = a.classes ∧
      ((pairs.map fun p => Part.pair p.1 p.2).foldl Part.add a).pairs = a.pairs ++ pairs := by
  induction pairs generalizing a with
  | nil => simp
  | cons p pairs ih =>
    have hlast : (a.insert p.1 p.2).pairs = a.pairs ++ [p] :=
      insertPair_append fun q hq => (List.pairwise_append.mp h).2.2 q hq p List.mem_cons_self
    have hinsert := ih (a.insert p.1 p.2) (by simpa [hlast] using h)
    rw [hlast, List.append_assoc] at hinsert
    exact hinsert

/-- **Attributes are what their parts add up to.** -/
theorem foldl_parts (a : Attributes) : a.parts.foldl Part.add {} = a := by
  have hid : (a.id.toList.map Part.id).foldl Part.add {} =
      { ({} : Attributes) with id := a.id } := by
    cases a.id <;> rfl
  have hclasses (b : Attributes) (names : List String) :
      (names.map Part.class).foldl Part.add b = { b with classes := b.classes ++ names } := by
    induction names generalizing b with
    | nil => simp
    | cons name names ih => simp [ih, Part.add]
  have hpairs : Ascending (({} : Attributes).pairs ++ a.pairs) := a.ascending
  obtain ⟨h₁, h₂, h₃⟩ :=
    foldl_pairs { ({} : Attributes) with id := a.id, classes := a.classes } hpairs
  rw [parts, List.foldl_append, List.foldl_append, hid, hclasses]
  exact eq_of_fields h₁ h₂ h₃

/-! ## Ends of what was written -/

theorem Part.Writable.isTrimmed (h : part.Writable) : IsTrimmed part.write := by
  cases part with
  | id name =>
    exact Text.isTrimmed_of_forall
      (List.forall_mem_cons.mpr ⟨by decide, IsSelector.unspaced h⟩)
  | «class» name =>
    exact Text.isTrimmed_of_forall
      (List.forall_mem_cons.mpr ⟨by decide, IsSelector.unspaced h.2⟩)
  | pair name value =>
    obtain ⟨hname, hvalue⟩ := h
    have htrimmed := Text.isTrimmed_of_forall hname.unspaced
    rw [Part.write, writeValue]
    cases hquote : quoteFor? value.toList with
    | some quote =>
      have hlast : IsTrimmed [quote] := by
        rcases (quoteFor?_eq_some hquote).1 with rfl | rfl <;>
          exact Text.isTrimmed_of_forall (List.forall_mem_singleton.mpr rfl)
      have happend := htrimmed.append hlast hname.ne_nil (List.cons_ne_nil _ _)
        ('=' :: quote :: value.toList)
      simpa using happend
    | none =>
      refine Text.isTrimmed_of_forall fun c hc => ?_
      rcases List.mem_append.mp hc with hc | hc
      · exact hname.unspaced c hc
      · rcases List.mem_cons.mp hc with rfl | hc
        · decide
        · exact (hvalue hquote).1 c hc

theorem Part.write_ne_nil (part : Part) : part.write ≠ [] := by
  cases part <;> simp [Part.write]

/-- Written attributes have no blank at either end. -/
theorem isTrimmed_parts (h : ∀ part ∈ ps, part.Writable) :
    IsTrimmed ([' '].intercalate (ps.map Part.write)) := by
  induction ps with
  | nil => exact Text.isTrimmed_of_forall (by simp)
  | cons part ps ih =>
    obtain ⟨hpart, hps⟩ := List.forall_mem_cons.mp h
    cases ps with
    | nil => simpa using hpart.isTrimmed
    | cons q ps =>
      have hne : [' '].intercalate ((q :: ps).map Part.write) ≠ [] := by
        rw [List.map_cons]
        cases hq : q.write with
        | nil => exact absurd hq q.write_ne_nil
        | cons c cs => simp
      have happend := hpart.isTrimmed.append (ih hps) part.write_ne_nil hne [' ']
      simpa using happend

theorem isTrimmed_write (h : a.Writable) : IsTrimmed a.write := isTrimmed_parts h.part

/-- What can be written is read back. -/
theorem read_write (h : a.Writable) : read a.write = a := by
  rw [read, (isTrimmed_write h).trim_eq, write, readFrom_parts _ h.part, foldl_parts]

end

/-! ## What is read can be written -/

section

variable {a out : Attributes} {cs name value rest text : List Char} {c : Char}

theorem isSelector_of_run (h : Run (! endsSelector ·) name rest) : IsSelector name := by
  intro c hc
  simpa using h.all c hc

theorem Pair.isKey (h : Pair (c :: text) name value rest) (hblank : isBlank c = false)
    (hid : c ≠ '#') (hclass : c ≠ '.') : IsKey name := by
  generalize hcs : c :: text = cs at h
  obtain ⟨hfront, hne, hunspaced, -⟩ := h
  rename_i front after
  -- the first character is no blank, so it starts the name
  obtain ⟨front, rfl⟩ : ∃ front', front = c :: front' := by
    cases front with
    | nil => exact absurd rfl hne
    | cons d front => exact ⟨front, by rw [(List.cons.inj hcs).1]⟩
  have hstart : trimStart (c :: front) = c :: front :=
    Text.trimStart_eq_self fun d hd => by
      obtain rfl : c = d := by simpa using hd
      exact hblank
  have hprefix : trim (c :: front) <+: c :: front := by
    rw [trim, hstart, Text.trimEnd_eq]
    exact List.rdropWhile_prefix isBlank _
  obtain ⟨tail, htail⟩ := hprefix
  refine ⟨hne, hunspaced, fun hmem => hfront ?_, fun d hd => ?_⟩
  · rw [← htail]
    exact List.mem_append_left _ hmem
  · have hhead : (c :: front).head? = some d := by
      rw [← htail, List.head?_append_of_ne_nil _ hne]
      exact hd
    obtain rfl : c = d := by simpa using hhead
    exact ⟨hid, hclass⟩

theorem Value.isValue (h : Value cs value rest) : IsValue value := by
  intro hnone
  rcases h with ⟨rfl | rfl, hnot⟩ | ⟨hhead, hrun⟩
  · rw [quoteFor?, if_pos hnot] at hnone
    cases hnone
  · rw [quoteFor?, if_pos hnot] at hnone
    split at hnone <;> cases hnone
  · refine ⟨fun c hc => by simpa using hrun.all c hc, fun c hc => hhead c ?_⟩
    cases value with
    | nil => cases hc
    | cons d value => exact hc

theorem Pair.isValue (h : Pair cs name value rest) : IsValue value := by
  cases h with
  | sign _ _ _ hvalue => exact hvalue.isValue

/-- **What is read can be written**, whatever the text is. -/
theorem Reads.writable (h : Reads a cs out) (ha : a.Writable) : out.Writable := by
  induction h with
  | done _ => exact ha
  | id _ hrun _ ih =>
    refine ih ⟨fun s hs => ?_, ha.classes, ha.pairs⟩
    obtain rfl := Option.some.inj hs
    rw [String.toList_ofList]
    exact isSelector_of_run hrun
  | «class» _ hrun _ ih =>
    refine ih ?_
    rw [addClass]
    split
    · exact ha
    · rename_i hne
      refine ⟨ha.id, fun s hs => ?_, ha.pairs⟩
      rcases List.mem_append.mp hs with hs | hs
      · exact ha.classes s hs
      · obtain rfl := List.mem_singleton.mp hs
        rw [String.toList_ofList]
        exact ⟨by simpa using hne, isSelector_of_run hrun⟩
  | pair hcs hid hclass hpair _ ih =>
    refine ih ⟨ha.id, ha.classes, fun p hp => ?_⟩
    rcases mem_insertPair hp with rfl | hp
    · rw [String.toList_ofList, String.toList_ofList]
      exact ⟨hpair.isKey (Text.isBlank_of_trimStart_eq hcs) hid hclass, hpair.isValue⟩
    · exact ha.pairs p hp
  | skip _ _ _ _ _ ih => exact ih ha

theorem writable_read (cs : List Char) : (read cs).Writable := by
  have hempty : ({} : Attributes).Writable := ⟨by simp, by simp, by simp⟩
  exact (reads_readFrom {} (trim cs)).writable hempty

end

/-- **Attributes are read back.** Every text is read to its end, in one way. Attributes are read
back from what they are written as exactly when they can be written, and those that are read from
any text can. -/
theorem read_write_iff (a : Attributes) (cs : List Char) :
    (∀ out, Reads {} (trim cs) out ↔ out = read cs) ∧ (read a.write = a ↔ a.Writable) ∧
      (read cs).Writable ∧ read (read cs).write = read cs := by
  refine ⟨fun out => reads_iff, ⟨fun h => ?_, read_write⟩, writable_read cs,
    read_write (writable_read cs)⟩
  rw [← h]
  exact writable_read a.write

end RichMarkdown.Attributes
