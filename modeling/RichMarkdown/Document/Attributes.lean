/-!
# Attributes

The attributes of a directive: an identifier, classes, and pairs of a name and a value. The names of
pairs are distinct, and the pairs stand in ascending order of their names, so two attributes that
give the same values are equal. `get?_insert` says what an added pair changes.
-/

set_option autoImplicit false

namespace RichMarkdown

/-- Pairs of a name and a value, in strictly ascending order of names. -/
def Ascending (pairs : List (String × String)) : Prop := pairs.Pairwise fun p q => p.1 < q.1

theorem ascending_nil : Ascending [] := List.Pairwise.nil

structure Attributes where
  id : Option String := none
  classes : List String := []
  pairs : List (String × String) := []
  ascending : Ascending pairs := by exact ascending_nil
  deriving DecidableEq, Repr

namespace Attributes

instance : Inhabited Attributes := ⟨{}⟩

def get? (a : Attributes) (name : String) : Option String := a.pairs.lookup name

def isEmpty (a : Attributes) : Bool := a.id.isNone && a.classes.isEmpty && a.pairs.isEmpty

/-- Adds a pair to a list in ascending order of names, in place of one with the same name. -/
def insertPair (name value : String) : List (String × String) → List (String × String)
  | [] => [(name, value)]
  | p :: ps =>
    if name < p.1 then (name, value) :: p :: ps
    else if name = p.1 then (name, value) :: ps
    else p :: insertPair name value ps

theorem mem_insertPair {name value : String} {ps : List (String × String)} {q : String × String}
    (h : q ∈ insertPair name value ps) : q = (name, value) ∨ q ∈ ps := by
  induction ps with
  | nil => simpa [insertPair] using h
  | cons p ps ih =>
    simp only [insertPair] at h
    split at h
    · exact List.mem_cons.mp h
    · split at h
      · exact (List.mem_cons.mp h).imp_right (List.mem_cons_of_mem p)
      · rcases List.mem_cons.mp h with h | h
        · exact .inr (h ▸ List.mem_cons_self)
        · exact (ih h).imp_right (List.mem_cons_of_mem p)

theorem ascending_insertPair (name value : String) {ps : List (String × String)}
    (h : Ascending ps) : Ascending (insertPair name value ps) := by
  induction ps with
  | nil => exact List.pairwise_singleton _ _
  | cons p ps ih =>
    obtain ⟨hp, hps⟩ := List.pairwise_cons.mp h
    simp only [insertPair]
    split
    · rename_i hlt
      refine List.pairwise_cons.mpr ⟨fun q hq => ?_, h⟩
      rcases List.mem_cons.mp hq with rfl | hq
      · exact hlt
      · exact String.lt_trans hlt (hp q hq)
    · rename_i hge
      split
      · rename_i heq
        exact List.pairwise_cons.mpr ⟨fun q hq => heq ▸ hp q hq, hps⟩
      · rename_i hne
        refine List.pairwise_cons.mpr ⟨fun q hq => ?_, ih hps⟩
        rcases mem_insertPair hq with rfl | hq
        · exact String.not_le.mp fun hle => hne (String.le_antisymm hle (String.not_lt.mp hge))
        · exact hp q hq

theorem lookup_insertPair (name value other : String) (ps : List (String × String)) :
    (insertPair name value ps).lookup other =
      if other = name then some value else ps.lookup other := by
  induction ps with
  | nil => simp only [insertPair, List.lookup_cons]; grind
  | cons p ps ih =>
    obtain ⟨key, v⟩ := p
    simp only [insertPair]
    split
    · simp only [List.lookup_cons]; grind
    · split <;> simp only [List.lookup_cons, ih] <;> grind

/-- Adds a pair, in place of one with the same name. -/
def insert (a : Attributes) (name value : String) : Attributes :=
  { a with
    pairs := insertPair name value a.pairs
    ascending := ascending_insertPair name value a.ascending }

/-- An added pair gives its own name a value and changes no other. -/
theorem get?_insert (a : Attributes) (name value other : String) :
    (a.insert name value).get? other = if other = name then some value else a.get? other :=
  lookup_insertPair name value other a.pairs

end Attributes

end RichMarkdown
