/-!
# TOML values

The values of a TOML text. A table remembers how it was written, because that decides whether later
lines may add to it (`Value.insert`, `Value.openTable`, `Value.openElement`).
-/

set_option autoImplicit false

namespace RichMarkdown.Toml

/-- How a table came to be. -/
inductive Origin where
  /-- It is written in braces, and complete. -/
  | braces
  /-- It stands in the header of a table inside it. -/
  | implied
  /-- It stands before a point in a key. -/
  | dotted
  | header
  deriving DecidableEq, Repr

inductive Value where
  | string (s : String)
  | boolean (b : Bool)
  | integer (n : Int)
  /-- An array made of headers can grow. -/
  | array (ofHeaders : Bool) (elements : List Value)
  | table (origin : Origin) (entries : List (String × Value))
  deriving Repr, Inhabited

/-- The entries of a table in the order in which they were written. -/
abbrev Entries := List (String × Value)

/-- The entries with another value for a key that is there. -/
def Entries.replace (entries : Entries) (key : String) (v : Value) : Entries :=
  entries.map fun e => if e.1 = key then (key, v) else e

/-- Changes the table at the end of a path. Tables that are not there yet are made, with origin
`fresh`; of an array of headers the last element counts. Tables in braces are complete, and a dotted
key adds only to tables without a header of their own. -/
def changeAt (fresh : Origin) (change : Origin → Entries → Option (Origin × Entries)) :
    List String → Origin → Entries → Option (Origin × Entries)
  | [], origin, entries => change origin entries
  | key :: path, origin, entries =>
    match entries.lookup key with
    | none => do
      let (o, es) ← changeAt fresh change path fresh []
      return (origin, entries ++ [(key, .table o es)])
    | some (.table o es) =>
      if o = .braces ∨ (fresh = .dotted ∧ o = .header) then none
      else do
        let (o, es) ← changeAt fresh change path o es
        return (origin, entries.replace key (.table o es))
    | some (.array true elements) =>
      match elements.reverse with
      | .table o es :: earlier => do
        let (o, es) ← changeAt fresh change path o es
        return (origin, entries.replace key (.array true (earlier.reverse ++ [.table o es])))
      | _ => none
    | some _ => none

/-- Adds a value under a new key. Only keys with a point add to a table made by such keys. -/
def addEntry (isDotted : Bool) (key : String) (v : Value) (origin : Origin) (entries : Entries) :
    Option (Origin × Entries) :=
  if (origin = .dotted) ≠ isDotted ∨ (entries.lookup key).isSome then none
  else some (origin, entries ++ [(key, v)])

/-- Adds a value under a key, which may have points in it: all parts but the last are a path. -/
def insert (path : List String) (key : String) (v : Value) (origin : Origin) (entries : Entries) :
    Option (Origin × Entries) :=
  changeAt .dotted (addEntry (! path.isEmpty) key v) path origin entries

/-- Takes a table header. A table has one header at most, and none if dotted keys made it. -/
def openTable (key : String) (origin : Origin) (entries : Entries) : Option (Origin × Entries) :=
  match entries.lookup key with
  | none => some (origin, entries ++ [(key, .table .header [])])
  | some (.table .implied es) => some (origin, entries.replace key (.table .header es))
  | some _ => none

/-- Takes the header of an element of an array of tables. -/
def openElement (key : String) (origin : Origin) (entries : Entries) :
    Option (Origin × Entries) :=
  match entries.lookup key with
  | none => some (origin, entries ++ [(key, .array true [.table .header []])])
  | some (.array true elements) =>
    some (origin, entries.replace key (.array true (elements ++ [.table .header []])))
  | some _ => none

end RichMarkdown.Toml
