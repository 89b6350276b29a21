import RichMarkdown.Text.Lines

/-!
# File trees

The files that settings can be read from, as a value: what stands at a path below the root
directory.
-/

set_option autoImplicit false

namespace RichMarkdown

/-- The names on the way from the root directory to a file or a directory. -/
abbrev Location := List String

/-- The files and directories below the root directory. -/
structure FileTree where
  files : List (Location × String)
  /-- The directories, apart from those above a file or another directory. -/
  directories : List Location

inductive FileEntry where
  | missing
  | directory
  | file (content : String)
  deriving DecidableEq, Repr

namespace FileTree

def entry (t : FileTree) (location : Location) : FileEntry :=
  match t.files.lookup location with
  | some content => .file content
  | none =>
    if (t.directories ++ t.files.map (·.1)).any location.isPrefixOf || location.isEmpty then
      .directory
    else .missing

/-- What a path of names leads to from a directory. Dots and empty names stay where they are, two
dots lead up, but not out of the root. Past a file or a missing name a path leads nowhere. -/
def follow (t : FileTree) : (names : List String) → Location → FileEntry
  | [], location => t.entry location
  | name :: names, location =>
    if t.entry location ≠ .directory then .missing
    else if name = "" ∨ name = "." then follow t names location
    else if name = ".." then follow t names location.dropLast
    else follow t names (location ++ [name])

def names (path : String) : List String :=
  (path.toList.splitOn '/').map String.ofList

/-- What a path leads to from a directory. An absolute path starts at the root, and an empty one
leads nowhere. -/
def atPath (t : FileTree) (directory : Location) (path : String) : FileEntry :=
  match names path with
  | [""] => .missing
  | "" :: rest => t.follow rest []
  | parts => t.follow parts directory

/-- The location and content of the nearest file of a name, in a directory or those above it. -/
def nearest? (t : FileTree) (name : String) (directory : Location) : Option (Location × String) :=
  match t.entry (directory ++ [name]) with
  | .file content => some (directory ++ [name], content)
  | _ =>
    match directory with
    | [] => none
    | d :: ds => t.nearest? name (d :: ds).dropLast
termination_by directory.length
decreasing_by simp

end FileTree

end RichMarkdown
