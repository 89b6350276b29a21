import RichMarkdown.Document.Slug
import RichMarkdown.Theme.Stylesheet

/-!
# Rendering contexts

What a rendering has to remember on its way through a document: the containers that are open, the
numbers of footnotes in the order of their first use, the anchors of headings, the table of contents
and the title. A context can be handed from one rendering to the next, which goes on numbering.
-/

set_option autoImplicit false

namespace RichMarkdown

/-- A container that is open around the current node. -/
inductive Container where
  | list (tight ordered : Bool)
  | item (tight : Bool)
  | quote
  | footnote
  | directive
  deriving DecidableEq, Repr

structure TocEntry where
  level : Nat
  title : String
  id : String
  deriving DecidableEq, Repr

/-- What a rendering remembers. -/
structure Context where
  mode : ColorMode := .light
  containers : List Container := []
  /-- The labels of the footnotes seen, in the order of their numbers. -/
  footnotes : List String := []
  /-- How many headings had each slug. -/
  slugCounts : List (String × Nat) := []
  toc : List TocEntry := []
  title : Option String := none
  deriving DecidableEq, Repr, Inhabited

namespace Context

def push (c : Context) (container : Container) : Context :=
  { c with containers := container :: c.containers }

def pop (c : Context) : Context := { c with containers := c.containers.tail }

def listDepth (c : Context) : Nat :=
  c.containers.countP fun | .list _ _ => true | _ => false

/-- Whether the innermost container is an item of a tight list. -/
def inTightItem (c : Context) : Bool := c.containers.head? == some (.item true)

/-- Whether the innermost open list is tight. -/
def currentListTight? (c : Context) : Option Bool :=
  c.containers.findSome? fun | .list tight _ => some tight | _ => none

/-- The number of a footnote, from one up, and the context that knows it. -/
def footnoteNumber (c : Context) (label : String) : Nat × Context :=
  match c.footnotes.idxOf? label with
  | some i => (i + 1, c)
  | none => (c.footnotes.length + 1, { c with footnotes := c.footnotes ++ [label] })

/-- The slug that the anchor of a heading starts with. -/
def anchorBase (text : String) : String :=
  let s := slug text
  if s.isEmpty then "section" else s

/-- How many headings had this slug before. -/
def slugCount (c : Context) (base : String) : Nat := (c.slugCounts.lookup base).getD 0

/-- The anchor for a heading: its slug, with a number from the second use of the slug on. -/
def freshAnchor (c : Context) (text : String) : String × Context :=
  let base := anchorBase text
  let count := c.slugCount base
  let id := if count = 0 then base else base ++ "-" ++ toString count
  (id, { c with
    slugCounts := (base, count + 1) :: c.slugCounts.filter (·.1 ≠ base) })

/-- Notes a heading and gives its anchor. The first heading of level one is the title; all others
are entries of the table of contents. -/
def registerHeading (c : Context) (level : Nat) (text : String) : String × Context :=
  let (id, c) := c.freshAnchor text
  let title := Text.trimmed text
  if level = 1 && c.title.isNone then (id, { c with title := some title })
  else (id, { c with toc := c.toc ++ [⟨level, title, id⟩] })

end Context

end RichMarkdown
