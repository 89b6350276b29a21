import RichMarkdown.Render.Walk

/-!
# Traces

The visits of a walk as a list, in terms of the core nodes: text, marks that every format has, and
the usual blocks. All other nodes are traced as what stands in for them where a format does not know
them: footnote references and table cells as text, table rows as paragraphs, and the rest as
nothing but what they hold.
-/

set_option autoImplicit false

namespace RichMarkdown

inductive Visit where
  | leaf (l : Leaf)
  | start (f : Frame)
  | finish (f : Frame)
  deriving Repr

namespace Trace

def leaf : Leaf → List Visit
  | .inlineHtml _ | .htmlBlock _ | .metadata _ => []
  | .footnoteReference _ n => [.leaf (.text s!"[{n}]")]
  | l => [.leaf l]

/-- Whether a mark is a core node. -/
def isCoreMark : Mark → Bool
  | .emphasis | .strong | .link _ _ => true
  | _ => false

/-- Whether a frame is a core node. -/
def isCore : Frame → Bool
  | .marked mark => isCoreMark mark
  | .paragraph _ | .heading _ _ | .list _ _ | .item _ _ | .quote _ => true
  | _ => false

def start : Frame → List Visit
  | .row _ => [.start (.paragraph false)]
  | .cell _ column _ => if column = 0 then [] else [.leaf (.text "\t")]
  | f => if isCore f then [.start f] else []

def finish : Frame → List Visit
  | .row _ => [.finish (.paragraph false)]
  | f => if isCore f then [.finish f] else []

/-- The backend that collects the visits of core nodes. -/
def backend : Backend (Array Visit) where
  leaf _ l out := out ++ leaf l
  start _ f out :=
    match f.defaultFlow with
    | .skip => (.skip, out)
    | .enter => (.enter, out ++ start f)
  finish _ f out := out ++ finish f

/-- The trace of a document, and the context after it. -/
def renderIn (d : Document) (c : Context) : List Visit × Context :=
  let (out, c) := Walk.document backend d c #[]
  (out.toList, c)

end Trace

end RichMarkdown
