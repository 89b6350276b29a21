import RichMarkdown.Proofs.Layout.Steady
import RichMarkdown.Proofs.Styled.Ancestors

/-!
# Where the content of a document stands

The pieces of content that a layout writes, each with the containers around it, read off the outline
of a document without any layout (`outlinesPlaces`). A container waits for the first piece in it; a
list item without any is a place of its own. What a line starts with is settled by the containers
around it and by which of them still wait (`Borders.front`).

* `lead_outlines`: what waits for a place in some containers waits at the first one and not later.
* `carry_outlines`: so each item waits at exactly one place for its line, where its marker stands,
  and the places are in the order of the items.
-/

set_option autoImplicit false

namespace RichMarkdown

open Layout

/-! ## Containers -/

/-- A container that has a say in what stands at the start of a line. -/
inductive Sign where
  | item (marker : Marker) (task : Option Bool)
  | quote
  | footnote (number : Nat)

namespace Sign

/-- What the first line in a container starts with. -/
def first : Sign → String
  | item marker task => itemText marker task
  | quote => "> "
  | footnote number => s!"[{number}] "

/-- What its other lines start with. In a list item or a footnote they are indented by the width of
the dash or the number; the box of a task does not count. -/
def rest : Sign → String
  | item .bullet _ => "  "
  | item (.number n) _ => String.ofList (List.replicate s!"{n}. ".length ' ')
  | quote => "> "
  | footnote number => String.ofList (List.replicate s!"[{number}] ".length ' ')

def margin (x : Sign) : Margin := ⟨x.first, x.rest, false⟩

theorem margin_item (marker : Marker) (task : Option Bool) :
    (item marker task).margin =
      .hanging (State.markerText marker) (State.taskText task) := by
  rw [Margin.hanging, itemText_eq]
  cases marker <;> rfl

theorem margin_footnote (number : Nat) :
    (footnote number).margin = .hanging s!"[{number}] " "" := by
  rw [Margin.hanging, String.append_empty]
  rfl

end Sign

/-- The marker of a list item, with the state of its task. -/
abbrev ItemMark : Type := Marker × Option Bool

def Sign.itemMark? : Sign → Option ItemMark
  | item marker task => some (marker, task)
  | _ => none

/-- The containers around a place. Those that wait for a line stand in those that have one. -/
structure Borders where
  /-- Those in which nothing stands yet, innermost first. -/
  waiting : List Sign := []
  /-- Those in which something stands already, innermost first. -/
  begun : List Sign := []

/-- A piece of content in its containers, or without content the end of an empty item. -/
structure Place where
  borders : Borders
  content : Option String

namespace Borders

/-- The margins of the containers, innermost first. -/
def margins (b : Borders) : List Margin :=
  b.waiting.map Sign.margin ++ b.begun.map fun x => x.margin.spent

/-- What a line starts with: the indentations of the containers that have a line already, outermost
first, and then the markers of those that wait for one. -/
def front (b : Borders) : String :=
  String.join (b.begun.reverse.map Sign.rest) ++ String.join (b.waiting.reverse.map Sign.first)

/-- The items whose markers a line starts with, outermost first. -/
def itemMarks (b : Borders) : List ItemMark := b.waiting.reverse.filterMap Sign.itemMark?

/-- The containers around what stands in a further one. -/
def enter (b : Borders) (x : Option Sign) : Borders := { b with waiting := x.toList ++ b.waiting }

/-- The same containers once something stands in all of them. -/
def next (b : Borders) : Borders := ⟨[], b.waiting ++ b.begun⟩

/-- The containers after some places in them. -/
def after (b : Borders) : List Place → Borders
  | [] => b
  | _ :: _ => b.next

/-- The places of some pieces in the same containers. -/
def places (b : Borders) : List String → List Place
  | [] => []
  | x :: xs => ⟨b, some x⟩ :: b.next.places xs

theorem after_append (b : Borders) (ps qs : List Place) :
    b.after (ps ++ qs) = (b.after ps).after qs := by
  cases ps <;> cases qs <;> rfl

theorem places_append (b : Borders) (xs ys : List String) :
    b.places (xs ++ ys) = b.places xs ++ (b.after (b.places xs)).places ys := by
  induction xs generalizing b with
  | nil => rfl
  | cons x xs ih =>
    cases xs with
    | nil => rfl
    | cons x' xs => exact congrArg (_ :: ·) (ih b.next)

end Borders

/-! ## Pieces -/

/-- The lines that are not empty. -/
def linesPieces (ls : List (List Char)) : List String :=
  (ls.filter (! ·.isEmpty)).map String.ofList

theorem linesPieces_cons (l : List Char) (ls : List (List Char)) :
    linesPieces (l :: ls) = linesPieces [l] ++ linesPieces ls := by
  cases l <;> rfl

/-- The pieces of a text, each in a line of its own. -/
def textPieces (text : String) : List String :=
  linesPieces (text.toList.splitOn '\n')

/-- The pieces of some parts, after the labels of footnotes seen before. -/
def partsPieces (seen : List String) : List Part → List String
  | [] => []
  | .text _ s :: rest => textPieces s ++ partsPieces seen rest
  | .reference _ label :: rest =>
    textPieces s!"[{labelNumber (seeLabel seen label) label}]" ++
      partsPieces (seeLabel seen label) rest
  | .definition label :: rest => partsPieces (seeLabel seen label) rest

/-! ## Places -/

namespace Node

/-- The container that a node is for what stands in it. -/
def sign? (seen : List String) : Node → Option Sign
  | item marker task _ => some (.item marker task)
  | quote _ => some .quote
  | footnote label => some (.footnote (labelNumber (seeLabel seen label) label))
  | _ => none

def itemMark? : Node → Option ItemMark
  | item marker task _ => some (marker, task)
  | _ => none

/-- The place at the end of a node in which there are no others, if it is an item. -/
def lastPlaces (n : Node) (b : Borders) : List Place → List Place
  | [] => if n.isItem then [⟨b, none⟩] else []
  | _ :: _ => []

theorem lastPlaces_of_not_item {n : Node} (hn : n.isItem = false) (b : Borders)
    (ps : List Place) : n.lastPlaces b ps = [] := by
  cases ps with
  | nil => simp [lastPlaces, hn]
  | cons p ps => rfl

/-- The places of a node that is not passed over: what is shown of it, what is in it, and its end.
Nothing shown of the node itself stands before its marker. -/
def places (n : Node) (seen : List String) (b : Borders)
    (inside : List String → Borders → List Place) : List Place :=
  let inner := b.enter (n.sign? seen)
  let own := inner.places (partsPieces seen (n.parts []))
  let all := own ++ inside (labelsAfter seen (n.parts [])) (inner.after own)
  all ++ n.lastPlaces inner all

end Node

mutual

/-- The places of an outline in some containers, after the labels of footnotes seen before. -/
def Outline.places (seen : List String) (b : Borders) : Outline → List Place
  | .leaf l => b.places (partsPieces seen (l.parts []))
  | .reference label => b.places (partsPieces seen [.reference [] label])
  | .node n inside =>
    if n.isComment then [] else n.places seen b fun seen b => outlinesPlaces seen b inside

/-- The places of outlines one after the other. -/
def outlinesPlaces (seen : List String) (b : Borders) : List Outline → List Place
  | [] => []
  | o :: os =>
    o.places seen b ++
      outlinesPlaces (labelsAfter seen (o.parts [])) (b.after (o.places seen b)) os

end

mutual

/-- The items of an outline that are visited, in order. -/
def Outline.itemMarks : Outline → List ItemMark
  | .leaf _ => []
  | .reference _ => []
  | .node n inside => if n.isComment then [] else n.itemMark?.toList ++ outlinesItemMarks inside

def outlinesItemMarks : List Outline → List ItemMark
  | [] => []
  | o :: os => o.itemMarks ++ outlinesItemMarks os

end

/-! ### Numbers of items -/

/-- The places of what stands in some containers. At the first of them all that waited in these
containers waits still, perhaps with more inside of it, and at the later ones none of it waits. -/
inductive Lead (b : Borders) : List Place → Prop
  | none : Lead b []
  | some {p : Place} {ps : List Place} : b.waiting <:+ p.borders.waiting →
    p.borders.begun = b.begun → (∀ q ∈ ps, b.waiting ++ b.begun <:+ q.borders.begun) →
    Lead b (p :: ps)

namespace Lead

variable {b : Borders} {ps qs : List Place}

theorem append (h : Lead b ps) (h' : Lead (b.after ps) qs) : Lead b (ps ++ qs) := by
  cases h with
  | none => exact h'
  | some hfirst hbegun hlater =>
    refine .some hfirst hbegun (List.forall_mem_append.mpr ⟨hlater, ?_⟩)
    cases h' with
    | none => nofun
    | some _ hbegun' hlater' =>
      exact List.forall_mem_cons.mpr ⟨hbegun' ▸ List.suffix_rfl, hlater'⟩

theorem place (b : Borders) (content : Option String) : Lead b [⟨b, content⟩] :=
  .some List.suffix_rfl rfl nofun

theorem places (b : Borders) (xs : List String) : Lead b (b.places xs) := by
  induction xs generalizing b with
  | nil => exact .none
  | cons x xs ih => exact (place b (Option.some x)).append (ih b.next)

/-- What waits in a node for a place waits around it. -/
theorem of_enter {x : Option Sign} (h : Lead (b.enter x) ps) : Lead b ps := by
  cases h with
  | none => exact .none
  | some hfirst hbegun hlater =>
    refine .some ((List.suffix_append _ _).trans hfirst) hbegun fun q hq => ?_
    have hq := hlater q hq
    rw [Borders.enter, List.append_assoc] at hq
    exact (List.suffix_append _ _).trans hq

theorem lastPlaces (n : Node) (b : Borders) (ps : List Place) :
    Lead (b.after ps) (n.lastPlaces b ps) := by
  cases ps with
  | nil =>
    rw [Node.lastPlaces]
    split
    · exact place b Option.none
    · exact .none
  | cons p ps => exact .none

end Lead

mutual

theorem lead_outline (seen : List String) (b : Borders) : ∀ o : Outline, Lead b (o.places seen b)
  | .leaf l => .places b _
  | .reference label => .places b _
  | .node n inside => by
    rw [Outline.places]
    split
    · exact .none
    · have hinside := (Lead.places _ _).append (lead_outlines (labelsAfter seen (n.parts []))
        ((b.enter (n.sign? seen)).after
          ((b.enter (n.sign? seen)).places (partsPieces seen (n.parts [])))) inside)
      exact (hinside.append (.lastPlaces n _ _)).of_enter

/-- **The first place in some containers is led by all that wait in them.** -/
theorem lead_outlines (seen : List String) (b : Borders) :
    ∀ os : List Outline, Lead b (outlinesPlaces seen b os)
  | [] => .none
  | o :: os => (lead_outline seen b o).append (lead_outlines _ _ os)

end

/-! ## Items and places -/

/-- Where there are places, the items that waited before them and some others have their markers at
them, in order and once each. Where there are none, there are no other items. -/
inductive Carry (b : Borders) : List Place → List ItemMark → Prop
  | none : Carry b [] []
  | some {p : Place} {ps : List Place} {es : List ItemMark} :
    (p :: ps).flatMap (fun p => p.borders.itemMarks) = b.itemMarks ++ es → Carry b (p :: ps) es

namespace Carry

variable {b : Borders} {ps qs : List Place} {es fs : List ItemMark}

theorem flatMap_eq (h : Carry b ps es) (hb : b.itemMarks = []) :
    ps.flatMap (fun p => p.borders.itemMarks) = es := by
  cases h with
  | none => rfl
  | some h => rw [h, hb, List.nil_append]

theorem append (h : Carry b ps es) (h' : Carry (b.after ps) qs fs) :
    Carry b (ps ++ qs) (es ++ fs) := by
  cases h with
  | none => exact h'
  | @some p ps _ h =>
    have hall : (p :: ps ++ qs).flatMap (fun p => p.borders.itemMarks) =
        b.itemMarks ++ (es ++ fs) := by
      rw [List.flatMap_append, h, h'.flatMap_eq rfl, List.append_assoc]
    exact .some hall

theorem places (b : Borders) (xs : List String) : Carry b (b.places xs) [] := by
  induction xs generalizing b with
  | nil => exact .none
  | cons x xs ih =>
    refine .some ?_
    rw [List.flatMap_cons, (ih b.next).flatMap_eq rfl]

/-- What waits in a node for the places in it is the item that the node is, if any, and what waited
around it. -/
theorem itemMarks_enter (b : Borders) (n : Node) (seen : List String) :
    (b.enter (n.sign? seen)).itemMarks = b.itemMarks ++ n.itemMark?.toList := by
  cases n <;> simp [Borders.itemMarks, Borders.enter, Node.sign?, Node.itemMark?, Sign.itemMark?]

theorem node (n : Node) (seen : List String) (h : Carry (b.enter (n.sign? seen)) ps es) :
    Carry b (ps ++ n.lastPlaces (b.enter (n.sign? seen)) ps) (n.itemMark?.toList ++ es) := by
  cases h with
  | none =>
    cases hn : n.isItem with
    | false =>
      have hmark : n.itemMark? = Option.none := by
        cases n <;> first | rfl | cases hn
      simp only [Node.lastPlaces, hn, hmark]
      exact .none
    | true =>
      simp only [Node.lastPlaces, hn, if_true]
      refine .some ?_
      simp [itemMarks_enter]
  | some h =>
    rw [Node.lastPlaces, List.append_nil]
    refine .some ?_
    rw [h, itemMarks_enter, List.append_assoc]

end Carry

mutual

theorem carry_outline (seen : List String) (b : Borders) :
    ∀ o : Outline, Carry b (o.places seen b) o.itemMarks
  | .leaf l => .places b _
  | .reference label => .places b _
  | .node n inside => by
    rw [Outline.places, Outline.itemMarks]
    split
    · exact .none
    · have hinside := carry_outlines (labelsAfter seen (n.parts []))
        ((b.enter (n.sign? seen)).after
          ((b.enter (n.sign? seen)).places (partsPieces seen (n.parts [])))) inside
      exact ((Carry.places _ _).append hinside).node n seen

/-- **Each item has its marker at one place**, and the places are in the order of the items. -/
theorem carry_outlines (seen : List String) (b : Borders) :
    ∀ os : List Outline, Carry b (outlinesPlaces seen b os) (outlinesItemMarks os)
  | [] => .none
  | o :: os => (carry_outline seen b o).append (carry_outlines _ _ os)

end

/-- An empty item in a quote shares its line with the mark of the quote, and the next item has its
marker in the line of its text, although a comment comes first. -/
example : outlinesPlaces [] {} (blocksOutline
      [.quote none [.list none true [⟨none, []⟩,
        ⟨some true, [.html "<!-- a -->", .paragraph [.text "b"]]⟩]]]) =
    [⟨⟨[.item .bullet none, .quote], []⟩, none⟩,
      ⟨⟨[.item .bullet (some true)], [.quote]⟩, some "b"⟩] := rfl

end RichMarkdown
