import RichMarkdown.Proofs.Document.Contexts
import RichMarkdown.Proofs.Document.Shown
import RichMarkdown.Proofs.Styled.Letters
import RichMarkdown.Proofs.Walk.Outline

/-!
# Styles come from ancestors

How a text looks is settled by the nodes around it: each changes the style that those around it make
of the default style (`styleIn`). What a document shows as text, each part with the nodes around it
that matter, is read off its outline (`outlinesParts`), where no node sees its siblings.

* `lays_start`, `lays_finish`: a frame that changes the style in force restores it at its finish.
* `Styled.laid_renderIn`: without a highlighter, the letters of a document are those of its parts in
  the styles of their ancestors, and all else is layout in the default style.
-/

set_option autoImplicit false

namespace RichMarkdown

/-! ## Styles -/

/-- A node with a say in how the text in it looks. -/
inductive Modifier where
  | heading (level : Nat)
  | strong
  | emphasis
  | strikethrough
  | superscript
  | subscript
  | link (target : String)
  | headerRow
  | code
  /-- The title of a call-out. -/
  | title

/-- The scale of the six levels of headings. Levels below one or above six count as one or six. -/
def scaleOfLevel (level : Nat) : Rat :=
  match max 1 (min level 6) with
  | 1 => 2
  | 2 => 3 / 2
  | 3 => 5 / 4
  | 4 => 11 / 10
  | 5 => 1
  | _ => 9 / 10

theorem headingScale_eq (level : Nat) : headingScale level = scaleOfLevel level := by
  match level with
  | 0 | 1 | 2 | 3 | 4 | 5 => decide +kernel
  | n + 6 =>
    have hlevel : max 1 (min (n + 6) 6) = 6 := by omega
    rw [scaleOfLevel, hlevel]
    show (⟨9, 10, _, _⟩ : Rat) = 9 / 10
    decide +kernel

def Modifier.apply : Modifier → TextStyle → TextStyle
  | heading level, style => { style with bold := true, scale := scaleOfLevel level }
  | strong, style => { style with bold := true }
  | emphasis, style => { style with italic := true }
  | strikethrough, style => { style with strikethrough := true }
  | superscript, style => { style with baseline := .superscript }
  | subscript, style => { style with baseline := .subscript }
  | link target, style => { style with underline := true, link := some target }
  | headerRow, style => { style with bold := true }
  | code, style => { style with monospace := true }
  | title, style => { style with bold := true }

/-- The style of a text in some nodes, innermost first: from the default style, each node changes
what those around it have made. -/
def styleIn (path : List Modifier) : TextStyle := path.foldr Modifier.apply {}

/-! ## Parts -/

/-- A part of what a document shows as text, with the nodes around it, innermost first. -/
inductive Part where
  | text (path : List Modifier) (s : String)
  /-- The number of a footnote, in brackets. -/
  | reference (path : List Modifier) (label : String)
  /-- A footnote, which has its number from here on at the latest. -/
  | definition (label : String)

def Leaf.parts (path : List Modifier) : Leaf → List Part
  | .text s => [.text path s]
  | .code s => [.text (.code :: path) s]
  | .softBreak => [.text path " "]
  | .image _ _ alt => [.text path alt]
  | .codeBlock _ literal => [.text (.code :: path) literal]
  | .rule => [.text path "---"]
  | .footnoteReference _ n => [.text path s!"[{n}]"]
  | .lineBreak | .inlineHtml _ | .htmlBlock _ | .metadata _ => []

def Mark.modifier : Mark → Modifier
  | emphasis => .emphasis
  | strong => .strong
  | strikethrough => .strikethrough
  | superscript => .superscript
  | subscript => .subscript
  | link destination _ => .link destination

namespace Node

def modifier? : Node → Option Modifier
  | marked mark => some mark.modifier
  | heading level _ => some (.heading level)
  | row true => some .headerRow
  | _ => none

/-- What is shown of a node itself, before what it holds. -/
def parts (path : List Modifier) : Node → List Part
  | quote (some alert) => [.text (.title :: path) alert.title]
  | cell _ column _ => if column = 0 then [] else [.text path "\t"]
  | footnote label => [.definition label]
  | _ => []

/-- Whether nothing is shown of what the node holds. -/
def isComment : Node → Bool
  | inlineDirective name _ => isCommentName name
  | directive head => isCommentName head.name
  | _ => false

end Node

mutual

/-- The parts of an outline in some nodes. -/
def Outline.parts (path : List Modifier) : Outline → List Part
  | .leaf l => l.parts path
  | .reference label => [.reference path label]
  | .node n inside =>
    if n.isComment then []
    else n.parts path ++ outlinesParts (n.modifier?.toList ++ path) inside

/-- The parts of outlines that stand in the same nodes. -/
def outlinesParts (path : List Modifier) : List Outline → List Part
  | [] => []
  | o :: os => o.parts path ++ outlinesParts path os

end

/-- The labels of footnotes that were seen after some parts. -/
def labelsAfter (seen : List String) : List Part → List String
  | [] => seen
  | .text _ _ :: rest => labelsAfter seen rest
  | .reference _ label :: rest | .definition label :: rest => labelsAfter (seeLabel seen label) rest

/-- The letters of some parts, after the labels seen before. -/
def partsLetters (seen : List String) : List Part → List (Char × TextStyle)
  | [] => []
  | .text path s :: rest => s.toList.map (·, styleIn path) ++ partsLetters seen rest
  | .reference path label :: rest =>
    (s!"[{labelNumber (seeLabel seen label) label}]").toList.map (·, styleIn path) ++
      partsLetters (seeLabel seen label) rest
  | .definition label :: rest => partsLetters (seeLabel seen label) rest

theorem labelsAfter_append (xs ys : List Part) (seen : List String) :
    labelsAfter seen (xs ++ ys) = labelsAfter (labelsAfter seen xs) ys := by
  induction xs generalizing seen with
  | nil => rfl
  | cons x xs ih => cases x <;> exact ih _

theorem partsLetters_append (xs ys : List Part) (seen : List String) :
    partsLetters seen (xs ++ ys) =
      partsLetters seen xs ++ partsLetters (labelsAfter seen xs) ys := by
  induction xs generalizing seen with
  | nil => rfl
  | cons x xs ih => cases x <;> simp [partsLetters, labelsAfter, ih]

namespace Layout

open State

/-! ## Hooks -/

/-- What a list item starts with: a dash or its number, and the box of a task. -/
def itemText : Marker → Option Bool → String
  | .bullet, none => "- "
  | .bullet, some true => "- [x] "
  | .bullet, some false => "- [ ] "
  | .number n, none => s!"{n}. "
  | .number n, some true => s!"{n}. [x] "
  | .number n, some false => s!"{n}. [ ] "

theorem itemText_eq (marker : Marker) (task : Option Bool) :
    markerText marker ++ taskText task = itemText marker task := by
  cases marker with
  | bullet => rcases task with _ | _ | _ <;> rfl
  | number n =>
    have htext : markerText (.number n) ++ taskText task = toString n ++ (". " ++ taskText task) :=
      String.append_assoc
    rw [htext]
    rcases task with _ | _ | _ <;> rfl

/-- The first line of a list item, a quote or a footnote, or the indentation of its other lines. -/
inductive ContainerText : String → Prop
  | item (marker : Marker) (task : Option Bool) : ContainerText (itemText marker task)
  | quote : ContainerText "> "
  | number (n : Nat) : ContainerText s!"[{n}] "
  | indent (n : Nat) : ContainerText (String.ofList (List.replicate n ' '))

/-- The styles in force inside a node. -/
def pushed (m : Option Modifier) (styles : List TextStyle) : List TextStyle :=
  match m with
  | none => styles
  | some m => m.apply (styles.headD {}) :: styles

/-- The styles in force after a node. -/
def popped (m : Option Modifier) (styles : List TextStyle) : List TextStyle :=
  match m with
  | none => styles
  | some _ => styles.tail

theorem popped_pushed (m : Option Modifier) (styles : List TextStyle) :
    popped m (pushed m styles) = styles := by
  cases m <;> rfl

theorem headD_pushed {m : Option Modifier} {styles : List TextStyle} {path : List Modifier}
    (h : styles.headD {} = styleIn path) :
    (pushed m styles).headD {} = styleIn (m.toList ++ path) := by
  cases m with
  | none => exact h
  | some m => exact congrArg m.apply h

variable {s t : State (List (Char × TextStyle))} {path : List Modifier}

theorem lays_write (h : s.Furnished ContainerText) (hs : s.style = styleIn path) (text : String)
    (seen : List String) :
    Lays ContainerText s (s.write lettersSink text) s.styles
      (partsLetters seen [.text path text]) := by
  rw [partsLetters, partsLetters, List.append_nil, ← hs]
  exact lays_writeStyled h text s.style

/-- Text in a node of its own. -/
theorem lays_writePushed (h : s.Furnished ContainerText) (hs : s.style = styleIn path)
    (m : Modifier) (text : String) (seen : List String) :
    Lays ContainerText s ((s.pushStyle m.apply).write lettersSink text).popStyle s.styles
      (partsLetters seen [.text (m :: path) text]) := by
  have hstyle : (s.pushStyle m.apply).style = styleIn (m :: path) := congrArg m.apply hs
  have hpushed := (lays_nothing (s := s) h rfl).pushStyle m.apply
  exact (hpushed.seq (lays_write hpushed.furnished hstyle text seen)).popStyle

theorem lays_leaf (h : s.Furnished ContainerText) (hs : s.style = styleIn path) (c : Context)
    (l : Leaf) (seen : List String) :
    Lays ContainerText s (leaf lettersSink none c l s) s.styles
      (partsLetters seen (l.parts path)) := by
  cases l with
  | text t => exact lays_write h hs t seen
  | code t => exact lays_writePushed h hs .code t seen
  | softBreak => exact lays_write h hs " " seen
  | image source title alt => exact lays_write h hs alt seen
  | footnoteReference label n => exact lays_write h hs s!"[{n}]" seen
  | codeBlock language literal =>
    have hcode := lays_codeBlock h {} c.mode language literal
    have hletters : partsLetters seen (Leaf.parts path (.codeBlock language literal)) =
        (codeSegments none language literal).flatMap fun x => x.text.toList.map
          (·, segmentStyle {} c.mode { s.style with monospace := true } x) := by
      simp [codeSegments, segmentStyle, Leaf.parts, partsLetters, hs, styleIn, Modifier.apply]
    rw [hletters]
    exact hcode
  | rule =>
    have hstart := lays_blockStart h
    exact hstart.seq (lays_write hstart.furnished
      ((congrArg (·.headD {}) hstart.styles).trans hs) "---" seen)
  | lineBreak => exact lays_nothing (t := s.newline) h rfl
  | inlineHtml | htmlBlock | metadata => exact lays_nothing h rfl

/-- The number of a reference is that of its label. -/
theorem lays_reference (h : s.Furnished ContainerText) (hs : s.style = styleIn path) (c : Context)
    (label : String) :
    Lays ContainerText s
      (leaf lettersSink none (c.footnoteNumber label).2
        (.footnoteReference label (c.footnoteNumber label).1) s) s.styles
      (partsLetters c.footnotes [.reference path label]) := by
  rw [c.footnoteNumber_eq label]
  exact lays_write h hs _ c.footnotes

namespace State

variable {P : String → Prop} {styles : List TextStyle} {ls : List (Char × TextStyle)}

theorem Lays.pushMargin (h : Lays P s t styles ls) {m : Margin} (hfirst : P m.first)
    (hrest : P m.rest) : Lays P s (t.pushMargin m) styles ls :=
  ⟨List.forall_mem_cons.mpr ⟨⟨hfirst, hrest⟩, h.furnished⟩, h.styles, h.out⟩

theorem Lays.popMargin (h : Lays P s t styles ls) : Lays P s t.popMargin styles ls :=
  ⟨fun m hm => h.furnished m (List.mem_of_mem_tail hm), h.styles, h.out⟩

theorem lays_writeUnused (h : s.Furnished P) :
    Lays P s (s.writeUnused lettersSink) s.styles [] := by
  unfold writeUnused
  split
  · split
    · exact lays_nothing h rfl
    · have hflush := lays_flush h
      obtain ⟨texts, htexts, hmargin⟩ := hflush.furnished.nextMargin
      have hlays := lays_layout hflush.furnished (.trimmed htexts)
      rw [← hmargin] at hlays
      have hall := hflush.seq hlays
      exact ⟨hall.furnished.useMargins, hall.styles, hall.out⟩
  · exact lays_nothing h rfl

end State

theorem lays_openItem (h : s.Furnished ContainerText) (marker : Marker) (task : Option Bool) :
    Lays ContainerText s (s.openItem marker task) s.styles [] := by
  have hstart : Lays ContainerText s (if s.fresh then s else s.request
      (if s.tightness.head? = some false then .blank else .line)) s.styles [] := by
    split
    · exact lays_nothing h rfl
    · exact lays_request h _
  have hfirst : ContainerText (Margin.hanging (markerText marker) (taskText task)).first := by
    rw [Margin.hanging, itemText_eq]
    exact .item marker task
  have hmargin := hstart.pushMargin hfirst (.indent _)
  exact ⟨hmargin.furnished, hmargin.styles, hmargin.out⟩

theorem lays_openQuote (h : s.Furnished ContainerText) (hs : s.style = styleIn path)
    (alert : Option Alert) (seen : List String) :
    Lays ContainerText s (s.openQuote lettersSink alert) s.styles
      (partsLetters seen (Node.parts path (.quote alert))) := by
  have hopen := (lays_blockStart h).pushMargin (m := ⟨"> ", "> ", false⟩) .quote .quote
  cases alert with
  | none => exact ⟨hopen.furnished, hopen.styles, hopen.out⟩
  | some alert =>
    have hopened : Lays ContainerText s { s.blockStart.pushMargin ⟨"> ", "> ", false⟩ with
        tightness := false :: s.blockStart.tightness } s.styles [] :=
      ⟨hopen.furnished, hopen.styles, hopen.out⟩
    have htitle := lays_writePushed hopened.furnished
      ((congrArg (·.headD {}) hopened.styles).trans hs) .title alert.title seen
    have hall := (hopened.seq htitle).seq (lays_request htitle.furnished .line)
    rw [List.append_nil] at hall
    exact ⟨hall.furnished, hall.styles, hall.out⟩

/-- **The start of a frame** writes what is shown of the node itself, and no more than that is in
another style. -/
theorem lays_start (h : s.Furnished ContainerText) (hs : s.style = styleIn path) (n : Node)
    (c : Context) (seen : List String) :
    Lays ContainerText s (start lettersSink (n.frame c) s) (pushed n.modifier? s.styles)
      (partsLetters seen (n.parts path)) := by
  cases n with
  | marked mark =>
    cases mark <;> exact lays_nothing (t := s.pushStyle _) h rfl
  | paragraph => exact lays_blockStart h
  | heading level text =>
    have hstyle : headingStyle level = (Modifier.heading level).apply := by
      funext style
      rw [headingStyle, headingScale_eq]
      rfl
    rw [Node.frame, start, hstyle]
    exact (lays_blockStart h).pushStyle (Modifier.heading level).apply
  | list number tight =>
    have hstart := lays_blockStart h
    exact ⟨hstart.furnished, hstart.styles, hstart.out⟩
  | item marker task tight => exact lays_openItem h marker task
  | quote alert => exact lays_openQuote h hs alert seen
  | table t => exact lays_blockStart h
  | row header =>
    have hrow := lays_request h .line
    cases header
    · exact hrow
    · exact hrow.pushStyle Modifier.headerRow.apply
  | cell header column alignment =>
    simp only [Node.frame, Node.parts, start]
    split
    · exact lays_nothing h rfl
    · exact lays_write h hs "\t" seen
  | footnote label =>
    have hfirst : ContainerText
        (Margin.hanging s!"[{(c.footnoteNumber label).1}] " "").first := by
      rw [Margin.hanging, String.append_empty]
      exact .number _
    have hopen := (lays_blockStart h).pushMargin hfirst (.indent _)
    exact ⟨hopen.furnished, hopen.styles, hopen.out⟩
  | inlineDirective | directive | command => exact lays_nothing h rfl

/-- **The finish of a frame** restores the styles and leaves nothing but layout. -/
theorem lays_finish (h : s.Furnished ContainerText) (n : Node) (c : Context) :
    Lays ContainerText s (finish lettersSink (n.frame c) s) (popped n.modifier? s.styles) [] := by
  cases n with
  | row header => cases header <;> exact lays_nothing h rfl
  | item marker task tight =>
    have hclose := (lays_writeUnused h).popMargin
    exact ⟨hclose.furnished, hclose.styles, hclose.out⟩
  | quote alert =>
    have hclose := (lays_nothing (s := s) h rfl).popMargin
    exact ⟨hclose.furnished, hclose.styles, hclose.out⟩
  | footnote label =>
    have hclose := (lays_nothing (s := s) h rfl).popMargin
    exact ⟨hclose.furnished, hclose.styles, hclose.out⟩
  | _ => exact lays_nothing h rfl

/-! ## Visits -/

/-- What a visit does to a walk under way. -/
abbrev LetterVisit : Type :=
  Walk.State (State (List (Char × TextStyle))) → Walk.State (State (List (Char × TextStyle)))

/-- The visit lays the parts out and restores the styles. -/
def Shows (path : List Modifier) (parts : List Part) (v : LetterVisit) : Prop :=
  ∀ s, s.out.Furnished ContainerText → s.out.style = styleIn path →
    (v s).context.footnotes = labelsAfter s.context.footnotes parts ∧
      Lays ContainerText s.out (v s).out s.out.styles (partsLetters s.context.footnotes parts)

namespace Shows

variable {path : List Modifier} {parts rest : List Part} {v w : LetterVisit}

theorem seq (hv : Shows path parts v) (hw : Shows path rest w) :
    Shows path (parts ++ rest) (w ∘ v) := by
  intro s h hs
  obtain ⟨hlabels, hlays⟩ := hv s h hs
  obtain ⟨hlabels', hlays'⟩ :=
    hw (v s) hlays.furnished ((congrArg (·.headD {}) hlays.styles).trans hs)
  refine ⟨?_, ?_⟩
  · rw [labelsAfter_append, ← hlabels]
    exact hlabels'
  · rw [partsLetters_append, ← hlabels]
    exact hlays.seq hlays'

theorem insideOf (hv : Shows path parts v) (container : Option Container) :
    Shows path parts (Walk.insideOf container v) := by
  cases container with
  | none => exact hv
  | some c => exact fun s h hs => hv { s with context := s.context.push c } h hs

end Shows

/-- The labels that a node notes are those of its parts. -/
theorem footnotes_noted (n : Node) (path : List Modifier) (c : Context) :
    (n.noted c).footnotes = labelsAfter c.footnotes (n.parts path) := by
  cases n with
  | heading level text => exact c.footnotes_registerHeading level text
  | quote alert => cases alert <;> rfl
  | cell header column alignment =>
    simp only [Node.parts]
    split <;> rfl
  | footnote label => exact congrArg (·.2.footnotes) (c.footnoteNumber_eq label)
  | _ => rfl

theorem labelsAfter_leaf (l : Leaf) (path : List Modifier) (seen : List String) :
    labelsAfter seen (l.parts path) = seen := by
  cases l <;> rfl

theorem defaultFlow_frame (n : Node) (c : Context) :
    (n.frame c).defaultFlow = if n.isComment then .skip else .enter := by
  cases n <;> rfl

/-- A comment is passed over. -/
theorem node_comment {τ : Type} {k : Sink τ} {colors : Option CodeColors} {n : Node}
    (hn : n.isComment = true) (v : Walk.State (State τ) → Walk.State (State τ))
    (s : Walk.State (State τ)) : Walk.node (backend k colors) n v s = s := by
  have hnoted : n.noted s.context = s.context := by
    cases n with
    | inlineDirective | directive => rfl
    | _ => cases hn
  simp only [Walk.node, Walk.framed, backend, defaultFlow_frame, hn, if_true, hnoted]

/-- All other nodes are entered. -/
theorem node_entered {τ : Type} {k : Sink τ} {colors : Option CodeColors} {n : Node}
    (hn : n.isComment = false) (v : Walk.State (State τ) → Walk.State (State τ))
    (s : Walk.State (State τ)) :
    Walk.node (backend k colors) n v s =
      let inner := Walk.insideOf n.container? v
        ⟨n.noted s.context, start k (n.frame s.context) s.out⟩
      { inner with out := finish k (n.frame s.context) inner.out } := by
  simp only [Walk.node, Walk.framed, backend, defaultFlow_frame, hn, Bool.false_eq_true, if_false]

/-- The style in force inside a node is that of its modifiers, and the node restores it. -/
theorem shows_node (n : Node) {parts : List Part} {v : LetterVisit}
    (hv : Shows (n.modifier?.toList ++ path) parts v) :
    Shows path (if n.isComment then [] else n.parts path ++ parts)
      (Walk.node (backend lettersSink none) n v) := by
  intro s h hs
  cases hn : n.isComment with
  | true =>
    rw [node_comment hn, if_pos rfl]
    exact ⟨rfl, lays_nothing h rfl⟩
  | false =>
    have hstart := lays_start h hs n s.context s.context.footnotes
    obtain ⟨hlabels, hinside⟩ := hv.insideOf n.container?
      ⟨n.noted s.context, start lettersSink (n.frame s.context) s.out⟩ hstart.furnished
      ((congrArg (·.headD {}) hstart.styles).trans (headD_pushed hs))
    have hfinish := lays_finish hinside.furnished n s.context
    rw [hinside.styles, hstart.styles, popped_pushed] at hfinish
    rw [footnotes_noted n path, hstart.styles] at hinside
    rw [node_entered hn, if_neg Bool.false_ne_true]
    refine ⟨?_, ?_⟩
    · rw [labelsAfter_append, ← footnotes_noted n path]
      exact hlabels
    · have hall := hstart.trans (hinside.trans hfinish)
      rw [partsLetters_append]
      simpa using hall

mutual

theorem shows_outline : ∀ (o : Outline) (path : List Modifier),
    Shows path (o.parts path) (Walk.outline (backend lettersSink none) o)
  | .leaf l, path => fun s h hs =>
    ⟨(labelsAfter_leaf l path _).symm, lays_leaf h hs s.context l s.context.footnotes⟩
  | .reference label, _ => fun s h hs =>
    ⟨congrArg (·.2.footnotes) (s.context.footnoteNumber_eq label),
      lays_reference h hs s.context label⟩
  | .node n inside, path => shows_node n (shows_outlines inside (n.modifier?.toList ++ path))

/-- **Every visit lays its parts out in the styles of their ancestors.** -/
theorem shows_outlines : ∀ (os : List Outline) (path : List Modifier),
    Shows path (outlinesParts path os) (Walk.outlines (backend lettersSink none) os)
  | [], _ => fun _ h _ => ⟨rfl, lays_nothing h rfl⟩
  | o :: os, path => (shows_outline o path).seq (shows_outlines os path)

end

end Layout

/-- **Styles come from ancestors.** Without a highlighter, the letters of a document are those of
its parts in order, each in the style that the nodes around it make of the default style, whatever
stands beside them. All that is between them are line ends and the markers, marks and indentations
of containers, in the default style. -/
theorem Styled.laid_renderIn (theme : Theme) (mode : ColorMode) (d : Document) (c : Context) :
    Layout.Laid Layout.ContainerText
      (partsLetters c.footnotes (outlinesParts [] (blocksOutline d)))
      (Styled.renderIn { theme := theme, mode := mode } d c).1.letters := by
  obtain ⟨-, hlays⟩ := Layout.shows_outlines (blocksOutline d) [] ⟨c, { out := [] }⟩ nofun rfl
  obtain ⟨out, hout, hlaid⟩ := hlays.out
  rw [← Walk.blocks_eq] at hout
  have hsink := Layout.simulation_map Layout.commutes_letters
    (fun c l s => rfl (a := Layout.leaf Layout.lettersSink none c l s))
  obtain ⟨hmap, -⟩ := hsink.document (blocksEveryLeaf_of_forall (fun _ => trivial) d) c
    (s := { out := {} }) rfl
  have hletters : (Styled.renderIn { theme := theme, mode := mode } d c).1.letters = out :=
    (congrArg Layout.State.out hmap).trans hout
  rw [hletters]
  exact hlaid

/-- Headings with emphasis in the first, whose level is two, and a level that counts as six, before
a task. -/
def emphasised : Document :=
  [.heading 2 [.marked .emphasis [.text "a"], .code "b"], .heading 9 [.text "c"],
    .list none true [⟨some true, [.paragraph [.marked .strong [.text "d"]]]⟩]]

theorem Styled.laid_renderIn_emphasised :
    Layout.Laid Layout.ContainerText
      [('a', { bold := true, italic := true, scale := 3 / 2 }),
        ('b', { bold := true, monospace := true, scale := 3 / 2 }),
        ('c', { bold := true, scale := 9 / 10 }), ('d', { bold := true })]
      (Styled.renderIn {} emphasised {}).1.letters ∧
    (Styled.renderIn {} emphasised {}).1.letters =
      [('a', { bold := true, italic := true, scale := 3 / 2 }),
        ('b', { bold := true, monospace := true, scale := 3 / 2 })] ++
      "\n\n".toList.map (·, ({} : TextStyle)) ++ [('c', { bold := true, scale := 9 / 10 })] ++
      "\n\n- [x] ".toList.map (·, ({} : TextStyle)) ++ [('d', { bold := true })] := by
  have hlaid := laid_renderIn {} .light emphasised {}
  have hletters : partsLetters [] (outlinesParts [] (blocksOutline emphasised)) =
      [('a', { bold := true, italic := true, scale := 3 / 2 }),
        ('b', { bold := true, monospace := true, scale := 3 / 2 }),
        ('c', { bold := true, scale := 9 / 10 }), ('d', { bold := true })] := by
    decide +kernel
  exact ⟨hletters ▸ hlaid, by decide +kernel⟩

end RichMarkdown
