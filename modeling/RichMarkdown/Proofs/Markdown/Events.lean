import Mathlib.Data.List.TakeWhile
import RichMarkdown.Proofs.Markdown.Merged

/-!
# The events of a document

`Document.events d` writes a document as the events that a reader of the grammar reports for it:
every node as an element around the events of what it holds. Only the paragraphs directly in the
items of a tight list have no element; their inlines stand bare in the item.

Reading these events changes nothing but the innermost open element: it collects the node, and the
elements around it stay as they are (`Acts`). So each node is a step on one element (`acts_inline`,
`acts_block`), and the element of a node collects just what the node holds. A bare paragraph is
complete only when a block or the end of the item follows, which is why two of them must not stand
one after the other (`wrapInlines_takes_bare`).

* `Document.ofEvents_events`: documents from events have merged texts, and the events of a document
  in normal form give back the document.
-/

set_option autoImplicit false

namespace RichMarkdown

/-! ## Writing events -/

/-- An element around events. -/
def enclosed (element : Element) (inner : List Event) : List Event :=
  .start element :: inner ++ [.finish]

mutual

/-- The events of an inline. No event stands for a directive. -/
def Inline.events : Inline → List Event
  | .text s => [.text s]
  | .code s => [.code s]
  | .softBreak => [.softBreak]
  | .lineBreak => [.lineBreak]
  | .html s => [.inlineHtml s]
  | .footnote label => [.footnoteReference label]
  | .marked mark children => enclosed (.marked mark) (inlinesEvents children)
  | .image source title alt => enclosed (.image source title) (inlinesEvents alt)
  | .directive _ _ _ => []

/-- The events of inlines in order. -/
def inlinesEvents : List Inline → List Event
  | [] => []
  | i :: is => i.events ++ inlinesEvents is

end

def cellsEvents (cells : List (List Inline)) : List Event :=
  cells.flatMap fun cell => enclosed .cell (inlinesEvents cell)

def rowEvents (header : Bool) (cells : List (List Inline)) : List Event :=
  enclosed (.row header) (cellsEvents cells)

def tableEvents (t : Table) : List Event :=
  enclosed (.table t.alignments) (rowEvents true t.header ++ t.rows.flatMap (rowEvents false))

/-- The mark of a task comes first in its item. -/
def taskEvents (task : Option Bool) : List Event := (task.map Event.task).toList

mutual

/-- The events of a block. A paragraph may be sent bare, without an element of its own. No event
stands for a directive or a command. -/
def Block.events (bare : Bool) : Block → List Event
  | .paragraph content =>
    if bare then inlinesEvents content else enclosed .paragraph (inlinesEvents content)
  | .heading level content => enclosed (.heading level) (inlinesEvents content)
  | .code language literal => enclosed (.code language) [.text (literal ++ "\n")]
  | .list start tight items => enclosed (.list start) (itemsEvents tight items)
  | .quote alert children => enclosed (.quote alert) (blocksEvents false children)
  | .rule => [.rule]
  | .html s => enclosed .html [.html s]
  | .table t => tableEvents t
  | .footnote label children => enclosed (.footnote label) (blocksEvents false children)
  | .metadata s => enclosed .metadata [.text s]
  | .directive _ _ => []
  | .command _ => []

/-- The events of blocks in order. -/
def blocksEvents (bare : Bool) : List Block → List Event
  | [] => []
  | b :: bs => b.events bare ++ blocksEvents bare bs

/-- The events of list items. In a tight list paragraphs are bare. -/
def itemsEvents (tight : Bool) : List Item → List Event
  | [] => []
  | ⟨task, children⟩ :: rest =>
    enclosed .item (taskEvents task ++ blocksEvents tight children) ++ itemsEvents tight rest

end

/-- The events of a document. -/
def Document.events (d : Document) : List Event := blocksEvents false d

/-! ## Normal form -/

def Block.isParagraph : Block → Bool
  | .paragraph _ => true
  | _ => false

/-- Whether an item directly holds a paragraph. -/
def Item.hasParagraph (i : Item) : Bool := i.children.any Block.isParagraph

/-- A language that the first word of an info string can name. -/
def IsLanguage (s : String) : Prop := s ≠ "" ∧ ∀ c ∈ s.toList, Text.isBlank c = false

/-- Blocks whose paragraphs can be sent bare: none is empty, and no two follow each other. -/
def CanBeBare (bs : List Block) : Prop :=
  .paragraph [] ∉ bs ∧ bs.IsChain fun b c => b.isParagraph = false ∨ c.isParagraph = false

mutual

/-- There is no directive in an inline. -/
def Inline.Plain : Inline → Prop
  | .marked _ children => inlinesPlain children
  | .image _ _ alt => inlinesPlain alt
  | .directive _ _ _ => False
  | .text _ | .code _ | .softBreak | .lineBreak | .html _ | .footnote _ => True

/-- There is no directive in inlines. -/
def inlinesPlain : List Inline → Prop
  | [] => True
  | i :: is => i.Plain ∧ inlinesPlain is

end

mutual

/-- A block that events can give: no directives and no commands, levels from one to six, languages
that an info string can name, and lists of which the paragraphs tell whether they are tight. -/
def Block.Regular : Block → Prop
  | .paragraph content => inlinesPlain content
  | .heading level content => (1 ≤ level ∧ level ≤ 6) ∧ inlinesPlain content
  | .code language _ => ∀ l, language = some l → IsLanguage l
  | .list _ tight items =>
    (if tight then ∀ i ∈ items, CanBeBare i.children else ∃ i ∈ items, i.hasParagraph = true) ∧
      itemsRegular items
  | .quote _ children => blocksRegular children
  | .table t =>
    (∀ cell ∈ t.header, inlinesPlain cell) ∧ ∀ row ∈ t.rows, ∀ cell ∈ row, inlinesPlain cell
  | .footnote _ children => blocksRegular children
  | .directive _ _ => False
  | .command _ => False
  | .rule | .html _ | .metadata _ => True

def blocksRegular : List Block → Prop
  | [] => True
  | b :: bs => b.Regular ∧ blocksRegular bs

def itemsRegular : List Item → Prop
  | [] => True
  | ⟨_, children⟩ :: rest => blocksRegular children ∧ itemsRegular rest

end

/-- The documents that are what their own events describe. -/
structure Document.Normal (d : Document) : Prop where
  merged : blocksMerged d
  regular : blocksRegular d

/-! ## Events on one element -/

open Assembly OpenElement

/-- The events take the innermost open element from `e` to `x`, whatever is open around it. -/
def Acts (events : List Event) (e x : OpenElement) : Prop :=
  ∀ below, events.foldl Assembly.add ⟨e, below⟩ = ⟨x, below⟩

theorem Acts.nil (e : OpenElement) : Acts [] e e := fun _ => rfl

theorem Acts.append {es fs : List Event} {e x y : OpenElement} (h : Acts es e x)
    (h' : Acts fs x y) : Acts (es ++ fs) e y := by
  intro below
  rw [List.foldl_append, h, h']

/-- An element that starts loosens the item around it if it is a paragraph. -/
def noted (element : Element) (e : OpenElement) : OpenElement :=
  if element = .paragraph then noteParagraph e else e

/-- An element around events hands what they have made of it to the element around it. -/
theorem Acts.enclosed {inner : List Event} {element : Element} {x : OpenElement}
    (h : Acts inner { element } x) (e : OpenElement) :
    Acts (enclosed element inner) e ((noted element e).handTo x) := by
  intro below
  have hs : Assembly.add ⟨e, below⟩ (.start element) =
      ⟨{ element }, noted element e :: below⟩ := rfl
  rw [RichMarkdown.enclosed, List.cons_append, List.foldl_cons, hs, List.foldl_append, h]
  rfl

/-! ## Inlines -/

variable {e : OpenElement}

theorem element_addInline (e : OpenElement) (i : Inline) : (e.addInline i).element = e.element := by
  unfold addInline
  split <;> rfl

theorem isLiteral_of_element {e x : OpenElement} (h : x.element = e.element) :
    x.isLiteral = e.isLiteral := by
  unfold isLiteral
  rw [h]

/-- Merged inlines are collected as they are. -/
theorem foldl_addInline {is : List Inline} (hm : inlinesMerged is)
    (h : ∀ i ∈ is.head?, ∀ j ∈ e.inlines.head?, i.Apart j) :
    is.foldl addInline e = { e with inlines := is.reverse ++ e.inlines } := by
  induction is generalizing e with
  | nil => rfl
  | cons i is ih =>
    obtain ⟨-, hi, his⟩ := hm
    rw [List.foldl_cons, addInline_of_apart (h i rfl), ih his, List.reverse_cons, List.append_assoc]
    · rfl
    · rintro j hj _ ⟨⟩
      exact (hi j hj).symm

theorem foldl_addInline_nil {is : List Inline} (hm : inlinesMerged is) (he : e.inlines = []) :
    is.foldl addInline e = { e with inlines := is.reverse } := by
  rw [foldl_addInline hm (by simp [he]), he, List.append_nil]

/-- What a new element makes of merged inlines. -/
theorem foldl_addInline_new {is : List Inline} (hm : inlinesMerged is) (element : Element) :
    is.foldl addInline { element } = { element, inlines := is.reverse } :=
  foldl_addInline_nil hm rfl

mutual

/-- The events of an inline add it to an element that collects inlines. -/
theorem acts_inline : ∀ i : Inline, i.Merged → i.Plain → ∀ e : OpenElement, e.isLiteral = false →
    Acts i.events e (e.addInline i)
  | .text s, _, _, e, he => by
    intro below
    simp [Inline.events, Assembly.add, onTop, he]
  | .code _, _, _, _, _ | .softBreak, _, _, _, _ | .lineBreak, _, _, _, _ | .html _, _, _, _, _
  | .footnote _, _, _, _, _ => fun _ => rfl
  | .marked mark children, hm, hp, e, _ => by
    have h := (acts_inlines children hm hp { element := .marked mark } rfl).enclosed e
    rw [foldl_addInline_new hm] at h
    simpa [handTo, noted, wrapsInlines, Inline.events] using h
  | .image source title alt, hm, hp, e, _ => by
    have h := (acts_inlines alt hm hp { element := .image source title } rfl).enclosed e
    rw [foldl_addInline_new hm] at h
    simpa [handTo, noted, wrapsInlines, Inline.events] using h

theorem acts_inlines : ∀ is : List Inline, inlinesMerged is → inlinesPlain is →
    ∀ e : OpenElement, e.isLiteral = false → Acts (inlinesEvents is) e (is.foldl addInline e)
  | [], _, _, e, _ => .nil e
  | i :: is, hm, hp, e, he =>
    (acts_inline i hm.1 hp.1 e he).append
      (acts_inlines is hm.2.2 hp.2 _ (isLiteral_of_element (element_addInline e i) ▸ he))

end

/-- What the element of a node collects from its inlines. -/
theorem acts_new {is : List Inline} (hm : inlinesMerged is) (hp : inlinesPlain is)
    (element : Element) (he : isLiteral { element } = false) :
    Acts (inlinesEvents is) { element } { element, inlines := is.reverse } :=
  foldl_addInline_new hm element ▸ acts_inlines is hm hp _ he

/-! ## Tables -/

theorem acts_cells : ∀ cells : List (List Inline), rowMerged cells →
    (∀ cell ∈ cells, inlinesPlain cell) → ∀ e : OpenElement,
    Acts (cellsEvents cells) e { e with cells := cells.reverse ++ e.cells }
  | [], _, _, e => .nil e
  | cell :: cells, hm, hp, e => by
    obtain ⟨hm, hms⟩ := List.forall_mem_cons.mp hm
    obtain ⟨hp, hps⟩ := List.forall_mem_cons.mp hp
    have hcell := (acts_new hm hp .cell rfl).enclosed e
    have hrest := acts_cells cells hms hps { e with cells := cell :: e.cells }
    rw [cellsEvents, List.flatMap_cons, List.reverse_cons, List.append_assoc]
    refine .append ?_ hrest
    simpa [handTo, noted, wrapsInlines] using hcell

theorem acts_row (header : Bool) {cells : List (List Inline)} (hm : rowMerged cells)
    (hp : ∀ cell ∈ cells, inlinesPlain cell) (e : OpenElement) :
    Acts (rowEvents header cells) e
      (if header then { e with header := cells } else { e with rows := cells :: e.rows }) := by
  have h := (acts_cells cells hm hp { element := .row header }).enclosed e
  cases header <;> simpa [handTo, noted, wrapsInlines, rowEvents] using h

theorem acts_rows : ∀ rows : List (List (List Inline)), (∀ row ∈ rows, rowMerged row) →
    (∀ row ∈ rows, ∀ cell ∈ row, inlinesPlain cell) → ∀ e : OpenElement,
    Acts (rows.flatMap (rowEvents false)) e { e with rows := rows.reverse ++ e.rows }
  | [], _, _, e => .nil e
  | row :: rows, hm, hp, e => by
    obtain ⟨hm, hms⟩ := List.forall_mem_cons.mp hm
    obtain ⟨hp, hps⟩ := List.forall_mem_cons.mp hp
    have hrest := acts_rows rows hms hps { e with rows := row :: e.rows }
    rw [List.flatMap_cons, List.reverse_cons, List.append_assoc]
    exact (acts_row false hm hp e).append hrest

theorem acts_table {t : Table} (hm : (Block.table t).Merged) (hp : (Block.table t).Regular)
    (e : OpenElement) : Acts (tableEvents t) e (e.addBlock (.table t)) := by
  obtain ⟨alignments, header, rows⟩ := t
  have hheader := acts_row true hm.1 hp.1 { element := .table alignments }
  have hrows := acts_rows rows hm.2 hp.2 { element := .table alignments, header }
  have h := (hheader.append hrows).enclosed e
  simpa [handTo, noted, wrapsInlines, tableEvents] using h

/-! ## Blocks -/

/-- An element after one more block in it, which may be a bare paragraph. -/
def OpenElement.takes (bare : Bool) (e : OpenElement) : Block → OpenElement
  | .paragraph content =>
    if bare then content.foldl addInline e else (noteParagraph e).addBlock (.paragraph content)
  | b => e.addBlock b

def OpenElement.isItem (e : OpenElement) : Bool := decide (e.element = .item)

theorem noteParagraph_eq (e : OpenElement) :
    noteParagraph e = { e with loose := e.loose || e.isItem } := by
  obtain ⟨element, blocks, inlines, literal, items, header, rows, cells, task, loose⟩ := e
  unfold noteParagraph isItem
  cases element <;> simp

theorem takes_of_not_isParagraph (bare : Bool) (e : OpenElement) {b : Block}
    (h : b.isParagraph = false) : e.takes bare b = e.addBlock b := by
  cases b with
  | paragraph content => cases h
  | _ => rfl

theorem element_wrapInlines (e : OpenElement) : e.wrapInlines.element = e.element := by
  unfold wrapInlines
  split <;> rfl

theorem wrapInlines_of_nil (h : e.inlines = []) : e.wrapInlines = e := by
  unfold wrapInlines
  rw [h]
  rfl

theorem addBlock_of_nil (h : e.inlines = []) (b : Block) :
    e.addBlock b = { e with blocks := b :: e.blocks } := by
  unfold addBlock
  rw [wrapInlines_of_nil h]

theorem inlines_addBlock (e : OpenElement) (b : Block) : (e.addBlock b).inlines = [] := by
  unfold addBlock wrapInlines
  cases h : e.inlines with
  | nil => simp [h]
  | cons i is => simp

theorem element_takes (bare : Bool) (e : OpenElement) (b : Block) :
    (e.takes bare b).element = e.element := by
  have hadd (x : OpenElement) (c : Block) : (x.addBlock c).element = x.element :=
    element_wrapInlines x
  unfold takes
  split
  · rename_i content
    split
    · generalize hx : e.element = x
      induction content generalizing e with
      | nil => exact hx
      | cons i is ih => exact ih (e.addInline i) ((element_addInline e i).trans hx)
    · rw [hadd, noteParagraph_eq]
  · exact hadd e _

theorem element_foldl_takes (bare : Bool) (bs : List Block) (e : OpenElement) :
    (bs.foldl (takes bare) e).element = e.element := by
  induction bs generalizing e with
  | nil => rfl
  | cons b bs ih => exact (ih (e.takes bare b)).trans (element_takes bare e b)

/-- Blocks with elements of their own are collected as they are; in an item, a paragraph among them
makes it loose. -/
theorem foldl_takes (bs : List Block) (he : e.inlines = []) :
    bs.foldl (takes false) e =
      { e with
        blocks := bs.reverse ++ e.blocks
        loose := e.loose || (e.isItem && bs.any Block.isParagraph) } := by
  induction bs generalizing e with
  | nil => simp
  | cons b bs ih =>
    have hb : e.takes false b =
        { e with blocks := b :: e.blocks, loose := e.loose || (e.isItem && b.isParagraph) } := by
      by_cases hp : b.isParagraph = true
      · cases b with
        | paragraph content =>
          have hn : (noteParagraph e).inlines = [] := by rw [noteParagraph_eq, he]
          simp only [takes, Bool.false_eq_true, if_false]
          rw [addBlock_of_nil hn, noteParagraph_eq]
          simp [Block.isParagraph]
        | _ => cases hp
      · have hp : b.isParagraph = false := by simpa using hp
        rw [takes_of_not_isParagraph false e hp, addBlock_of_nil he, hp]
        simp
    have hbs := ih (e := { e with
      blocks := b :: e.blocks
      loose := e.loose || (e.isItem && b.isParagraph) }) he
    rw [List.foldl_cons, hb, hbs]
    simp [isItem, Bool.or_assoc, Bool.and_or_distrib_left]

/-- Bare paragraphs are complete at the next block or at the end. -/
theorem wrapInlines_takes_bare {bs : List Block} (hm : blocksMerged bs) (hb : CanBeBare bs)
    (h : e.inlines = [] ∨ ∀ b ∈ bs.head?, b.isParagraph = false) :
    (bs.foldl (takes true) e).wrapInlines =
      { e.wrapInlines with blocks := bs.reverse ++ e.wrapInlines.blocks } := by
  induction bs generalizing e with
  | nil => rfl
  | cons b bs ih =>
    obtain ⟨hne, hchain⟩ := hb
    obtain ⟨hhead, hchain⟩ := List.isChain_cons.mp hchain
    have hbs : CanBeBare bs := ⟨fun hmem => hne (List.mem_cons_of_mem b hmem), hchain⟩
    rw [List.foldl_cons]
    by_cases hp : b.isParagraph = true
    · cases b with
      | paragraph content =>
        have he : e.inlines = [] := h.resolve_right fun hn => by
          have := hn _ rfl
          cases hp.symm.trans this
        have hcontent : content ≠ [] := fun hc => hne (hc ▸ List.mem_cons_self)
        have hstep : e.takes true (.paragraph content) = { e with inlines := content.reverse } := by
          simp only [takes, if_true]
          exact foldl_addInline_nil hm.1 he
        have hwrap : wrapInlines { e with inlines := content.reverse } =
            { e with blocks := .paragraph content :: e.blocks, inlines := [] } := by
          simp [wrapInlines, hcontent]
        rw [hstep, ih hm.2 hbs (.inr fun b hmem => (hhead b hmem).resolve_left nofun), hwrap,
          wrapInlines_of_nil he]
        simp [he]
      | _ => cases hp
    · have hp : b.isParagraph = false := by simpa using hp
      have hnil := inlines_addBlock e b
      rw [takes_of_not_isParagraph true e hp, ih hm.2 hbs (.inl hnil), wrapInlines_of_nil hnil]
      simp [addBlock]

/-! ## Items -/

theorem acts_task (task : Option Bool) :
    Acts (taskEvents task) { element := .item } { element := .item, task } := by
  cases task with
  | none => exact .nil _
  | some checked => exact fun _ => rfl

/-- An item that ends holds the blocks that it took, whether their paragraphs were bare or not. -/
theorem wrapInlines_item {tight : Bool} {bs : List Block} (task : Option Bool)
    (hm : blocksMerged bs) (hb : tight = true → CanBeBare bs) :
    (bs.foldl (takes tight) { element := .item, task }).wrapInlines =
      { element := .item
        task
        blocks := bs.reverse
        loose := ! tight && bs.any Block.isParagraph } := by
  cases tight with
  | true =>
    rw [wrapInlines_takes_bare hm (hb rfl) (.inl rfl), wrapInlines_of_nil rfl]
    simp
  | false =>
    rw [foldl_takes bs rfl, wrapInlines_of_nil rfl]
    simp [isItem]

theorem handTo_item (parent : OpenElement) {e x : OpenElement} (he : e.element = .item)
    (h : e.wrapInlines = x) :
    parent.handTo e =
      { parent with
        loose := parent.loose || x.loose
        items := ⟨x.task, x.blocks.reverse⟩ :: parent.items } := by
  have hx : x.element = .item := by rw [← h, element_wrapInlines, he]
  unfold handTo wrapsInlines
  simp only [he, if_true, h, hx]

theorem dropFinalNewline_append (s : String) : dropFinalNewline (s ++ "\n") = s := by
  simp [dropFinalNewline]

theorem firstWord?_of_isLanguage {s : String} (h : IsLanguage s) : Text.firstWord? s = some s := by
  obtain ⟨hne, hb⟩ := h
  have htrim : Text.trimStart s.toList = s.toList := by
    cases hs : s.toList with
    | nil => rfl
    | cons c cs => simp [Text.trimStart, hb c (by simp [hs])]
  have hall : s.toList.takeWhile (! Text.isBlank ·) = s.toList :=
    List.takeWhile_eq_self_iff.mpr fun c hc => by simp [hb c hc]
  have hnil : s.toList ≠ [] := by simpa using hne
  unfold Text.firstWord?
  rw [htrim, hall]
  split
  · contradiction
  · simp

mutual

/-- The events of a block add it to the element around it. -/
theorem acts_block (bare : Bool) : ∀ b : Block, b.Merged → b.Regular →
    ∀ e : OpenElement, e.isLiteral = false → Acts (b.events bare) e (e.takes bare b)
  | .paragraph content, hm, hp, e, he => by
    cases bare with
    | true => exact acts_inlines content hm hp e he
    | false =>
      have h := (acts_new hm hp .paragraph rfl).enclosed e
      simpa [handTo, noted, wrapsInlines, Block.events, takes] using h
  | .heading level content, hm, hp, e, _ => by
    have h := (acts_new hm hp.2 (.heading level) rfl).enclosed e
    simpa [handTo, noted, wrapsInlines, Block.events, takes] using h
  | .code language literal, _, hp, e, _ => by
    have hl : language.bind Text.firstWord? = language := by
      cases language with
      | none => rfl
      | some l => exact firstWord?_of_isLanguage (hp l rfl)
    have ht : Acts [.text (literal ++ "\n")] { element := .code language }
        { element := .code language, literal := literal ++ "\n" } := fun _ => by
      simp [Assembly.add, onTop, isLiteral, addLiteral]
    have h := ht.enclosed e
    simpa [handTo, noted, wrapsInlines, Block.events, takes, hl, dropFinalNewline_append] using h
  | .list start tight items, hm, hp, e, _ => by
    obtain ⟨htight, hp⟩ := hp
    have hbare (i : Item) (hi : i ∈ items) (ht : tight = true) : CanBeBare i.children := by
      subst ht
      exact htight i hi
    have hloose : (! (! tight && items.any Item.hasParagraph)) = tight := by
      cases tight with
      | true => simp
      | false => simpa using htight
    have h := (acts_items tight items hm hp hbare { element := .list start }).enclosed e
    simpa [handTo, noted, wrapsInlines, Block.events, takes, hloose] using h
  | .quote alert children, hm, hp, e, _ => by
    have h := (acts_blocks false children hm hp { element := .quote alert } rfl).enclosed e
    rw [foldl_takes children rfl] at h
    simpa [handTo, noted, wrapsInlines, Block.events, takes, wrapInlines] using h
  | .footnote label children, hm, hp, e, _ => by
    have h := (acts_blocks false children hm hp { element := .footnote label } rfl).enclosed e
    rw [foldl_takes children rfl] at h
    simpa [handTo, noted, wrapsInlines, Block.events, takes, wrapInlines] using h
  | .html s, _, _, e, _ => by
    have ht : Acts [.html s] { element := .html } { element := .html, literal := s } := fun _ => by
      simp [Assembly.add, onTop, isLiteral, addLiteral]
    have h := ht.enclosed e
    simpa [handTo, noted, wrapsInlines, Block.events, takes] using h
  | .metadata s, _, _, e, _ => by
    have ht : Acts [.text s] { element := .metadata } { element := .metadata, literal := s } :=
      fun _ => by simp [Assembly.add, onTop, isLiteral, addLiteral]
    have h := ht.enclosed e
    simpa [handTo, noted, wrapsInlines, Block.events, takes] using h
  | .rule, _, _, _, _ => fun _ => rfl
  | .table _, hm, hp, e, _ => acts_table hm hp e

theorem acts_blocks (bare : Bool) : ∀ bs : List Block, blocksMerged bs → blocksRegular bs →
    ∀ e : OpenElement, e.isLiteral = false →
    Acts (blocksEvents bare bs) e (bs.foldl (takes bare) e)
  | [], _, _, e, _ => .nil e
  | b :: bs, hm, hp, e, he =>
    (acts_block bare b hm.1 hp.1 e he).append
      (acts_blocks bare bs hm.2 hp.2 _ (isLiteral_of_element (element_takes bare e b) ▸ he))

/-- The events of items add them to their list, which is loose if one of them holds a paragraph
that is not bare. -/
theorem acts_items (tight : Bool) : ∀ items : List Item, itemsMerged items → itemsRegular items →
    (∀ i ∈ items, tight = true → CanBeBare i.children) → ∀ e : OpenElement,
    Acts (itemsEvents tight items) e
      { e with
        items := items.reverse ++ e.items
        loose := e.loose || (! tight && items.any Item.hasParagraph) }
  | [], _, _, _, e => by simpa [itemsEvents] using Acts.nil e
  | ⟨task, children⟩ :: items, hm, hp, hbare, e => by
    obtain ⟨hb, hbs⟩ := List.forall_mem_cons.mp hbare
    have hitem := (acts_blocks tight children hm.1 hp.1 { element := .item, task } rfl)
    have h := ((acts_task task).append hitem).enclosed e
    have helement := element_foldl_takes tight children { element := .item, task }
    rw [handTo_item _ helement (wrapInlines_item task hm.1 hb)] at h
    have hrest := acts_items tight items hm.2 hp.2 hbs
      { e with
        items := ⟨task, children⟩ :: e.items
        loose := e.loose || (! tight && Item.hasParagraph ⟨task, children⟩) }
    rw [itemsEvents, List.reverse_cons, List.append_assoc, List.any_cons, Bool.and_or_distrib_left,
      ← Bool.or_assoc]
    refine .append ?_ hrest
    simpa [noted, Item.hasParagraph] using h

end

/-! ## Documents -/

theorem ofEvents_blocksEvents {bs : List Block} (hm : blocksMerged bs) (hp : blocksRegular bs) :
    Document.ofEvents (blocksEvents false bs) = bs := by
  have h : (blocksEvents false bs).foldl Assembly.add .empty = ⟨bs.foldl (takes false) _, []⟩ :=
    acts_blocks false bs hm hp _ rfl []
  rw [foldl_takes bs rfl] at h
  unfold Document.ofEvents
  rw [h]
  simp [Assembly.blocks, wrapInlines]

/-- **Documents from events have merged texts, and a document in normal form comes back from its
events.** -/
theorem Document.ofEvents_events :
    (∀ events, blocksMerged (Document.ofEvents events)) ∧
      ∀ d : Document, d.Normal → Document.ofEvents d.events = d :=
  ⟨blocksMerged_ofEvents, fun _ h => ofEvents_blocksEvents h.merged h.regular⟩

/-- Notes with a loose list in a tight one, a table, code and a quote. -/
def taskNotes : Document :=
  [.heading 2 [.text "Tasks ", .marked .emphasis [.text "today"]],
    .list none true
      [⟨some true, [.paragraph [.text "one", .softBreak, .text "two"],
        .list (some 1) false [⟨none, [.rule]⟩, ⟨none, [.paragraph []]⟩], .paragraph [.code "x"]]⟩,
      ⟨none, []⟩],
    .table ⟨[.left], [[.text "head"]], [[[.image "a.png" "" [.text "alt"]], []]]⟩,
    .quote (some .tip) [.code (some "rust") "fn main() {}\n", .paragraph [.footnote "n"]],
    .footnote "n" [.html "<hr>\n", .metadata "key: value"]]

theorem ofEvents_events_taskNotes :
    Document.Normal taskNotes ∧ Document.ofEvents taskNotes.events = taskNotes := by
  have h : Document.Normal taskNotes := by
    constructor
    · simp [taskNotes, blocksMerged, Block.Merged, itemsMerged, rowMerged, inlinesMerged,
        Inline.Merged, Inline.Apart, Inline.isText]
    · simp [taskNotes, blocksRegular, Block.Regular, itemsRegular, inlinesPlain, Inline.Plain,
        CanBeBare, Item.hasParagraph, Block.isParagraph, IsLanguage, Text.isBlank]
  exact ⟨h, Document.ofEvents_events.2 _ h⟩

end RichMarkdown
