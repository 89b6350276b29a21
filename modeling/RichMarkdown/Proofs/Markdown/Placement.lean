import Mathlib.Data.List.ReduceOption
import RichMarkdown.Markdown.Parse
import RichMarkdown.Proofs.Markdown.Levels

/-!
# Directives in their places

Placing walks through a level of a document with a list of directives and takes them out of it by
the indexes of the placeholders that it meets. What is left of the list is settled by the indexes
taken so far (`Placement.left`), and every placeholder takes a directive at most once, so a walk is
described by the indexes that it takes (`Placement.Takes`).

* `Placement.placed_place`: on a level without directives each directive gets one place, the blocks
  between them stay as they are, and directives without a placeholder come last.
* `placed_parseBlocks`: the same for the blocks of a text, whatever the grammar makes of it.
-/

set_option autoImplicit false

namespace RichMarkdown

/-- The index of a placeholder. -/
def Block.placeholder? : Block → Option Nat
  | .html s => Placeholder.index? s
  | _ => none

/-- The indexes of the placeholders on a level, in order. -/
def placeholders (bs : List Block) : List Nat := (blocksLevel bs).filterMap Block.placeholder?

namespace Placement

/-! ## Filled levels -/

mutual

/-- The second block is the first one with placeholders replaced by the directives that have these
indexes. All else is kept. -/
inductive BlockFilled (ds : List Block) : Block → Block → List Nat → Prop
  | placed {s : String} {i : Nat} {d : Block} : Placeholder.index? s = some i → ds[i]? = some d →
      BlockFilled ds (.html s) d [i]
  | kept (b : Block) : BlockFilled ds b b []
  | list {start : Option UInt64} {tight : Bool} {is js : List Item} {used : List Nat} :
      ItemsFilled ds is js used → BlockFilled ds (.list start tight is) (.list start tight js) used
  | quote {alert : Option Alert} {bs cs : List Block} {used : List Nat} :
      BlocksFilled ds bs cs used → BlockFilled ds (.quote alert bs) (.quote alert cs) used
  | footnote {label : String} {bs cs : List Block} {used : List Nat} :
      BlocksFilled ds bs cs used → BlockFilled ds (.footnote label bs) (.footnote label cs) used

inductive BlocksFilled (ds : List Block) : List Block → List Block → List Nat → Prop
  | nil : BlocksFilled ds [] [] []
  | cons {b c : Block} {bs cs : List Block} {used used' : List Nat} : BlockFilled ds b c used →
      BlocksFilled ds bs cs used' → BlocksFilled ds (b :: bs) (c :: cs) (used ++ used')

inductive ItemsFilled (ds : List Block) : List Item → List Item → List Nat → Prop
  | nil : ItemsFilled ds [] [] []
  | cons {task : Option Bool} {bs cs : List Block} {is js : List Item} {used used' : List Nat} :
      BlocksFilled ds bs cs used → ItemsFilled ds is js used' →
      ItemsFilled ds (⟨task, bs⟩ :: is) (⟨task, cs⟩ :: js) (used ++ used')

end

/-- The directives with these indexes, in order. -/
def directivesAt (ds : List Block) (indexes : List Nat) : List Block :=
  indexes.filterMap (ds[·]?)

/-- What placing makes of a level of blocks. -/
structure Placed (ds bs placed : List Block) : Prop where
  /-- Each directive is on the level once. -/
  once : ((blocksLevel placed).filter Block.isDirective).Perm ds
  /-- A directive is in the place of its placeholder, if it has any, else behind all blocks. -/
  kept : ∃ filled used, BlocksFilled ds bs filled used ∧ used.Nodup ∧
    (∀ i, i ∈ used ↔ i < ds.length ∧ i ∈ placeholders bs) ∧
    placed = filled ++ directivesAt ds ((List.range ds.length).filter (· ∉ used))

/-! ## Directives on their way -/

variable {ds : List Block} {used : List Nat}

/-- The directives that have not been taken. -/
def left (ds : List Block) (used : List Nat) : Placement :=
  (List.range ds.length).map fun i => if i ∈ used then none else ds[i]?

theorem left_nil (ds : List Block) : left ds [] = ds.map some := by
  refine List.ext_getElem? fun i => ?_
  by_cases hi : i < ds.length <;> simp [left, hi]

theorem getElem?_left (i : Nat) :
    (left ds used)[i]?.join = if i ∈ used then none else ds[i]? := by
  by_cases hi : i < ds.length
  · simp [left, hi]
  · simp [left, hi]

theorem set_left (i : Nat) : (left ds used).set i none = left ds (used ++ [i]) := by
  refine List.ext_getElem? fun j => ?_
  rw [List.getElem?_set]
  by_cases hj : j < ds.length
  · by_cases hij : i = j
    · simp [left, hij, hj]
    · have hji : ¬ j = i := fun h => hij h.symm
      simp [left, hij, hji, hj]
  · by_cases hij : i = j <;> simp [left, hij, hj]

theorem take?_left (i : Nat) : (left ds used).take? i =
    if i ∈ used then none else ds[i]?.map fun d => (d, left ds (used ++ [i])) := by
  rw [take?, getElem?_left, set_left]
  split <;> rfl

theorem reduceOption_left : (left ds used).reduceOption =
    directivesAt ds ((List.range ds.length).filter (· ∉ used)) := by
  rw [left, List.reduceOption, directivesAt, List.filterMap_map, List.filterMap_filter]
  refine List.filterMap_congr fun i _ => ?_
  by_cases hi : i ∈ used <;> simp [hi]

theorem directivesAt_range (ds : List Block) : directivesAt ds (List.range ds.length) = ds := by
  have hall : (left ds []).reduceOption =
      directivesAt ds ((List.range ds.length).filter (· ∉ [])) := reduceOption_left
  simpa [left_nil, List.reduceOption, List.filterMap_map] using hall.symm

/-! ## Walks that take directives -/

/-- The indexes that a walk takes after others have been taken: those of the placeholders that it
meets, each once, if they have been issued and nobody has taken them. -/
structure Takes (n : Nat) (used met taken : List Nat) : Prop where
  nodup : taken.Nodup
  mem : ∀ i, i ∈ taken ↔ i ∉ used ∧ i < n ∧ i ∈ met

theorem Takes.none (n : Nat) (used : List Nat) : Takes n used [] [] := ⟨.nil, by simp⟩

theorem Takes.append {n : Nat} {met met' taken taken' : List Nat} (h : Takes n used met taken)
    (h' : Takes n (used ++ taken) met' taken') :
    Takes n used (met ++ met') (taken ++ taken') := by
  refine ⟨?_, ?_⟩
  · refine List.nodup_append.mpr ⟨h.nodup, h'.nodup, ?_⟩
    rintro i hi _ hi' rfl
    exact ((h'.mem i).mp hi').1 (List.mem_append_right _ hi)
  · intro i
    have htaken := h.mem i
    simp only [List.mem_append, h.mem, h'.mem]
    tauto

theorem level_placeholder (s : String) :
    (Block.html s).level.filterMap Block.placeholder? = (Placeholder.index? s).toList := by
  simp only [Block.level, Block.placeholder?, List.filterMap_cons, List.filterMap_nil]
  cases Placeholder.index? s <;> rfl

/-- A placeholder takes its directive, unless it is gone. -/
theorem filled_html (ds : List Block) (used : List Nat) (s : String) :
    ∃ c taken, html (left ds used) s = (c, left ds (used ++ taken)) ∧
      BlockFilled ds (.html s) c taken ∧
      Takes ds.length used ((Block.html s).level.filterMap Block.placeholder?) taken := by
  rw [level_placeholder, html]
  cases hi : Placeholder.index? s with
  | none =>
    refine ⟨.html s, [], ?_, .kept _, Takes.none ds.length used⟩
    rw [List.append_nil]
    rfl
  | some i =>
    rw [Option.bind_some, take?_left, Option.toList_some]
    by_cases hused : i ∈ used
    · refine ⟨.html s, [], ?_, .kept _, .nil, fun j => ?_⟩
      · rw [if_pos hused, List.append_nil]
      · simp only [List.mem_singleton, List.not_mem_nil, false_iff]
        rintro ⟨hj, -, rfl⟩
        exact hj hused
    · rw [if_neg hused]
      cases hd : ds[i]? with
      | none =>
        have hi := List.getElem?_eq_none_iff.mp hd
        refine ⟨.html s, [], ?_, .kept _, .nil, fun j => ?_⟩
        · rw [List.append_nil]
          rfl
        · simp only [List.mem_singleton, List.not_mem_nil, false_iff]
          rintro ⟨-, hj, rfl⟩
          omega
      | some d =>
        obtain ⟨hlt, -⟩ := List.getElem?_eq_some_iff.mp hd
        refine ⟨d, [i], rfl, .placed hi hd, List.pairwise_singleton _ i, fun j => ?_⟩
        simp only [List.mem_singleton]
        constructor
        · rintro rfl
          exact ⟨hused, hlt, rfl⟩
        · exact fun h => h.2.2

mutual

theorem filled_block (ds : List Block) (used : List Nat) : ∀ b : Block,
    ∃ c taken, block (left ds used) b = (c, left ds (used ++ taken)) ∧ BlockFilled ds b c taken ∧
      Takes ds.length used (b.level.filterMap Block.placeholder?) taken
  | .html s => by
    obtain ⟨c, taken, hplace, hfilled, htakes⟩ := filled_html ds used s
    exact ⟨c, taken, hplace, hfilled, htakes⟩
  | .list start tight children => by
    obtain ⟨js, taken, hplace, hfilled, htakes⟩ := filled_items ds used children
    exact ⟨.list start tight js, taken, by simp only [block, hplace], .list hfilled, htakes⟩
  | .quote alert children => by
    obtain ⟨cs, taken, hplace, hfilled, htakes⟩ := filled_blocks ds used children
    exact ⟨.quote alert cs, taken, by simp only [block, hplace], .quote hfilled, htakes⟩
  | .footnote label children => by
    obtain ⟨cs, taken, hplace, hfilled, htakes⟩ := filled_blocks ds used children
    exact ⟨.footnote label cs, taken, by simp only [block, hplace], .footnote hfilled, htakes⟩
  | .paragraph _ | .heading _ _ | .code _ _ | .rule | .table _ | .metadata _ | .directive _ _
  | .command _ => ⟨_, [], by rw [List.append_nil]; rfl, .kept _, Takes.none ds.length used⟩

/-- **A walk fills a level**: it takes each directive at the first placeholder that asks for it. -/
theorem filled_blocks (ds : List Block) (used : List Nat) : ∀ bs : List Block,
    ∃ cs taken, blocks (left ds used) bs = (cs, left ds (used ++ taken)) ∧
      BlocksFilled ds bs cs taken ∧ Takes ds.length used (placeholders bs) taken
  | [] => ⟨[], [], by rw [List.append_nil]; rfl, .nil, Takes.none ds.length used⟩
  | b :: bs => by
    obtain ⟨c, taken, hplace, hfilled, htakes⟩ := filled_block ds used b
    obtain ⟨cs, taken', hplace', hfilled', htakes'⟩ := filled_blocks ds (used ++ taken) bs
    refine ⟨c :: cs, taken ++ taken', ?_, .cons hfilled hfilled', ?_⟩
    · simp only [blocks, hplace, hplace', List.append_assoc]
    · rw [placeholders, blocksLevel, List.filterMap_append]
      exact htakes.append htakes'

theorem filled_items (ds : List Block) (used : List Nat) : ∀ is : List Item,
    ∃ js taken, items (left ds used) is = (js, left ds (used ++ taken)) ∧
      ItemsFilled ds is js taken ∧
      Takes ds.length used ((itemsLevel is).filterMap Block.placeholder?) taken
  | [] => ⟨[], [], by rw [List.append_nil]; rfl, .nil, Takes.none ds.length used⟩
  | ⟨task, children⟩ :: rest => by
    obtain ⟨cs, taken, hplace, hfilled, htakes⟩ := filled_blocks ds used children
    obtain ⟨js, taken', hplace', hfilled', htakes'⟩ := filled_items ds (used ++ taken) rest
    refine ⟨⟨task, cs⟩ :: js, taken ++ taken', ?_, .cons hfilled hfilled', ?_⟩
    · simp only [items, hplace, hplace', List.append_assoc]
    · rw [itemsLevel, List.filterMap_append]
      exact htakes.append htakes'

end

/-! ## Directives of filled levels -/

theorem filter_level_kept {bs : List Block} (h : ∀ b ∈ bs, b.isDirective = false) :
    bs.filter Block.isDirective = [] := by
  refine List.filter_eq_nil_iff.mpr fun b hb => ?_
  rw [h b hb]
  exact Bool.false_ne_true

mutual

theorem directives_blockFilled (hds : ∀ d ∈ ds, d.isDirective = true) {b c : Block}
    {used : List Nat} (h : BlockFilled ds b c used) (hb : ∀ x ∈ b.level, x.isDirective = false) :
    c.level.filter Block.isDirective = directivesAt ds used := by
  cases h with
  | placed hi hd =>
    have hdir : c.isDirective = true := hds c (List.mem_of_getElem? hd)
    rw [level_of_isDirective hdir]
    simp [directivesAt, hd, hdir]
  | kept => exact filter_level_kept hb
  | list h => exact directives_itemsFilled hds h hb
  | quote h => exact directives_blocksFilled hds h hb
  | footnote h => exact directives_blocksFilled hds h hb

theorem directives_blocksFilled (hds : ∀ d ∈ ds, d.isDirective = true) {bs cs : List Block}
    {used : List Nat} (h : BlocksFilled ds bs cs used)
    (hb : ∀ x ∈ blocksLevel bs, x.isDirective = false) :
    (blocksLevel cs).filter Block.isDirective = directivesAt ds used := by
  cases h with
  | nil => rfl
  | cons h h' =>
    obtain ⟨hhead, htail⟩ := List.forall_mem_append.mp hb
    rw [blocksLevel, List.filter_append, directives_blockFilled hds h hhead,
      directives_blocksFilled hds h' htail, directivesAt, directivesAt, directivesAt,
      List.filterMap_append]

theorem directives_itemsFilled (hds : ∀ d ∈ ds, d.isDirective = true) {is js : List Item}
    {used : List Nat} (h : ItemsFilled ds is js used)
    (hb : ∀ x ∈ itemsLevel is, x.isDirective = false) :
    (itemsLevel js).filter Block.isDirective = directivesAt ds used := by
  cases h with
  | nil => rfl
  | cons h h' =>
    obtain ⟨hhead, htail⟩ := List.forall_mem_append.mp hb
    rw [itemsLevel, List.filter_append, directives_blocksFilled hds h hhead,
      directives_itemsFilled hds h' htail, directivesAt, directivesAt, directivesAt,
      List.filterMap_append]

end

theorem blocksLevel_directives {ds : List Block} (hds : ∀ d ∈ ds, d.isDirective = true) :
    (blocksLevel ds).filter Block.isDirective = ds := by
  induction ds with
  | nil => rfl
  | cons d ds ih =>
    obtain ⟨hd, hds⟩ := List.forall_mem_cons.mp hds
    rw [blocksLevel, level_of_isDirective hd, List.singleton_append, List.filter_cons_of_pos hd,
      ih hds]

/-- Taken and left over, each index is there once. -/
theorem perm_taken {n : Nat} {met : List Nat} (h : Takes n [] met used) :
    (used ++ (List.range n).filter (· ∉ used)).Perm (List.range n) := by
  have hnodup : (used ++ (List.range n).filter (· ∉ used)).Nodup := by
    refine List.nodup_append.mpr ⟨h.nodup, List.nodup_range.filter _, ?_⟩
    rintro i hi _ hi' rfl
    simp [hi] at hi'
  refine (List.perm_ext_iff_of_nodup hnodup List.nodup_range).mpr fun i => ?_
  have hi := h.mem i
  simp only [List.mem_append, List.mem_filter, List.mem_range, decide_eq_true_eq]
  constructor
  · rintro (hu | ⟨hlt, -⟩)
    · exact (hi.mp hu).2.1
    · exact hlt
  · intro hlt
    by_cases hu : i ∈ used
    · exact .inl hu
    · exact .inr ⟨hlt, hu⟩

/-- **Each directive gets one place**, wherever the placeholders are, and nothing else changes. -/
theorem placed_place {ds bs : List Block} (hds : ∀ d ∈ ds, d.isDirective = true)
    (hbs : ∀ b ∈ blocksLevel bs, b.isDirective = false) : Placed ds bs (place ds bs) := by
  obtain ⟨filled, used, hplace, hfilled, htakes⟩ := filled_blocks ds [] bs
  have hall : place ds bs =
      filled ++ directivesAt ds ((List.range ds.length).filter (· ∉ used)) := by
    rw [place, ← left_nil, hplace]
    exact congrArg (filled ++ ·) reduceOption_left
  have hleft : ∀ d ∈ directivesAt ds ((List.range ds.length).filter (· ∉ used)),
      d.isDirective = true := by
    intro d hd
    obtain ⟨i, -, hi⟩ := List.mem_filterMap.mp hd
    exact hds d (List.mem_of_getElem? hi)
  refine ⟨?once, filled, used, hfilled, htakes.nodup, ?_, hall⟩
  case once =>
    rw [hall, blocksLevel_append, List.filter_append, directives_blocksFilled hds hfilled hbs,
      blocksLevel_directives hleft, directivesAt, directivesAt, ← List.filterMap_append]
    exact ((perm_taken htakes).filterMap _).trans (.of_eq (directivesAt_range ds))
  · intro i
    simpa using htakes.mem i

end Placement

/-! ## Texts -/

/-- The directive of a piece, with its body read. -/
def Piece.node? (g : Grammar) (o : Options) (outer : String) : Piece → Option Block
  | .markdown _ => none
  | .leaf head =>
    some (.directive ⟨head.name, .leaf, g.label o (head.label.getD ""), head.attributes⟩ [])
  | .container head body =>
    some (.directive ⟨head.name, .container, g.label o (head.label.getD ""), head.attributes⟩
      (parseBlocks g o outer body))

/-- The directives of a text, one for each piece that is not plain Markdown. -/
def directivesOf (g : Grammar) (o : Options) (outer text : String) : List Block :=
  (Piece.split text).filterMap (Piece.node? g o outer)

/-- What the grammar makes of a text with placeholders for its directives. -/
def readAround (g : Grammar) (o : Options) (outer text : String) : List Block :=
  g.blocks o (some outer) (Piece.source 0 (Piece.split text))

theorem parseBlocks_eq (g : Grammar) (o : Options) (outer text : String) :
    parseBlocks g o outer text =
      Placement.place (directivesOf g o outer text) (readAround g o outer text) := by
  rw [parseBlocks, readAround, directivesOf]
  refine congrArg (Placement.place · _) ?_
  -- the recursion needs to know that a body is in the text, and nothing else does
  conv_rhs => rw [← List.attach_map_subtype_val (Piece.split text), List.filterMap_map]
  refine List.filterMap_congr fun p _ => ?_
  obtain ⟨p, hp⟩ := p
  cases p <;> rfl

theorem isDirective_of_node? {g : Grammar} {o : Options} {outer : String} {p : Piece} {d : Block}
    (h : p.node? g o outer = some d) : d.isDirective = true := by
  cases p with
  | markdown text => cases h
  | leaf head =>
    obtain rfl := Option.some.inj h
    rfl
  | container head body =>
    obtain rfl := Option.some.inj h
    rfl

/-- **Every block directive is placed once.** Whatever the grammar makes of a text with placeholders
for its directives, each directive of the text is on its level once, in the place of a placeholder
or behind all blocks, and all other blocks stay where they are. -/
theorem placed_parseBlocks (g : Grammar) (o : Options) (outer text : String) :
    Placement.Placed (directivesOf g o outer text) (readAround g o outer text)
      (parseBlocks g o outer text) := by
  rw [parseBlocks_eq]
  refine Placement.placed_place ?_ (blocksLevel_ofEvents _)
  intro d hd
  obtain ⟨p, -, hp⟩ := List.mem_filterMap.mp hd
  exact isDirective_of_node? hp

end RichMarkdown
