import RichMarkdown.Proofs.Directive.Pieces
import RichMarkdown.Proofs.Markdown.Entries

/-!
# Blocks with their directives expanded

Expansion keeps all blocks and changes only the inlines in them (`BlocksAlong`). With that relation,
what is known of the expansion of inlines is known of blocks: that it comes to an end, in one way
only, and that it keeps everything but texts.

* `expandBlocks_replaces`: expansion comes to an end, changes nothing when it is repeated, and keeps
  everything but texts, which it cuts into pieces.
* `labelsFit_lineGrammar`: a reader that takes each line for a block of its own adds no text.
-/

set_option autoImplicit false

namespace RichMarkdown

mutual

/-- The same blocks, apart from the inlines, which are related in pairs. -/
inductive Block.Along (R : List Inline → List Inline → Prop) : Block → Block → Prop
  | paragraph {is js : List Inline} : R is js → Block.Along R (.paragraph is) (.paragraph js)
  | heading (level : Nat) {is js : List Inline} : R is js →
      Block.Along R (.heading level is) (.heading level js)
  | code (language : Option String) (literal : String) :
      Block.Along R (.code language literal) (.code language literal)
  | list (start : Option UInt64) (tight : Bool) {is js : List Item} : ItemsAlong R is js →
      Block.Along R (.list start tight is) (.list start tight js)
  | quote (alert : Option Alert) {bs cs : List Block} : BlocksAlong R bs cs →
      Block.Along R (.quote alert bs) (.quote alert cs)
  | rule : Block.Along R .rule .rule
  | html (s : String) : Block.Along R (.html s) (.html s)
  | table (alignments : List Alignment) {header header' : List (List Inline)}
      {rows rows' : List (List (List Inline))} : List.Forall₂ R header header' →
      List.Forall₂ (List.Forall₂ R) rows rows' →
      Block.Along R (.table ⟨alignments, header, rows⟩) (.table ⟨alignments, header', rows'⟩)
  | footnote (label : String) {bs cs : List Block} : BlocksAlong R bs cs →
      Block.Along R (.footnote label bs) (.footnote label cs)
  | metadata (s : String) : Block.Along R (.metadata s) (.metadata s)
  | directive (name : String) (kind : DirectiveKind) (attributes : Attributes)
      {label label' : List Inline} {bs cs : List Block} : R label label' → BlocksAlong R bs cs →
      Block.Along R (.directive ⟨name, kind, label, attributes⟩ bs)
        (.directive ⟨name, kind, label', attributes⟩ cs)
  | command (name : String) (argument : Option String) {is js : List Inline} : R is js →
      Block.Along R (.command ⟨name, argument, is⟩) (.command ⟨name, argument, js⟩)

inductive BlocksAlong (R : List Inline → List Inline → Prop) : List Block → List Block → Prop
  | nil : BlocksAlong R [] []
  | cons {b c : Block} {bs cs : List Block} : Block.Along R b c → BlocksAlong R bs cs →
      BlocksAlong R (b :: bs) (c :: cs)

inductive ItemsAlong (R : List Inline → List Inline → Prop) : List Item → List Item → Prop
  | nil : ItemsAlong R [] []
  | cons (task : Option Bool) {bs cs : List Block} {is js : List Item} : BlocksAlong R bs cs →
      ItemsAlong R is js → ItemsAlong R (⟨task, bs⟩ :: is) (⟨task, cs⟩ :: js)

end

section

variable {g : Grammar} {o : Options} {R : List Inline → List Inline → Prop}

theorem forall₂_map {α : Type} {S : α → α → Prop} {f : α → α} (h : ∀ a, S a (f a)) (as : List α) :
    List.Forall₂ S as (as.map f) :=
  List.forall₂_map_right_iff.mpr (List.forall₂_same.mpr fun a _ => h a)

theorem eq_map_of_forall₂ {α : Type} {S : α → α → Prop} {f : α → α} (h : ∀ a b, S a b → b = f a) :
    ∀ {as bs : List α}, List.Forall₂ S as bs → bs = as.map f
  | _, _, .nil => rfl
  | _, _, .cons hab hs => by rw [List.map_cons, h _ _ hab, eq_map_of_forall₂ h hs]

mutual

theorem Block.along_expandDirectives (h : ∀ is, R is (expandInlines g o is)) :
    ∀ b : Block, b.Along R (b.expandDirectives g o)
  | .paragraph _ => .paragraph (h _)
  | .heading level _ => .heading level (h _)
  | .code language literal => .code language literal
  | .list start tight items => .list start tight (along_expandItems h items)
  | .quote alert children => .quote alert (along_expandBlocks h children)
  | .rule => .rule
  | .html s => .html s
  | .table _ => .table _ (forall₂_map h _) (forall₂_map (forall₂_map h) _)
  | .footnote label children => .footnote label (along_expandBlocks h children)
  | .metadata s => .metadata s
  | .directive head children =>
    .directive head.name head.kind head.attributes (h _) (along_expandBlocks h children)
  | .command c => .command c.name c.argument (h _)

theorem along_expandBlocks (h : ∀ is, R is (expandInlines g o is)) :
    ∀ bs : List Block, BlocksAlong R bs (expandBlocks g o bs)
  | [] => .nil
  | b :: bs => .cons (b.along_expandDirectives h) (along_expandBlocks h bs)

theorem along_expandItems (h : ∀ is, R is (expandInlines g o is)) :
    ∀ items : List Item, ItemsAlong R items (expandItems g o items)
  | [] => .nil
  | ⟨task, children⟩ :: rest =>
    .cons task (along_expandBlocks h children) (along_expandItems h rest)

end

mutual

theorem Block.Along.eq (h : ∀ is js, R is js → js = expandInlines g o is) :
    ∀ {b c : Block}, b.Along R c → c = b.expandDirectives g o
  | _, _, .paragraph hi => by rw [Block.expandDirectives, h _ _ hi]
  | _, _, .heading _ hi => by rw [Block.expandDirectives, h _ _ hi]
  | _, _, .code _ _ | _, _, .rule | _, _, .html _ | _, _, .metadata _ => rfl
  | _, _, .list _ _ hs => by rw [Block.expandDirectives, hs.eq h]
  | _, _, .quote _ hs => by rw [Block.expandDirectives, hs.eq h]
  | _, _, .table _ hheader hrows => by
    have hrows' := eq_map_of_forall₂ (f := List.map (expandInlines g o))
      (fun _ _ => eq_map_of_forall₂ h) hrows
    rw [Block.expandDirectives, eq_map_of_forall₂ h hheader, hrows']
  | _, _, .footnote _ hs => by rw [Block.expandDirectives, hs.eq h]
  | _, _, .directive _ _ _ hlabel hs => by rw [Block.expandDirectives, h _ _ hlabel, hs.eq h]
  | _, _, .command _ _ hi => by rw [Block.expandDirectives, h _ _ hi]

theorem BlocksAlong.eq (h : ∀ is js, R is js → js = expandInlines g o is) :
    ∀ {bs cs : List Block}, BlocksAlong R bs cs → cs = expandBlocks g o bs
  | _, _, .nil => rfl
  | _, _, .cons hb hs => by rw [expandBlocks, hb.eq h, hs.eq h]

theorem ItemsAlong.eq (h : ∀ is js, R is js → js = expandInlines g o is) :
    ∀ {is js : List Item}, ItemsAlong R is js → js = expandItems g o is
  | _, _, .nil => rfl
  | _, _, .cons _ hs hitems => by rw [expandItems, hs.eq h, hitems.eq h]

end

theorem expandInlines_idem (is : List Inline) :
    expandInlines g o (expandInlines g o is) = expandInlines g o is :=
  expandInlinesWith_idem is

mutual

theorem Block.expandDirectives_idem :
    ∀ b : Block, (b.expandDirectives g o).expandDirectives g o = b.expandDirectives g o
  | .paragraph _ | .heading _ _ | .command _ => by
    simp only [Block.expandDirectives, expandInlines_idem]
  | .code _ _ | .rule | .html _ | .metadata _ => rfl
  | .list _ _ items => by simp only [Block.expandDirectives, expandItems_idem items]
  | .quote _ children | .footnote _ children => by
    simp only [Block.expandDirectives, expandBlocks_idem children]
  | .table _ => by
    simp only [Block.expandDirectives, List.map_map, Function.comp_def, expandInlines_idem]
  | .directive _ children => by
    simp only [Block.expandDirectives, expandInlines_idem, expandBlocks_idem children]

/-- A second expansion of blocks changes nothing. -/
theorem expandBlocks_idem :
    ∀ bs : List Block, expandBlocks g o (expandBlocks g o bs) = expandBlocks g o bs
  | [] => rfl
  | b :: bs => by simp only [expandBlocks, b.expandDirectives_idem, expandBlocks_idem bs]

theorem expandItems_idem :
    ∀ items : List Item, expandItems g o (expandItems g o items) = expandItems g o items
  | [] => rfl
  | ⟨_, children⟩ :: rest => by
    simp only [expandItems, expandBlocks_idem children, expandItems_idem rest]

end

/-- **Expansion of inline directives**, where labels fit: its calls come to an end, with one result;
a second expansion changes nothing; and everything but texts stays, while the texts are cut into
pieces that make them up, plain ones without a directive and matches. -/
theorem expandBlocks_replaces (hg : g.LabelsFit o) (bs : List Block) :
    (∀ out, BlocksAlong (Expands g o) bs out ↔ out = expandBlocks g o bs) ∧
      expandBlocks g o (expandBlocks g o bs) = expandBlocks g o bs ∧
      BlocksAlong (InlinesReplaced fun label content => Expands g o (g.label o label) content) bs
        (expandBlocks g o bs) := by
  have hcalls (is : List Inline) : Expands g o is (expandInlines g o is) :=
    (expands_iff hg).mpr rfl
  have hreplaced (is : List Inline) :
      InlinesReplaced (fun label content => Expands g o (g.label o label) content) is
        (expandInlines g o is) :=
    replaced_expandInlinesWith fun _ hlabel => expands_readLabelTo hg (length_labels hlabel).le
  refine ⟨fun out => ⟨fun h => h.eq fun _ _ => (expands_iff hg).mp, ?_⟩, expandBlocks_idem bs,
    along_expandBlocks hreplaced bs⟩
  rintro rfl
  exact along_expandBlocks hcalls bs

end

/-! ## Nested directives -/

theorem length_trim_le (cs : List Char) : (Text.trim cs).length ≤ cs.length := by
  rw [Text.trim, Text.trimEnd, List.length_reverse]
  refine (List.dropWhile_sublist _).length_le.trans ?_
  rw [List.length_reverse]
  exact (List.dropWhile_sublist _).length_le

theorem textSize_append (is js : List Inline) :
    textSize (is ++ js) = textSize is + textSize js := by
  induction is with
  | nil => rw [List.nil_append, textSize, Nat.zero_add]
  | cons i is ih => rw [List.cons_append, textSize, textSize, ih, Nat.add_assoc]

theorem textSize_lineBlocks (ls : List (List Char)) :
    textSize ((lineBlocks ls).flatMap Grammar.inlinesOf) ≤ ls.flatten.length := by
  induction ls with
  | nil => exact Nat.le_refl 0
  | cons l ls ih =>
    rw [lineBlocks, List.flatten_cons, List.length_append]
    split
    · exact Nat.le_add_left_of_le ih
    · split
      · exact Nat.le_add_left_of_le ih
      · have htrim := length_trim_le l
        simp only [List.flatMap_cons, Grammar.inlinesOf, textSize_append, textSize, Inline.textSize,
          String.length_ofList]
        omega

theorem labelsFit_lineGrammar (o : Options) : lineGrammar.LabelsFit o := by
  intro label
  have hsize := textSize_lineBlocks (Text.lines label.toList)
  rw [Text.flatten_lines, String.length_toList] at hsize
  rw [Grammar.label, blocks_lineGrammar]
  split
  · exact Nat.zero_le _
  · split
    · exact (Nat.add_zero _).le
    · exact hsize

/-- A text that holds a directive becomes what is around the directive, and the directive. -/
theorem expandInlinesWith_text {read : String → List Inline} {s : String} {m : InlineMatch}
    (h : InlineMatch.find? s.toList = some m) (hafter : m.after = []) :
    expandInlinesWith read [.text s] = textNode m.before ++
      [.directive m.head.name m.head.attributes (read (m.head.label.getD ""))] := by
  have hdirective : (Inline.text s).hasDirective = true := by rw [Inline.hasDirective, h]; rfl
  rw [expandInlinesWith_eq, List.any_cons, hdirective, Bool.true_or, List.flatMap_singleton,
    Inline.expansion, if_pos rfl, expandText_of_some h, hafter, expandText_of_none rfl]
  rfl

/-- A directive, in the label of another one. -/
def nestedDirectives : List Block := [.paragraph [.text "see :b[x :i[y]]"]]

theorem expandBlocks_nested : expandBlocks lineGrammar {} nestedDirectives =
    [.paragraph [.text "see ", .directive "b" {} [.text "x ", .directive "i" {} [.text "y"]]]] := by
  have hfind : InlineMatch.find? "see :b[x :i[y]]".toList =
      some ⟨"see ".toList, ⟨"b", some "x :i[y]", {}⟩, []⟩ := by decide +kernel
  have hfind' : InlineMatch.find? "x :i[y]".toList =
      some ⟨"x ".toList, ⟨"i", some "y", {}⟩, []⟩ := by decide +kernel
  have hlabel : lineGrammar.label {} "x :i[y]" = [.text "x :i[y]"] := by
    rw [Grammar.label, blocks_lineGrammar]
    rfl
  have hlabel' : lineGrammar.label {} "y" = [.text "y"] := by
    rw [Grammar.label, blocks_lineGrammar]
    rfl
  have hinner (depth : Nat) : readLabelTo lineGrammar {} (depth + 1) "y" = [.text "y"] := by
    have hnone : InlineMatch.find? "y".toList = none := by decide +kernel
    have hsettled : inlinesSettled [.text "y"] := ⟨hnone, trivial⟩
    rw [readLabelTo, hlabel', expandInlinesWith_of_settled hsettled]
  have hsize : textSize [.text "see :b[x :i[y]]"] = 15 := rfl
  rw [nestedDirectives, expandBlocks, Block.expandDirectives, expandInlines,
    expandInlinesWith_text hfind rfl, hsize, Option.getD_some, readLabelTo, hlabel,
    expandInlinesWith_text hfind' rfl, Option.getD_some, hinner]
  rfl

theorem expandBlocks_replaces_nested :
    lineGrammar.LabelsFit {} ∧
      BlocksAlong (Expands lineGrammar {}) nestedDirectives
        [.paragraph [.text "see ",
          .directive "b" {} [.text "x ", .directive "i" {} [.text "y"]]]] := by
  have hfit := labelsFit_lineGrammar {}
  exact ⟨hfit, ((expandBlocks_replaces hfit nestedDirectives).1 _).mpr expandBlocks_nested.symm⟩

end RichMarkdown
