import RichMarkdown.Proofs.Directive.Matches

/-!
# Expansion of inline directives comes to an end

The content of a directive is read from its label and expanded in turn, so expansion calls itself
on texts that the grammar makes up. `Expands g o is out`: the calls of an expansion of `is` end, and
it gives `out`. A derivation is the tree of the calls, of any depth, with a branch for each label.

`expandInlines` stops at a depth instead, the size of the text. When no label holds more text than
it is written with (`Grammar.LabelsFit`), that depth is never reached, since a label is shorter than
the text around it (`length_labels`).

* `expands_iff`: the calls end, and `expandInlines` is what they give.
* `expandInlines_eq`: the equation of the expansion, without a depth.
-/

set_option autoImplicit false

namespace RichMarkdown

/-! ## Labels -/

set_option linter.unusedVariables false in
/-- The labels of the directives in a text, in order. -/
def textLabels (cs : List Char) : List String :=
  match h : InlineMatch.find? cs with
  | none => []
  | some m => m.head.label.getD "" :: textLabels m.after
termination_by cs.length
decreasing_by exact InlineMatch.length_after h

mutual

/-- The labels in an inline that are read when it is expanded. -/
def Inline.labels : Inline → List String
  | .text s => textLabels s.toList
  | .marked _ children => inlinesLabels children
  | _ => []

def inlinesLabels : List Inline → List String
  | [] => []
  | i :: is => i.labels ++ inlinesLabels is

end

theorem length_textLabels {cs : List Char} {label : String} (h : label ∈ textLabels cs) :
    label.length < cs.length := by
  fun_induction textLabels cs with
  | case1 => cases h
  | case2 cs m hfind ih =>
    obtain ⟨found, source, hlabel, heq, hlength⟩ := InlineMatch.find?_eq_some hfind
    have hcs := congrArg List.length heq
    simp only [List.length_append, List.length_cons] at hcs
    rcases List.mem_cons.mp h with rfl | h
    · rw [hlabel, Option.getD_some]
      omega
    · have := ih h
      omega

mutual

theorem Inline.length_labels {label : String} :
    ∀ {i : Inline}, label ∈ i.labels → label.length < i.textSize
  | .text s, h => by
    have := length_textLabels h
    rwa [String.length_toList] at this
  | .marked _ _, h => length_labels h
  | .code _, h | .softBreak, h | .lineBreak, h | .html _, h | .footnote _, h | .image _ _ _, h
  | .directive _ _ _, h => by cases h

/-- A label is shorter than the text around it. -/
theorem length_labels {label : String} :
    ∀ {is : List Inline}, label ∈ inlinesLabels is → label.length < textSize is
  | [], h => by cases h
  | i :: is, h => by
    rw [textSize]
    rcases List.mem_append.mp h with h | h
    · exact Nat.lt_add_right _ (Inline.length_labels h)
    · exact Nat.lt_add_left _ (length_labels h)

end

/-! ## One call -/

section

variable {read read' : String → List Inline}

/-- What an inline becomes, given whether a directive was found in the texts next to it. -/
def Inline.expansion (read : String → List Inline) (found : Bool) : Inline → List Inline
  | .text s => if found then expandText read s.toList else [.text s]
  | .marked mark children => [.marked mark (expandInlinesWith read children)]
  | i => [i]

theorem expandEach_eq_map (is : List Inline) :
    expandEach read is = is.map (Inline.expandWithin read) := by
  induction is with
  | nil => rfl
  | cons i is ih => rw [expandEach, ih, List.map_cons]

theorem expandInlinesWith_eq (is : List Inline) :
    expandInlinesWith read is =
      is.flatMap (Inline.expansion read (is.any Inline.hasDirective)) := by
  -- what stands inside of marks has no say in which texts are looked at
  have hany : (is.map (Inline.expandWithin read)).any Inline.hasDirective =
      is.any Inline.hasDirective := by
    rw [List.any_map]
    congr 1
    funext i
    cases i <;> simp [Inline.expandWithin, Inline.hasDirective]
  rw [expandInlinesWith, expandHere, expandEach_eq_map, hany]
  cases is.any Inline.hasDirective with
  | true =>
    rw [if_pos rfl, List.flatMap_map]
    congr 1
    funext i
    cases i <;>
      simp [Inline.expandWithin, Inline.expandHere, Inline.expansion, expandInlinesWith]
  | false =>
    rw [if_neg Bool.false_ne_true, List.map_eq_flatMap]
    congr 1
    funext i
    cases i <;> simp [Inline.expandWithin, Inline.expansion, expandInlinesWith]

theorem expandText_of_none {cs : List Char} (h : InlineMatch.find? cs = none) :
    expandText read cs = textNode cs := by
  rw [expandText]
  split
  · rfl
  · rename_i hsome
    rw [h] at hsome
    cases hsome

theorem expandText_of_some {cs : List Char} {m : InlineMatch}
    (h : InlineMatch.find? cs = some m) :
    expandText read cs = textNode m.before ++
      .directive m.head.name m.head.attributes (read (m.head.label.getD "")) ::
        expandText read m.after := by
  rw [expandText]
  split
  · rename_i hnone
    rw [h] at hnone
    cases hnone
  · rename_i hsome
    obtain rfl := Option.some.inj (h.symm.trans hsome)
    rfl

theorem expandText_congr {cs : List Char} (h : ∀ label ∈ textLabels cs, read label = read' label) :
    expandText read cs = expandText read' cs := by
  fun_induction textLabels cs with
  | case1 cs hfind => rw [expandText_of_none hfind, expandText_of_none hfind]
  | case2 cs m hfind ih =>
    obtain ⟨hlabel, hafter⟩ := List.forall_mem_cons.mp h
    rw [expandText_of_some hfind, expandText_of_some hfind, hlabel, ih hafter]

mutual

theorem Inline.expansion_congr (found : Bool) : ∀ {i : Inline},
    (∀ label ∈ i.labels, read label = read' label) →
    i.expansion read found = i.expansion read' found
  | .text s, h => by rw [Inline.expansion, Inline.expansion, expandText_congr h]
  | .marked mark children, h => by
    rw [Inline.expansion, Inline.expansion, expandInlinesWith_eq, expandInlinesWith_eq,
      flatMap_congr _ h]
  | .code _, _ | .softBreak, _ | .lineBreak, _ | .html _, _ | .footnote _, _ | .image _ _ _, _
  | .directive _ _ _, _ => rfl

theorem flatMap_congr (found : Bool) : ∀ {is : List Inline},
    (∀ label ∈ inlinesLabels is, read label = read' label) →
    is.flatMap (Inline.expansion read found) = is.flatMap (Inline.expansion read' found)
  | [], _ => rfl
  | i :: is, h => by
    obtain ⟨hi, his⟩ := List.forall_mem_append.mp h
    rw [List.flatMap_cons, List.flatMap_cons, Inline.expansion_congr found hi,
      flatMap_congr found his]

end

/-- Only what is read from the labels matters. -/
theorem expandInlinesWith_congr {is : List Inline}
    (h : ∀ label ∈ inlinesLabels is, read label = read' label) :
    expandInlinesWith read is = expandInlinesWith read' is := by
  rw [expandInlinesWith_eq, expandInlinesWith_eq, flatMap_congr _ h]

end

/-! ## All calls -/

/-- An expansion of inlines whose calls come to an end, and what it gives. -/
inductive Expands (g : Grammar) (o : Options) : List Inline → List Inline → Prop
  /-- What is read from each label is an expansion of the inlines of the label. -/
  | call {is : List Inline} (read : String → List Inline) :
      (∀ label ∈ inlinesLabels is, Expands g o (g.label o label) (read label)) →
      Expands g o is (expandInlinesWith read is)

/-- No label holds more characters of text than it is written with, where only the texts count that
may hold directives. -/
def Grammar.LabelsFit (g : Grammar) (o : Options) : Prop :=
  ∀ label, textSize (g.label o label) ≤ label.length

variable {g : Grammar} {o : Options} {is out : List Inline}

theorem Expands.unique {out' : List Inline} (h : Expands g o is out) (h' : Expands g o is out') :
    out = out' := by
  induction h generalizing out' with
  | call read _ ih =>
    obtain ⟨read', hread'⟩ := h'
    exact expandInlinesWith_congr fun label hlabel => ih label hlabel (hread' label hlabel)

/-- A depth of the length of a label is enough for it. -/
theorem expands_readLabelTo (hg : g.LabelsFit o) : ∀ {depth : Nat} {label : String},
    label.length ≤ depth → Expands g o (g.label o label) (readLabelTo g o depth label)
  | 0, label, h => by
    -- a label of no characters has no inlines, so no call is cut off
    obtain rfl : label = "" := String.length_eq_zero_iff.mp (Nat.le_zero.mp h)
    exact .call (fun _ => []) nofun
  | depth + 1, label, h =>
    .call (readLabelTo g o depth) fun inner hinner =>
      expands_readLabelTo hg (Nat.le_of_lt_succ
        ((length_labels hinner).trans_le ((hg label).trans h)))

/-- **Expansion comes to an end** when labels fit, and gives one result. -/
theorem expands_iff (hg : g.LabelsFit o) :
    Expands g o is out ↔ out = expandInlines g o is := by
  have hexpands : Expands g o is (expandInlines g o is) :=
    .call _ fun _ hlabel => expands_readLabelTo hg (length_labels hlabel).le
  constructor
  · exact fun h => h.unique hexpands
  · rintro rfl
    exact hexpands

/-- The depth at which `expandInlines` stops is never reached. -/
theorem expandInlines_eq (hg : g.LabelsFit o) (is : List Inline) :
    expandInlines g o is =
      expandInlinesWith (fun label => expandInlines g o (g.label o label)) is := by
  have hcalls : Expands g o is
      (expandInlinesWith (fun label => expandInlines g o (g.label o label)) is) :=
    .call _ fun _ _ => (expands_iff hg).mpr rfl
  exact ((expands_iff hg).mp hcalls).symm

end RichMarkdown
