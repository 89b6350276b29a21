import RichMarkdown.Markdown.Assembly
import RichMarkdown.Command.Split
import RichMarkdown.Proofs.Html.Siblings
import RichMarkdown.Proofs.Text.Digits

/-!
# Seams between blocks

Whether the texts of two neighbouring blocks are apart in a page. A reader sees a page as letters
and gaps (`Sign`): a blank character is a gap, and so are a line break and every tag that is not
inline. Two texts are apart when there is a gap between the last letter of the first and the first
letter of the second (`Apart`), which only the ends of the two decide (`apart_iff`). A paragraph or
a command has a gap at both ends, its tags, unless it is directly in an item of a tight list, where
it is written without tags (`adds_block`).

* `neighbours_apart_iff`: neighbours are apart exactly when they are not directly in an item of a
  tight list, or what they hold has a gap at the seam.
-/

set_option autoImplicit false

namespace RichMarkdown

namespace Html

/-! ## Signs -/

/-- What a reader sees: something of a text, or something that keeps texts apart. -/
inductive Sign where
  | letter
  | gap
  deriving DecidableEq, Repr

def charSign (c : Char) : Sign := if Text.isBlank c then .gap else .letter

def textSigns (s : String) : List Sign := s.toList.map charSign

/-- Whether an element is part of a line of text. -/
def Tag.isInline : Tag → Bool
  | .a | .code | .em | .img | .input | .s | .span | .strong | .sub | .sup => true
  | _ => false

def tagSigns (tag : Tag) : List Sign := if tag.isInline then [] else [.gap]

/-- What a reader sees of a piece, who may read raw markup in any way. -/
def Piece.signs (raw : String → List Sign) : Piece → List Sign
  | .startTag tag _ => tagSigns tag
  | .endTag tag => tagSigns tag
  | .text s => textSigns s
  | .raw s => raw s

def signs (raw : String → List Sign) (ps : List Piece) : List Sign := ps.flatMap (Piece.signs raw)

/-- The texts of two parts of a page, one right after the other: when both have letters, there is a
gap between the last letter of the first and the first letter of the second. -/
def Apart (xs ys : List Sign) : Prop :=
  ∀ front between between' back, xs = front ++ .letter :: between →
    ys = between' ++ .letter :: back → .letter ∉ between → .letter ∉ between' →
      .gap ∈ between ++ between'

section

variable {xs ys : List Sign}

/-- Only a letter at the end of the first part and one at the start of the second run together. -/
theorem apart_iff : Apart xs ys ↔ ¬ (xs.getLast? = some .letter ∧ ys.head? = some .letter) := by
  constructor
  · rintro h ⟨hlast, hhead⟩
    obtain ⟨front, rfl⟩ := List.getLast?_eq_some_iff.mp hlast
    obtain ⟨back, rfl⟩ := List.head?_eq_some_iff.mp hhead
    have hgap := h front [] [] back rfl rfl (List.not_mem_nil) (List.not_mem_nil)
    cases hgap
  · rintro h front between between' back rfl rfl hbetween hbetween'
    by_contra hgap
    rw [List.mem_append, not_or] at hgap
    -- without a gap there is nothing between the two letters
    have hnil (zs : List Sign) (hletter : .letter ∉ zs) (hgap : .gap ∉ zs) : zs = [] :=
      List.eq_nil_iff_forall_not_mem.mpr fun z hz => by
        cases z with
        | letter => exact hletter hz
        | gap => exact hgap hz
    rw [hnil between hbetween hgap.1, hnil between' hbetween' hgap.2] at h
    exact h ⟨List.getLast?_concat, rfl⟩

instance : Decidable (Apart xs ys) := decidable_of_iff _ apart_iff.symm

/-! ## Ends -/

/-- Two parts of a page with the same signs at their ends. -/
structure SameEnds (xs ys : List Sign) : Prop where
  head : xs.head? = ys.head?
  last : xs.getLast? = ys.getLast?

theorem SameEnds.refl (xs : List Sign) : SameEnds xs xs := ⟨rfl, rfl⟩

theorem SameEnds.append {xs' ys' : List Sign} (h : SameEnds xs ys) (h' : SameEnds xs' ys') :
    SameEnds (xs ++ xs') (ys ++ ys') where
  head := by rw [List.head?_append, List.head?_append, h.head, h'.head]
  last := by rw [List.getLast?_append, List.getLast?_append, h.last, h'.last]

theorem SameEnds.apart_iff {xs' ys' : List Sign} (h : SameEnds xs ys) (h' : SameEnds xs' ys') :
    Apart xs xs' ↔ Apart ys ys' := by
  rw [Html.apart_iff, Html.apart_iff, h.last, h'.head]

/-- Any number of letters is as good as one. -/
theorem sameEnds_letter (hne : xs ≠ []) (h : ∀ x ∈ xs, x = .letter) : SameEnds xs [.letter] where
  head := by
    rw [List.head?_eq_some_head hne, h _ (List.head_mem hne)]
    rfl
  last := by
    rw [List.getLast?_eq_some_getLast hne, h _ (List.getLast_mem hne)]
    rfl

theorem signs_append (raw : String → List Sign) (ps qs : List Piece) :
    signs raw (ps ++ qs) = signs raw ps ++ signs raw qs := List.flatMap_append

end

/-! ## Signs of inlines -/

mutual

/-- The signs of an inline; the number of a footnote counts as one letter. -/
def inlineSigns (raw : String → List Sign) : Inline → List Sign
  | .text s => textSigns s
  | .code s => textSigns s
  | .softBreak => [.gap]
  | .lineBreak => [.gap]
  | .html s => raw s
  | .footnote _ => [.letter]
  | .marked _ children => inlinesSigns raw children
  | .image _ _ _ => []
  | .directive name _ content => if isCommentName name then [] else inlinesSigns raw content

def inlinesSigns (raw : String → List Sign) : List Inline → List Sign
  | [] => []
  | i :: is => inlineSigns raw i ++ inlinesSigns raw is

end

/-- The signs of what a command holds: its argument, a space and its content. -/
def commandSigns (raw : String → List Sign) (c : Command) : List Sign :=
  (c.argument.elim [] fun argument =>
    textSigns argument ++ if c.content.isEmpty then [] else [.gap]) ++ inlinesSigns raw c.content

/-- The signs of what a paragraph or a command holds. -/
def blockSigns? (raw : String → List Sign) : Block → Option (List Sign)
  | .paragraph content => some (inlinesSigns raw content)
  | .command c => some (commandSigns raw c)
  | _ => none

/-! ## Signs of visits -/

/-- From any context the visit adds pieces with the signs at their ends. -/
def HasEnds (raw : String → List Sign) (v : Visit) (xs : List Sign) : Prop :=
  ∀ c, ∃ ps c', Adds v c ps c' ∧ SameEnds (signs raw ps) xs

section

variable {settings : Settings} {raw : String → List Sign} {v w : Visit} {xs ys : List Sign}

theorem hasEnds_id : HasEnds raw id [] :=
  fun c => ⟨[], c, fun out => by rw [write_nil, id], .refl _⟩

theorem HasEnds.seq (hv : HasEnds raw v xs) (hw : HasEnds raw w ys) :
    HasEnds raw (w ∘ v) (xs ++ ys) := by
  intro c
  obtain ⟨ps, c', hadds, hps⟩ := hv c
  obtain ⟨qs, c'', hadds', hqs⟩ := hw c'
  refine ⟨ps ++ qs, c'', hadds.seq hadds', ?_⟩
  rw [signs_append]
  exact hps.append hqs

theorem hasEnds_leaf {l : Leaf} (h : signs raw (leafPieces settings l) = xs) :
    HasEnds raw (Walk.leaf (backend settings) l) xs :=
  fun c => ⟨leafPieces settings l, c, fun _ => rfl, h ▸ .refl _⟩

/-- Frames of inline elements are not seen. -/
theorem HasEnds.framed {f : Frame} (hflow : f.defaultFlow = .enter)
    (hstart : signs raw (startPieces settings f) = [])
    (hfinish : signs raw (closingPieces f) = []) (hv : HasEnds raw v xs) :
    HasEnds raw (Walk.framed (backend settings) f v) xs := by
  intro c
  obtain ⟨ps, c', hadds, hps⟩ := hv c
  refine ⟨_, c', hadds.framed hflow, ?_⟩
  rw [signs_append, signs_append, hstart, hfinish, List.append_nil, List.nil_append]
  exact hps

theorem signs_text (s : String) : signs raw [.text s] = textSigns s := List.append_nil _

/-- The digits of a number are letters. -/
theorem sameEnds_number (n : Nat) : SameEnds (textSigns (toString n)) [.letter] := by
  refine sameEnds_letter ?_ fun x hx => ?_
  · rw [textSigns, Text.toList_toString, ne_eq, List.map_eq_nil_iff]
    exact Nat.toDigits_ne_nil
  · obtain ⟨c, hc, rfl⟩ := List.mem_map.mp hx
    exact if_neg (by simp [Text.isBlank_of_isDigit (Text.isDigit_of_mem_toString hc)])

theorem hasEnds_reference (label : String) :
    HasEnds raw (Walk.numbered label fun n =>
      Walk.leaf (backend settings) (.footnoteReference label n)) [.letter] := by
  intro c
  refine ⟨leafPieces settings (.footnoteReference label (c.footnoteNumber label).1),
    (c.footnoteNumber label).2, fun _ => rfl, ?_⟩
  have hsigns (n : Nat) : signs raw (leafPieces settings (.footnoteReference label n)) =
      textSigns (toString n) := List.append_nil _
  rw [hsigns]
  exact sameEnds_number _

theorem signs_markStart (mark : Mark) : signs raw (startPieces settings (.marked mark)) = [] := by
  cases mark <;> rfl

theorem signs_markFinish (mark : Mark) : signs raw (closingPieces (.marked mark)) = [] := by
  cases mark <;> rfl

mutual

theorem hasEnds_inline : ∀ i : Inline,
    HasEnds raw (Walk.inline (backend settings) i) (inlineSigns raw i)
  | .text s => hasEnds_leaf (signs_text s)
  | .code s => hasEnds_leaf (signs_text s)
  | .softBreak => hasEnds_leaf rfl
  | .lineBreak => hasEnds_leaf rfl
  | .html s => hasEnds_leaf (List.append_nil _)
  | .footnote label => hasEnds_reference label
  | .image _ _ _ => hasEnds_leaf rfl
  | .marked mark children =>
    (hasEnds_inlines children).framed rfl (signs_markStart mark) (signs_markFinish mark)
  | .directive name attributes content => by
    rw [inlineSigns]
    split
    · rename_i hname
      have hflow : (Frame.inlineDirective name attributes).defaultFlow = .skip := if_pos hname
      exact fun c => ⟨[], c, adds_skipped hflow _ c, .refl _⟩
    · rename_i hname
      have hflow : (Frame.inlineDirective name attributes).defaultFlow = .enter := if_neg hname
      exact (hasEnds_inlines content).framed hflow rfl rfl

theorem hasEnds_inlines : ∀ is : List Inline,
    HasEnds raw (Walk.inlines (backend settings) is) (inlinesSigns raw is)
  | [] => hasEnds_id
  | i :: is => (hasEnds_inline i).seq (hasEnds_inlines is)

end

theorem hasEnds_commandArgument (c : Command) :
    HasEnds raw (Walk.commandArgument (backend settings) c)
      (c.argument.elim [] fun argument =>
        textSigns argument ++ if c.content.isEmpty then [] else [.gap]) := by
  unfold Walk.commandArgument
  cases c.argument with
  | none => exact hasEnds_id
  | some argument =>
    refine (hasEnds_leaf (signs_text argument)).seq ?_
    cases c.content.isEmpty
    · exact hasEnds_leaf rfl
    · exact hasEnds_id

/-! ## Paragraphs -/

/-- The signs of a paragraph, whose tags are gaps unless it is tight. -/
def framedSigns (tight : Bool) (xs : List Sign) : List Sign :=
  if tight then xs else .gap :: (xs ++ [.gap])

theorem signs_paragraph (tight : Bool) (ps : List Piece) :
    signs raw (startPieces settings (.paragraph tight) ++
        (ps ++ closingPieces (.paragraph tight))) = framedSigns tight (signs raw ps) := by
  rw [signs_append, signs_append]
  cases tight with
  | true => exact List.append_nil _
  | false => rfl

theorem SameEnds.framed (tight : Bool) (h : SameEnds xs ys) :
    SameEnds (framedSigns tight xs) (framedSigns tight ys) := by
  cases tight with
  | true => exact h
  | false =>
    have hgap := SameEnds.refl [Sign.gap]
    exact hgap.append (h.append hgap)

theorem apart_framed (tight : Bool) :
    Apart (framedSigns tight xs) (framedSigns tight ys) ↔ tight = false ∨ Apart xs ys := by
  rw [apart_iff, apart_iff]
  cases tight with
  | true => simp [framedSigns]
  | false => simp [framedSigns]

theorem adds_paragraph {c : Context} (hv : HasEnds raw v xs) :
    ∃ ps c', Adds (Walk.paragraph (backend settings) v) c ps c' ∧
      SameEnds (signs raw ps) (framedSigns c.inTightItem xs) := by
  obtain ⟨ps, c', hadds, hps⟩ := hv c
  refine ⟨_, c', hadds.framed (f := .paragraph c.inTightItem) rfl, ?_⟩
  rw [signs_paragraph]
  exact hps.framed c.inTightItem

/-- Paragraphs and commands are written with tags around what they hold, and without in an item of a
tight list. -/
theorem adds_block (settings : Settings) {x : Block} (hx : blockSigns? raw x = some xs)
    (c : Context) :
    ∃ ps c', Adds (Walk.block (backend settings) x) c ps c' ∧
      SameEnds (signs raw ps) (framedSigns c.inTightItem xs) := by
  cases x with
  | paragraph content =>
    obtain rfl := Option.some.inj hx
    rw [Walk.block]
    exact adds_paragraph (hasEnds_inlines content)
  | command k =>
    obtain rfl := Option.some.inj hx
    have hinner : HasEnds raw
        (Walk.inlines (backend settings) k.content ∘ Walk.commandArgument (backend settings) k)
        (commandSigns raw k) := (hasEnds_commandArgument k).seq (hasEnds_inlines k.content)
    obtain ⟨ps, c', hadds, hps⟩ := adds_paragraph (c := c) hinner
    refine ⟨_, c', hadds.framed (f := .command k) rfl, ?_⟩
    have hbare : startPieces settings (.command k) ++ (ps ++ closingPieces (.command k)) = ps :=
      List.append_nil ps
    rwa [hbare]
  | _ => cases hx

/-! ## Neighbours -/

theorem kept_block (x : Block) (s : Walk.State PageState) :
    s.context.Kept (Walk.block (backend settings) x s).context :=
  (Walk.kept (backend settings)).block x (x.everyLeaf_of_forall fun _ => trivial) s

/-- Two neighbours are walked one right after the other, in the containers around them. -/
theorem contains_neighbours {pre post : List Block} {first second : Block} (c : Context) :
    ∃ d, d.containers = c.containers ∧
      Contains (Walk.blocks (backend settings) (pre ++ first :: second :: post)) c
        (Walk.block (backend settings) second ∘ Walk.block (backend settings) first) d := by
  obtain ⟨ps, d, hpre⟩ := (settled_blocks settings pre).adds c
  refine ⟨d, (hpre.kept (Walk.kept_blocks pre)).containers, ?_⟩
  have hfirst := settled_block settings first
  have hsecond := settled_block settings second
  rw [Walk.blocks_append]
  exact (contains_second hpre (settled_blocks settings (first :: second :: post))).trans
    (contains_first (hfirst.seq hsecond) (settled_blocks settings post) d)

/-- **Neighbours keep apart** exactly when they are not directly in an item of a tight list, or what
they hold has a gap at the seam. -/
theorem neighbours_apart_iff (settings : Settings) (raw : String → List Sign) {d : Document}
    {c : Context} {tight : Bool} {pre post : List Block} {first second : Block}
    {xs ys : List Sign} (h : Siblings c.inTightItem d tight (pre ++ first :: second :: post))
    (hfirst : blockSigns? raw first = some xs) (hsecond : blockSigns? raw second = some ys) :
    ∃ before ps qs after c₁ c₂ c₃,
      pagePieces settings d c = before ++ (ps ++ (qs ++ after)) ∧
        Adds (Walk.block (backend settings) first) c₁ ps c₂ ∧
        Adds (Walk.block (backend settings) second) c₂ qs c₃ ∧
        (Apart (signs raw ps) (signs raw qs) ↔ tight = false ∨ Apart xs ys) := by
  obtain ⟨c₀, htight, hsiblings⟩ := h.contains settings rfl
  obtain ⟨c₁, hcontainers, hneighbours⟩ := contains_neighbours c₀
  have htight₁ := (Context.inTightItem_congr hcontainers).trans htight
  obtain ⟨ps, c₂, hps, hpsEnds⟩ := adds_block settings hfirst c₁
  obtain ⟨qs, c₃, hqs, hqsEnds⟩ := adds_block settings hsecond c₂
  have htight₂ :=
    (Context.inTightItem_congr (hps.kept (kept_block first)).containers).trans htight₁
  obtain ⟨before, both, after, c', c'', hboth, hpage⟩ := hsiblings.trans hneighbours
  obtain rfl := hboth.unique (hps.seq hqs)
  refine ⟨before, ps, qs, after, c₁, c₂, c₃, ?_, hps, hqs, ?_⟩
  · rw [pagePieces_eq (congrArg Walk.State.out (hpage {})), List.append_assoc]
  · rw [htight₁] at hpsEnds
    rw [htight₂] at hqsEnds
    rw [hpsEnds.apart_iff hqsEnds, apart_framed]

end

/-- A paragraph and a command in a block quote. -/
def quotedNote : Document :=
  [.quote none [.paragraph [.text "a"], .command ⟨"note", none, [.text "b"]⟩]]

theorem apart_quotedNote : Siblings false quotedNote false
      ([] ++ .paragraph [.text "a"] :: .command ⟨"note", none, [.text "b"]⟩ :: []) ∧
    ∃ before ps qs after, pagePieces {} quotedNote {} = before ++ (ps ++ (qs ++ after)) ∧
      Apart (signs (fun _ => []) ps) (signs (fun _ => []) qs) := by
  have hplace : Siblings false quotedNote false
      ([] ++ .paragraph [.text "a"] :: .command ⟨"note", none, [.text "b"]⟩ :: []) :=
    .quote List.mem_cons_self .here
  obtain ⟨before, ps, qs, after, -, -, -, hpage, -, -, hapart⟩ :=
    neighbours_apart_iff {} (fun _ => []) (c := {}) hplace rfl rfl
  exact ⟨hplace, before, ps, qs, after, hpage, hapart.mpr (.inl rfl)⟩

/-- A tight list whose item has a command on its second line. -/
def itemNote : List Event :=
  [.start (.list none), .start .item, .text "a", .softBreak, .text "\\note b", .finish, .finish]

/-- The command of a tight item runs on from the paragraph before it. -/
theorem not_apart_itemNote :
    Siblings false (splitCommands (Document.ofEvents itemNote)) true
      ([] ++ .paragraph [.text "a"] :: .command ⟨"note", none, [.text "b"]⟩ :: []) ∧
    pagePieces {} (splitCommands (Document.ofEvents itemNote)) {} =
      [plainTag .ul, plainTag .li] ++
        ([.text "a"] ++ ([.text "b"] ++ [.endTag .li, .endTag .ul])) ∧
    ¬ Apart (signs (fun _ => []) [.text "a"]) (signs (fun _ => []) [.text "b"]) := by
  have hdocument : splitCommands (Document.ofEvents itemNote) = [.list none true
      [⟨none, [.paragraph [.text "a"], .command ⟨"note", none, [.text "b"]⟩]⟩]] := by
    rfl
  rw [hdocument]
  exact ⟨.item List.mem_cons_self List.mem_cons_self .here, rfl, by decide⟩

end Html

end RichMarkdown
