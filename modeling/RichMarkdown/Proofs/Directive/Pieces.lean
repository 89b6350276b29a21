import RichMarkdown.Proofs.Directive.Expansion
import RichMarkdown.Proofs.Text.Bytes

/-!
# What stands in the place of a text

Expansion cuts every text into pieces (`TextPieces`): plain text in which nothing is found any more,
and directives. The sources of the pieces, in order, are the text, so nothing of it is lost. All
other inlines keep their places (`InlinesReplaced`).

No text of the result holds a directive, since what is before a match holds no other one. So a
second expansion finds nothing: the texts between directives are looked at again, but not the
directives.

* `replaced_expandInlinesWith`: each inline is replaced in its place.
* `expandInlinesWith_idem`: a second expansion changes nothing.
-/

set_option autoImplicit false

namespace RichMarkdown

/-! ## Pieces of a text -/

/-- A piece of a text: where it comes from, and the inline that stands for it. -/
structure TextPiece where
  source : List Char
  inline : Inline

namespace TextPiece

/-- A text without a directive. -/
structure IsPlain (p : TextPiece) : Prop where
  inline_eq : p.inline = .text (String.ofList p.source)
  none_found : InlineMatch.find? p.source = none

/-- The first directive of a text, with a content that its label may have. -/
structure IsMatch (contents : String → List Inline → Prop) (p : TextPiece) (text : List Char)
    (m : InlineMatch) : Prop where
  found : InlineMatch.find? text = some m
  start_lt : m.start < m.stop text
  stop_le : m.stop text ≤ Text.byteLength text
  start_boundary : Text.isBoundary m.start text = true
  stop_boundary : Text.isBoundary (m.stop text) text = true
  slice : Text.slice? m.start (m.stop text) text = some p.source
  inline_eq : ∃ label content, m.head.label = some label ∧ contents label content ∧
    p.inline = .directive m.head.name m.head.attributes content

/-- The pieces of a text that stays as it is, unless it is empty. -/
def plain : List Char → List TextPiece
  | [] => []
  | cs => [⟨cs, .text (String.ofList cs)⟩]

theorem map_plain (cs : List Char) : (plain cs).map inline = textNode cs := by
  cases cs <;> rfl

theorem sources_plain (cs : List Char) : (plain cs).flatMap source = cs := by
  cases cs <;> simp [plain]

end TextPiece

/-- **Pieces that make up a text.** Every piece is plain, or the first match in a rest of the text,
and what is after the match are the pieces behind it. -/
structure TextPieces (contents : String → List Inline → Prop) (text : List Char)
    (pieces : List TextPiece) : Prop where
  sources : pieces.flatMap TextPiece.source = text
  each : ∀ p behind, p :: behind <:+ pieces → p.IsPlain ∨
    ∃ rest m, rest <:+ text ∧ m.after = behind.flatMap TextPiece.source ∧ p.IsMatch contents rest m

section

variable {contents : String → List Inline → Prop} {read : String → List Inline}

theorem textPieces_single {cs : List Char} (h : InlineMatch.find? cs = none) :
    TextPieces contents cs [⟨cs, .text (String.ofList cs)⟩] := by
  refine ⟨by simp, fun p behind hsuffix => .inl ?_⟩
  rcases List.suffix_cons_iff.mp hsuffix with heq | hnil
  · obtain ⟨rfl, -⟩ := List.cons_eq_cons.mp heq
    exact ⟨rfl, h⟩
  · cases List.suffix_nil.mp hnil

theorem textPieces_plain {cs : List Char} (h : InlineMatch.find? cs = none) :
    TextPieces contents cs (TextPiece.plain cs) := by
  cases cs with
  | nil => exact ⟨rfl, fun p behind hnil => by cases List.suffix_nil.mp hnil⟩
  | cons c cs => exact textPieces_single h

/-- The piece of a match. -/
theorem exists_isMatch {text : List Char} {m : InlineMatch} (h : InlineMatch.find? text = some m)
    (hread : contents (m.head.label.getD "") (read (m.head.label.getD ""))) :
    ∃ source, text = m.before ++ (source ++ m.after) ∧
      TextPiece.IsMatch contents ⟨source, .directive m.head.name m.head.attributes
        (read (m.head.label.getD ""))⟩ text m := by
  obtain ⟨label, source, hlabel, htext, -⟩ := InlineMatch.find?_eq_some h
  rw [hlabel, Option.getD_some] at hread ⊢
  have hstop : m.stop text = Text.byteLength m.before + Text.byteLength (':' :: source) := by
    rw [InlineMatch.stop, htext, Text.byteLength_append, Text.byteLength_append]
    omega
  have hpos := Text.byteLength_pos (List.cons_ne_nil ':' source)
  refine ⟨':' :: source, htext, h, ?_, Nat.sub_le _ _, ?_, ?_, ?_, label, _, hlabel, hread, rfl⟩
  · rw [hstop, InlineMatch.start]
    omega
  · rw [htext]
    exact Text.isBoundary_byteLength _ _
  · rw [hstop, ← Text.byteLength_append, htext, ← List.append_assoc]
    exact Text.isBoundary_byteLength _ _
  · rw [hstop, InlineMatch.start, htext]
    exact Text.slice?_byteLength _ _ _

/-- The pieces of what is after a match, with the match and what is before it. -/
theorem TextPieces.found {text : List Char} {m : InlineMatch} {p : TextPiece}
    {pieces : List TextPiece} (h : TextPieces contents m.after pieces)
    (hp : p.IsMatch contents text m) (htext : text = m.before ++ (p.source ++ m.after)) :
    TextPieces contents text (TextPiece.plain m.before ++ p :: pieces) := by
  have hafter : m.after <:+ text := by
    rw [htext, ← List.append_assoc]
    exact List.suffix_append _ _
  refine ⟨?_, fun q behind hsuffix => ?_⟩
  · rw [List.flatMap_append, List.flatMap_cons, TextPiece.sources_plain, h.sources, ← htext]
  · have htail (hsuffix : q :: behind <:+ p :: pieces) : q.IsPlain ∨ ∃ rest m, rest <:+ text ∧
        m.after = behind.flatMap TextPiece.source ∧ q.IsMatch contents rest m := by
      rcases List.suffix_cons_iff.mp hsuffix with heq | hlater
      · obtain ⟨rfl, rfl⟩ := List.cons_eq_cons.mp heq
        exact .inr ⟨text, m, List.suffix_rfl, h.sources.symm, hp⟩
      · -- a rest of what is after the match is a rest of the text
        obtain hplain | ⟨rest, m', hrest, hmatch⟩ := h.each q behind hlater
        · exact .inl hplain
        · exact .inr ⟨rest, m', hrest.trans hafter, hmatch⟩
    -- what is before the match is looked at without what follows it, and still holds no directive
    have hnone := InlineMatch.find?_before hp.found
    cases hbefore : m.before with
    | nil =>
      rw [hbefore] at hsuffix
      exact htail hsuffix
    | cons c cs =>
      rw [hbefore] at hsuffix hnone
      rcases List.suffix_cons_iff.mp hsuffix with heq | hlater
      · obtain ⟨rfl, -⟩ := List.cons_eq_cons.mp heq
        exact .inl ⟨rfl, hnone⟩
      · exact htail hlater

/-- **A text is replaced by its pieces.** -/
theorem exists_textPieces {cs : List Char}
    (h : ∀ label ∈ textLabels cs, contents label (read label)) :
    ∃ pieces, TextPieces contents cs pieces ∧
      expandText read cs = pieces.map TextPiece.inline := by
  fun_induction textLabels cs with
  | case1 cs hfind =>
    refine ⟨TextPiece.plain cs, textPieces_plain hfind, ?_⟩
    rw [expandText_of_none hfind, TextPiece.map_plain]
  | case2 cs m hfind ih =>
    obtain ⟨hlabel, hafter⟩ := List.forall_mem_cons.mp h
    obtain ⟨source, htext, hmatch⟩ := exists_isMatch hfind hlabel
    obtain ⟨pieces, hpieces, hexpand⟩ := ih hafter
    refine ⟨_, hpieces.found hmatch htext, ?_⟩
    rw [expandText_of_some hfind, hexpand, List.map_append, TextPiece.map_plain, List.map_cons]

end

/-! ## Inlines -/

/-- Whether an inline stays as it is, with all that it holds. -/
def Inline.isKept : Inline → Bool
  | .text _ | .marked _ _ => false
  | _ => true

mutual

/-- What an inline is replaced by: a text by pieces that make it up, a mark by the same mark. -/
inductive Inline.Replaced (contents : String → List Inline → Prop) : Inline → List Inline → Prop
  | text {s : String} {pieces : List TextPiece} : TextPieces contents s.toList pieces →
      Inline.Replaced contents (.text s) (pieces.map TextPiece.inline)
  | marked (mark : Mark) {is js : List Inline} : InlinesReplaced contents is js →
      Inline.Replaced contents (.marked mark is) [.marked mark js]
  | kept {i : Inline} : i.isKept = true → Inline.Replaced contents i [i]

/-- Inlines of which each is replaced in its place. -/
inductive InlinesReplaced (contents : String → List Inline → Prop) :
    List Inline → List Inline → Prop
  | nil : InlinesReplaced contents [] []
  | cons {i : Inline} {is js out : List Inline} : Inline.Replaced contents i js →
      InlinesReplaced contents is out → InlinesReplaced contents (i :: is) (js ++ out)

end

section

variable {contents : String → List Inline → Prop} {read : String → List Inline}

mutual

theorem Inline.replaced_expansion {found : Bool} : ∀ {i : Inline},
    (∀ label ∈ i.labels, contents label (read label)) →
    (found = false → i.hasDirective = false) →
    Inline.Replaced contents i (i.expansion read found)
  | .text s, hlabels, hfound => by
    rw [Inline.expansion]
    cases found with
    | true =>
      obtain ⟨pieces, hpieces, hexpand⟩ := exists_textPieces hlabels
      rw [if_pos rfl, hexpand]
      exact .text hpieces
    | false =>
      -- the text stays, even an empty one, since no text beside it holds a directive
      have hnone : InlineMatch.find? s.toList = none := by
        simpa [Inline.hasDirective] using hfound rfl
      have hsingle : TextPieces contents s.toList [⟨s.toList, .text (String.ofList s.toList)⟩] :=
        textPieces_single hnone
      have hreplaced := Inline.Replaced.text hsingle
      rwa [List.map_singleton, String.ofList_toList] at hreplaced
  | .marked mark children, hlabels, _ => by
    rw [Inline.expansion, expandInlinesWith_eq]
    exact .marked mark (replaced_flatMap hlabels id)
  | .code _, _, _ | .softBreak, _, _ | .lineBreak, _, _ | .html _, _, _ | .footnote _, _, _
  | .image _ _ _, _, _ | .directive _ _ _, _, _ => .kept rfl

theorem replaced_flatMap {found : Bool} : ∀ {is : List Inline},
    (∀ label ∈ inlinesLabels is, contents label (read label)) →
    (found = false → is.any Inline.hasDirective = false) →
    InlinesReplaced contents is (is.flatMap (Inline.expansion read found))
  | [], _, _ => .nil
  | i :: is, hlabels, hfound => by
    obtain ⟨hi, his⟩ := List.forall_mem_append.mp hlabels
    simp only [List.any_cons, Bool.or_eq_false_iff] at hfound
    rw [List.flatMap_cons]
    exact .cons (Inline.replaced_expansion hi fun h => (hfound h).1)
      (replaced_flatMap his fun h => (hfound h).2)

end

/-- **Inlines are replaced one by one.** -/
theorem replaced_expandInlinesWith {is : List Inline}
    (h : ∀ label ∈ inlinesLabels is, contents label (read label)) :
    InlinesReplaced contents is (expandInlinesWith read is) := by
  rw [expandInlinesWith_eq]
  exact replaced_flatMap h id

/-! ## A second expansion -/

mutual

/-- In no text of an inline a directive is found, apart from what stays as it is. -/
def Inline.Settled : Inline → Prop
  | .text s => InlineMatch.find? s.toList = none
  | .marked _ children => inlinesSettled children
  | _ => True

def inlinesSettled : List Inline → Prop
  | [] => True
  | i :: is => i.Settled ∧ inlinesSettled is

end

theorem inlinesSettled_iff {is : List Inline} : inlinesSettled is ↔ ∀ i ∈ is, i.Settled := by
  induction is with
  | nil => simp [inlinesSettled]
  | cons i is ih => rw [inlinesSettled, ih, List.forall_mem_cons]

theorem TextPieces.settled {text : List Char} {pieces : List TextPiece}
    (h : TextPieces contents text pieces) {p : TextPiece} (hp : p ∈ pieces) : p.inline.Settled := by
  obtain ⟨front, behind, rfl⟩ := List.append_of_mem hp
  obtain hplain | ⟨rest, m, -, -, hmatch⟩ := h.each p behind (List.suffix_append _ _)
  · rw [hplain.inline_eq, Inline.Settled, String.toList_ofList]
    exact hplain.none_found
  · obtain ⟨label, content, -, -, heq⟩ := hmatch.inline_eq
    rw [heq]
    trivial

mutual

theorem Inline.Replaced.settled : ∀ {i : Inline} {js : List Inline},
    i.Replaced contents js → inlinesSettled js
  | _, _, .text h => by
    rw [inlinesSettled_iff, List.forall_mem_map]
    exact fun p hp => h.settled hp
  | _, _, .marked _ h => ⟨h.settled, trivial⟩
  | i, _, .kept h => by
    refine ⟨?_, trivial⟩
    cases i with
    | text | marked => cases h
    | _ => trivial

theorem InlinesReplaced.settled : ∀ {is out : List Inline},
    InlinesReplaced contents is out → inlinesSettled out
  | _, _, .nil => trivial
  | _, _, .cons h hs => by
    rw [inlinesSettled_iff, List.forall_mem_append, ← inlinesSettled_iff, ← inlinesSettled_iff]
    exact ⟨h.settled, hs.settled⟩

end

theorem Inline.Settled.hasDirective {i : Inline} (h : i.Settled) : i.hasDirective = false := by
  cases i with
  | text => rw [Inline.hasDirective, h]; rfl
  | _ => rfl

theorem any_hasDirective_of_settled {is : List Inline} (h : inlinesSettled is) :
    is.any Inline.hasDirective = false :=
  List.any_eq_false.mpr fun i hi =>
    Bool.eq_false_iff.mp (inlinesSettled_iff.mp h i hi).hasDirective

mutual

theorem Inline.Settled.expansion : ∀ {i : Inline}, i.Settled → i.expansion read false = [i]
  | .text _, _ => rfl
  | .marked _ _, h => by
    rw [Inline.expansion, expandInlinesWith_eq, any_hasDirective_of_settled h, flatMap_settled h]
  | .code _, _ | .softBreak, _ | .lineBreak, _ | .html _, _ | .footnote _, _ | .image _ _ _, _
  | .directive _ _ _, _ => rfl

theorem flatMap_settled : ∀ {is : List Inline}, inlinesSettled is →
    is.flatMap (Inline.expansion read false) = is
  | [], _ => rfl
  | i :: is, h => by
    rw [List.flatMap_cons, h.1.expansion, flatMap_settled h.2, List.singleton_append]

end

/-- Nothing is expanded where nothing is found. -/
theorem expandInlinesWith_of_settled {is : List Inline} (h : inlinesSettled is) :
    expandInlinesWith read is = is := by
  rw [expandInlinesWith_eq, any_hasDirective_of_settled h, flatMap_settled h]

/-- A second expansion changes nothing, however labels are read. -/
theorem expandInlinesWith_idem {read' : String → List Inline} (is : List Inline) :
    expandInlinesWith read' (expandInlinesWith read is) = expandInlinesWith read is := by
  have hreplaced : InlinesReplaced (fun _ _ => True) is (expandInlinesWith read is) :=
    replaced_expandInlinesWith fun _ _ => trivial
  exact expandInlinesWith_of_settled hreplaced.settled

end

end RichMarkdown
