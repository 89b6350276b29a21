import RichMarkdown.Proofs.Document.Comments
import RichMarkdown.Proofs.Document.Contexts
import RichMarkdown.Proofs.Walk.Congruence

/-!
# Walks of two documents

Two documents that differ at most inside comments are walked in step: the frames of the one are the
frames of the other (`Frame.Alike`), and only the texts that are read flat may differ.
`Walk.Comparison b P` lists what a relation `P` between two visits and the flat texts of what they
visit must be closed under; then it holds of the walks of two such documents
(`Walk.Comparison.blocks`).

* `Walk.Discreet.document_eq`: a backend that skips comments, and reads no more of other frames than
  their flat texts, makes the same of both documents when their flat texts are equal.
-/

set_option autoImplicit false

namespace RichMarkdown

/-- Two frames that differ at most inside comments, with the texts that are read flat for each. -/
inductive Frame.Alike : Frame → Frame → List String → List String → Prop
  | same (f : Frame) : Frame.Alike f f [] []
  | table (t t' : Table) : Frame.Alike (.table t) (.table t') [] []
  | command (c c' : Command) : Frame.Alike (.command c) (.command c') [] []
  | directive (name : String) (kind : DirectiveKind) (label label' : List Inline)
      (attributes : Attributes) :
      Frame.Alike (.directive ⟨name, kind, label, attributes⟩)
        (.directive ⟨name, kind, label', attributes⟩) (titleTexts name label)
        (titleTexts name label')

theorem Frame.Alike.defaultFlow_eq {f f' : Frame} {ts ts' : List String}
    (h : f.Alike f' ts ts') : f.defaultFlow = f'.defaultFlow := by
  cases h <;> rfl

theorem Frame.Alike.length_eq {f f' : Frame} {ts ts' : List String} (h : f.Alike f' ts ts') :
    ts.length = ts'.length := by
  cases h with
  | directive name kind label label' attributes => simp [titleTexts]
  | _ => rfl

namespace Walk

variable {σ : Type}

/-- A relation between two visits, with the flat texts of what each visits, that is kept by all that
the walks of two documents are made of. -/
structure Comparison (b : Backend σ)
    (P : (State σ → State σ) → (State σ → State σ) → List String → List String → Prop) :
    Prop where
  idle : P id id [] []
  seq {v v' w w' ts ts' us us'} : P v v' ts ts' → P w w' us us' →
    P (w ∘ v) (w' ∘ v') (ts ++ us) (ts' ++ us')
  paragraph {v v' ts ts'} : P v v' ts ts' → P (paragraph b v) (paragraph b v') ts ts'
  inside (c : Container) {v v' ts ts'} : P v v' ts ts' → P (inside c v) (inside c v') ts ts'
  numbered (label : String) {v v' : Nat → State σ → State σ} {ts ts'} :
    (∀ n, P (v n) (v' n) ts ts') → P (numbered label v) (numbered label v') ts ts'
  leaf (l : Leaf) : P (leaf b l) (leaf b l) [] []
  image (source title alt alt' : String) :
    P (Walk.leaf b (.image source title alt)) (Walk.leaf b (.image source title alt')) [alt] [alt']
  framed {f f' ts ts' v v' us us'} : f.Alike f' ts ts' → f.defaultFlow = .enter → P v v' us us' →
    P (framed b f v) (framed b f' v') (ts ++ us) (ts' ++ us')
  headed (level : Nat) (text text' : String) {v v' ts ts'} : P v v' ts ts' →
    P (headed b level text v) (headed b level text' v') (Text.trimmed text :: ts)
      (Text.trimmed text' :: ts')
  /-- What is in frames that are skipped does not matter. -/
  comment {f f' : Frame} (v v' : State σ → State σ) : f.defaultFlow = .skip →
    f'.defaultFlow = .skip → P (Walk.framed b f v) (Walk.framed b f' v') [] []

namespace Comparison

variable {b : Backend σ}
  {P : (State σ → State σ) → (State σ → State σ) → List String → List String → Prop}
  (h : Comparison b P)
include h

/-- The frames of most visits have no flat texts of their own. -/
theorem plainFramed {f f' : Frame} (hf : f.Alike f' [] []) (hflow : f.defaultFlow = .enter)
    {v v' : State σ → State σ} {ts ts' : List String} (hv : P v v' ts ts') :
    P (Walk.framed b f v) (Walk.framed b f' v') ts ts' :=
  h.framed hf hflow hv

/-! ### Inlines -/

mutual

theorem inline : ∀ {i j : Inline}, i.Alike j →
    P (Walk.inline b i) (Walk.inline b j) i.flatTexts j.flatTexts
  | _, _, .text _ | _, _, .code _ | _, _, .softBreak | _, _, .lineBreak | _, _, .html _ => h.leaf _
  | _, _, .footnote label => h.numbered label fun n => h.leaf _
  | _, _, .marked mark hs => h.plainFramed (.same _) rfl (inlines hs)
  | _, _, .image source title hs => h.image source title _ _
  | .directive name _ _, _, .directive _ attributes hs => by
    by_cases hn : isCommentName name = true
    · simp only [Inline.flatTexts, hn, if_true]
      exact h.comment _ _ (if_pos hn) (if_pos hn)
    · have hflow : (Frame.inlineDirective name attributes).defaultFlow = .enter := if_neg hn
      simp only [Inline.flatTexts, hn]
      exact h.plainFramed (.same _) hflow (inlines hs)
  | .directive name _ _, _, .comment _ _ _ _ hn => by
    simp only [Inline.flatTexts, hn, if_true]
    exact h.comment _ _ (if_pos hn) (if_pos hn)

theorem inlines : ∀ {is js : List Inline}, InlinesAlike is js →
    P (Walk.inlines b is) (Walk.inlines b js) (inlinesFlatTexts is) (inlinesFlatTexts js)
  | _, _, .nil => h.idle
  | _, _, .cons hi hs => h.seq (inline hi) (inlines hs)

end

theorem cells (t t' : Table) (header : Bool) (ha : t.alignments = t'.alignments) :
    ∀ (column : Nat) {cs cs' : List (List Inline)}, RowAlike cs cs' →
    P (Walk.cells b t header column cs) (Walk.cells b t' header column cs') (rowFlatTexts cs)
      (rowFlatTexts cs')
  | _, _, _, .nil => h.idle
  | column, _, _, .cons hc hs => by
    have halign : t.alignment column = t'.alignment column := by
      rw [Table.alignment, Table.alignment, ha]
    unfold Walk.cells
    rw [halign]
    exact h.seq (h.plainFramed (.same _) rfl (h.inlines hc)) (cells t t' header ha (column + 1) hs)

theorem rows (t t' : Table) (ha : t.alignments = t'.alignments) :
    ∀ {rs rs' : List (List (List Inline))}, List.Forall₂ RowAlike rs rs' →
    P (Walk.rows b t rs) (Walk.rows b t' rs') (rs.flatMap rowFlatTexts) (rs'.flatMap rowFlatTexts)
  | _, _, .nil => h.idle
  | _, _, .cons hr hs =>
    h.seq (h.plainFramed (.same _) rfl (h.cells t t' false ha 0 hr)) (rows t t' ha hs)

theorem table (alignments : List Alignment) {header header' : List (List Inline)}
    {rs rs' : List (List (List Inline))} (hh : RowAlike header header')
    (hr : List.Forall₂ RowAlike rs rs') :
    P (Walk.table b ⟨alignments, header, rs⟩) (Walk.table b ⟨alignments, header', rs'⟩)
      (rowFlatTexts header ++ rs.flatMap rowFlatTexts)
      (rowFlatTexts header' ++ rs'.flatMap rowFlatTexts) := by
  have hhead := h.plainFramed (.same (.row true)) rfl
    (h.cells ⟨alignments, header, rs⟩ ⟨alignments, header', rs'⟩ true rfl 0 hh)
  have hbody := h.rows ⟨alignments, header, rs⟩ ⟨alignments, header', rs'⟩ rfl hr
  exact h.plainFramed (.table _ _) rfl (h.seq hhead hbody)

theorem commandArgument (name : String) (argument : Option String) {is js : List Inline}
    (hs : InlinesAlike is js) :
    P (Walk.commandArgument b ⟨name, argument, is⟩)
      (Walk.commandArgument b ⟨name, argument, js⟩) [] [] := by
  unfold Walk.commandArgument
  cases argument with
  | none => exact h.idle
  | some a =>
    refine h.seq (h.leaf _) ?_
    rw [hs.isEmpty_eq]
    cases js.isEmpty
    · exact h.leaf _
    · exact h.idle

theorem command (name : String) (argument : Option String) {is js : List Inline}
    (hs : InlinesAlike is js) :
    P (Walk.command b ⟨name, argument, is⟩) (Walk.command b ⟨name, argument, js⟩)
      (inlinesFlatTexts is) (inlinesFlatTexts js) := by
  have hcontent := h.seq (h.commandArgument name argument hs) (h.inlines hs)
  exact h.plainFramed (.command _ _) rfl (h.paragraph hcontent)

theorem leafLabel (name : String) (kind : DirectiveKind) (attributes : Attributes)
    {label label' : List Inline} (hl : InlinesAlike label label') :
    P (Walk.leafLabel b ⟨name, kind, label, attributes⟩)
      (Walk.leafLabel b ⟨name, kind, label', attributes⟩)
      (if kind = .leaf then inlinesFlatTexts label else [])
      (if kind = .leaf then inlinesFlatTexts label' else []) := by
  unfold Walk.leafLabel
  cases kind with
  | container => exact h.idle
  | leaf =>
    cases hl with
    | nil => exact h.idle
    | cons hi hs => exact h.paragraph (h.inlines (.cons hi hs))

/-! ### Blocks -/

mutual

theorem block : ∀ {x y : Block}, x.Alike y →
    P (Walk.block b x) (Walk.block b y) x.flatTexts y.flatTexts
  | _, _, .paragraph hs => h.paragraph (h.inlines hs)
  | _, _, .heading level hs => h.headed level _ _ (h.inlines hs)
  | _, _, .code _ _ | _, _, .rule | _, _, .html _ | _, _, .metadata _ => h.leaf _
  | _, _, .list start tight hs => h.plainFramed (.same _) rfl (h.inside _ (items tight start hs))
  | _, _, .quote _ hs => h.plainFramed (.same _) rfl (h.inside _ (blocks hs))
  | _, _, .table _ hh hr => h.table _ hh hr
  | _, _, .footnote label hs =>
    h.numbered label fun _ => h.plainFramed (.same _) rfl (h.inside _ (blocks hs))
  | .directive ⟨name, _, _, _⟩ _, _, .directive _ kind attributes hl hs => by
    by_cases hn : isCommentName name = true
    · simp only [Block.flatTexts, hn, if_true]
      exact h.comment _ _ (if_pos hn) (if_pos hn)
    · simp only [Block.flatTexts, Directive.flatTexts, hn, List.append_assoc]
      exact h.framed (.directive name kind _ _ attributes) (if_neg hn)
        (h.inside _ (h.seq (h.leafLabel name kind attributes hl) (blocks hs)))
  | .directive ⟨name, _, _, _⟩ _, _, .comment _ _ _ _ _ _ _ hn => by
    simp only [Block.flatTexts, hn, if_true]
    exact h.comment _ _ (if_pos hn) (if_pos hn)
  | _, _, .command name argument hs => h.command name argument hs

theorem blocks : ∀ {xs ys : List Block}, BlocksAlike xs ys →
    P (Walk.blocks b xs) (Walk.blocks b ys) (blocksFlatTexts xs) (blocksFlatTexts ys)
  | _, _, .nil => h.idle
  | _, _, .cons hx hs => h.seq (block hx) (blocks hs)

theorem items (tight : Bool) : ∀ (number : Option UInt64) {is js : List Item}, ItemsAlike is js →
    P (Walk.items b tight number is) (Walk.items b tight number js) (itemsFlatTexts is)
      (itemsFlatTexts js)
  | _, _, _, .nil => h.idle
  | number, _, _, .cons _ hb hs =>
    h.seq (h.plainFramed (.same _) rfl (h.inside _ (blocks hb)))
      (items tight (number.map nextNumber) hs)

end

end Comparison

/-! ## Equal flat texts -/

/-- A backend that skips comments and cannot tell other frames apart that have the same texts. -/
structure Discreet (b : Backend σ) : Prop where
  start {f f' : Frame} {ts ts' : List String} (c : Context) (s : σ) : f.Alike f' ts ts' →
    ts = ts' → b.start c f s = b.start c f' s
  finish {f f' : Frame} {ts ts' : List String} (c : Context) (s : σ) : f.Alike f' ts ts' →
    ts = ts' → b.finish c f s = b.finish c f' s
  comment {f : Frame} (c : Context) (s : σ) : f.defaultFlow = .skip → b.start c f s = (.skip, s)

theorem Discreet.framed_comment {b : Backend σ} (hb : Discreet b) {f : Frame}
    (hf : f.defaultFlow = .skip) (v : State σ → State σ) : Walk.framed b f v = id := by
  funext s
  simp only [Walk.framed, hb.comment s.context s.out hf, id]

theorem Discreet.framed_alike {b : Backend σ} (hb : Discreet b) {f f' : Frame}
    {ts ts' : List String} (hf : f.Alike f' ts ts') (hts : ts = ts') (v : State σ → State σ) :
    Walk.framed b f v = Walk.framed b f' v := by
  funext s
  unfold Walk.framed
  rw [hb.start _ _ hf hts]
  split
  · rfl
  · simp only [hb.finish _ _ hf hts]

/-- Visits in step read equally many texts, and do the same when these are equal. -/
theorem Discreet.comparison {b : Backend σ} (hb : Discreet b) :
    Comparison b fun v v' ts ts' => ts.length = ts'.length ∧ (ts = ts' → v = v') where
  idle := ⟨rfl, fun _ => rfl⟩
  seq {v v' w w' ts ts' us us'} hv hw := by
    refine ⟨by rw [List.length_append, List.length_append, hv.1, hw.1], fun h => ?_⟩
    obtain ⟨hts, hus⟩ := List.append_inj h hv.1
    rw [hv.2 hts, hw.2 hus]
  paragraph hv := ⟨hv.1, fun h => by rw [hv.2 h]⟩
  inside _ _ _ _ _ hv := ⟨hv.1, fun h => by rw [hv.2 h]⟩
  numbered _ _ _ _ _ hv := ⟨(hv 0).1, fun h => by rw [funext fun n => (hv n).2 h]⟩
  leaf _ := ⟨rfl, fun _ => rfl⟩
  image _ _ _ _ := ⟨rfl, fun h => by rw [List.singleton_inj.mp h]⟩
  framed {f f' ts ts' v v' us us'} hf _ hv := by
    refine ⟨by rw [List.length_append, List.length_append, hf.length_eq, hv.1], fun h => ?_⟩
    obtain ⟨hts, hus⟩ := List.append_inj h hf.length_eq
    rw [hv.2 hus, hb.framed_alike hf hts]
  headed level text text' v v' ts ts' hv := by
    refine ⟨by rw [List.length_cons, List.length_cons, hv.1], fun h => ?_⟩
    obtain ⟨htext, hts⟩ := List.cons.inj h
    funext s
    rw [hv.2 hts, headed, headed, s.context.registerHeading_congr htext level]
  comment v v' hf hf' := ⟨rfl, fun _ => by rw [hb.framed_comment hf, hb.framed_comment hf']⟩

/-- **Comments do not show but in flat texts**: what a walk makes of a document is settled by the
document apart from its comments and by the texts that are read flat. -/
theorem Discreet.document_eq {b : Backend σ} (hb : Discreet b) {d d' : Document}
    (hd : BlocksAlike d d') (h : blocksFlatTexts d = blocksFlatTexts d') :
    document b d = document b d' := by
  funext c out
  unfold document
  rw [(hb.comparison.blocks hd).2 h]

end Walk

end RichMarkdown
