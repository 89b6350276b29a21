import RichMarkdown.Proofs.Document.Contexts
import RichMarkdown.Proofs.Document.Shown

/-!
# Headings and their entries

The headings of a document outside its comments, read off the tree in order (`blocksHeadings`), and
what a context makes of headings that it notes: each has an entry, the first entry of level one
gives the title, and all others are listed in the table of contents (`Context.Notes`).

* `Context.Notes.trans`: headings that are noted one after the other.
-/

set_option autoImplicit false

namespace RichMarkdown

/-! ## Headings of a document -/

/-- A heading, with the labels of the footnotes seen before it. -/
structure Heading where
  level : Nat
  content : List Inline
  seen : List String

namespace Heading

/-- The text of a heading as a title: without marks and without blanks around it. -/
def title (h : Heading) : String := Text.trimmed (plainText h.content)

/-- The text of a heading as a page shows it. -/
def text (h : Heading) : List Char := shownText h.seen (inlinesShown h.content)

def entry (h : Heading) (id : String) : TocEntry := ⟨h.level, h.title, id⟩

end Heading

mutual

/-- The headings in a block, apart from those in comments. -/
def Block.headings (seen : List String) : Block → List Heading
  | .heading level content => [⟨level, content, seen⟩]
  | .list _ _ items => itemsHeadings seen items
  | .quote _ children => blocksHeadings seen children
  | .footnote label children => blocksHeadings (seeLabel seen label) children
  | .directive head children =>
    if isCommentName head.name then []
    else blocksHeadings (seenAfter seen head.labelShown) children
  | .paragraph _ | .code _ _ | .rule | .html _ | .table _ | .metadata _ | .command _ => []

/-- The headings in blocks, in order. -/
def blocksHeadings (seen : List String) : List Block → List Heading
  | [] => []
  | b :: bs => b.headings seen ++ blocksHeadings (seenAfter seen b.shown) bs

/-- The headings in list items, in order. -/
def itemsHeadings (seen : List String) : List Item → List Heading
  | [] => []
  | ⟨_, children⟩ :: rest =>
    blocksHeadings seen children ++ itemsHeadings (seenAfter seen (blocksShown children)) rest

end

/-- The title of a document: that of its first heading of level one, if there is one. -/
def titleOf (hs : List Heading) : Option String :=
  (hs.find? (·.level = 1)).map Heading.title

/-- The entries of headings with their anchors. -/
def entries (hs : List Heading) (ids : List String) : List TocEntry :=
  List.zipWith Heading.entry hs ids

/-- The first entry of level one gives the title. -/
theorem title_entries {hs : List Heading} {ids : List String} (h : ids.length = hs.length) :
    ((entries hs ids).find? (·.level = 1)).map TocEntry.title = titleOf hs := by
  induction hs generalizing ids with
  | nil => rfl
  | cons x hs ih =>
    obtain ⟨id, ids, rfl⟩ := List.exists_cons_of_length_eq_add_one h
    have hrest : ids.length = hs.length := Nat.succ.inj h
    simp only [entries, titleOf, List.zipWith_cons_cons, List.find?_cons] at ih ⊢
    have hlevel : (x.entry id).level = x.level := rfl
    rw [hlevel]
    by_cases hx : x.level = 1
    · simp [hx, Heading.entry]
    · simp only [hx, decide_false]
      exact ih hrest

/-! ## Entries -/

namespace Context

/-- From the context `c` to the context `c'`, headings with the entries `es` are noted. -/
structure Notes (c : Context) (es : List TocEntry) (c' : Context) : Prop where
  title : c'.title = c.title.or ((es.find? (·.level = 1)).map TocEntry.title)
  toc : c'.toc = c.toc ++ if c.title.isSome then es else es.eraseP (·.level = 1)

/-- No heading is noted when title and contents stay as they are. -/
theorem Notes.none {c c' : Context} (ht : c'.title = c.title) (hc : c'.toc = c.toc) :
    Notes c [] c' where
  title := ht.trans (Option.or_none).symm
  toc := by rw [hc, List.eraseP_nil, ite_self, List.append_nil]

/-- **Headings are noted one after the other.** -/
theorem Notes.trans {c c' c'' : Context} {es fs : List TocEntry} (h : Notes c es c')
    (h' : Notes c' fs c'') : Notes c (es ++ fs) c'' := by
  obtain ⟨ht, htoc⟩ := h
  obtain ⟨ht', htoc'⟩ := h'
  cases hc : c.title with
  | some t =>
    simp only [hc, Option.some_or, Option.isSome_some, if_true] at ht htoc
    simp only [ht, htoc, Option.some_or, Option.isSome_some, if_true] at ht' htoc'
    refine ⟨by rw [ht', hc, Option.some_or], ?_⟩
    rw [htoc', hc, Option.isSome_some, if_pos rfl, List.append_assoc]
  | none =>
    simp only [hc, Option.none_or, Option.isSome_none, Bool.false_eq_true, if_false] at ht htoc
    -- the title is among the later entries exactly when it is not among the earlier ones
    cases hfind : es.find? (·.level = 1) with
    | none =>
      have hes : ∀ e ∈ es, ¬ decide (e.level = 1) = true := List.find?_eq_none.mp hfind
      simp only [hfind, Option.map_none] at ht
      simp only [ht, htoc, Option.none_or, Option.isSome_none, Bool.false_eq_true, if_false,
        List.eraseP_of_forall_not hes] at ht' htoc'
      refine ⟨by rw [ht', hc, List.find?_append, hfind, Option.none_or, Option.none_or], ?_⟩
      rw [htoc', hc, if_neg (by simp), List.eraseP_append_right _ hes, List.append_assoc]
    | some e =>
      simp only [hfind, Option.map_some] at ht
      simp only [ht, htoc, Option.some_or, Option.isSome_some, if_true] at ht' htoc'
      refine ⟨by rw [ht', hc, List.find?_append, hfind]; rfl, ?_⟩
      rw [htoc', hc, if_neg (by simp), List.eraseP_append_left (List.find?_some hfind) _
        (List.mem_of_find?_eq_some hfind), List.append_assoc]

theorem notes_registerHeading (c : Context) (level : Nat) (text : String) :
    Notes c [⟨level, Text.trimmed text, (c.registerHeading level text).1⟩]
      (c.registerHeading level text).2 where
  title := by
    rw [title_registerHeading]
    cases c.title <;> by_cases hl : level = 1 <;> simp [hl]
  toc := by
    rw [toc_registerHeading]
    cases c.title <;> by_cases hl : level = 1 <;> simp [hl]

end Context

end RichMarkdown
