import RichMarkdown.Document.Context
import RichMarkdown.Proofs.Text.Lines

/-!
# Headings and footnotes in contexts

What a heading and a footnote change in a context, and what that depends on. Blank characters around
the text of a heading matter neither to its title, which is trimmed, nor to its slug: they separate
words, and there are no words beyond them (`slug_trimmed`).

* `Context.registerHeading_congr`: headings that are equal when trimmed are noted alike.
* `Context.footnoteNumber_congr`: the number of a footnote depends on the footnotes before it only.
* `Context.Kept`: what a context keeps whatever it notes.
-/

set_option autoImplicit false

namespace RichMarkdown

/-! ## Slugs -/

namespace Slug

theorem isSeparator_of_isBlank {c : Char} (h : Text.isBlank c = true) : isSeparator c = true := by
  simp [isSeparator, h]

/-- **A separator divides the words** before it from those after it. -/
theorem words_append {c : Char} (hc : isSeparator c = true) (a b : List Char) :
    words (a ++ c :: b) = words a ++ words b := by
  simp only [words, List.splitOnP_append_cons a b hc, List.map_append, List.filter_append]

/-- There is no word before a separator that comes first. -/
theorem words_cons {c : Char} (hc : isSeparator c = true) (cs : List Char) :
    words (c :: cs) = words cs :=
  words_append hc [] cs

/-- There is no word after a separator that comes last. -/
theorem words_append_singleton {c : Char} (hc : isSeparator c = true) (cs : List Char) :
    words (cs ++ [c]) = words cs :=
  (words_append hc cs []).trans (List.append_nil _)

theorem words_trimStart (cs : List Char) : words (Text.trimStart cs) = words cs := by
  induction cs with
  | nil => rfl
  | cons c cs ih =>
    unfold Text.trimStart at ih ⊢
    rw [List.dropWhile_cons]
    split
    · rename_i hc
      rw [ih, words_cons (isSeparator_of_isBlank hc)]
    · rfl

theorem words_trimEnd (cs : List Char) : words (Text.trimEnd cs) = words cs := by
  suffices h : ∀ rs : List Char, words (rs.dropWhile Text.isBlank).reverse = words rs.reverse by
    simpa [Text.trimEnd] using h cs.reverse
  intro rs
  induction rs with
  | nil => rfl
  | cons c rs ih =>
    rw [List.dropWhile_cons]
    split
    · rename_i hc
      rw [ih, List.reverse_cons, words_append_singleton (isSeparator_of_isBlank hc)]
    · rfl

end Slug

/-- Blanks around a text have no part in its slug. -/
theorem slug_trimmed (s : String) : slug (Text.trimmed s) = slug s := by
  rw [slug, slug, Text.trimmed, String.toList_ofList, Text.trim, Slug.words_trimEnd,
    Slug.words_trimStart]

namespace Context

/-! ## Headings -/

theorem registerHeading_congr {s t : String} (h : Text.trimmed s = Text.trimmed t)
    (c : Context) (level : Nat) : c.registerHeading level s = c.registerHeading level t := by
  have hslug : slug s = slug t := by rw [← slug_trimmed s, h, slug_trimmed t]
  have hanchor : c.freshAnchor s = c.freshAnchor t := by
    unfold freshAnchor anchorBase
    rw [hslug]
  unfold registerHeading
  rw [hanchor, h]

section

variable (c : Context) (level : Nat) (text : String)

theorem containers_registerHeading :
    (c.registerHeading level text).2.containers = c.containers := by
  unfold registerHeading
  dsimp only
  split <;> rfl

theorem footnotes_registerHeading :
    (c.registerHeading level text).2.footnotes = c.footnotes := by
  unfold registerHeading
  dsimp only
  split <;> rfl

theorem mode_registerHeading : (c.registerHeading level text).2.mode = c.mode := by
  unfold registerHeading
  dsimp only
  split <;> rfl

theorem title_registerHeading :
    (c.registerHeading level text).2.title =
      if level = 1 && c.title.isNone then some (Text.trimmed text) else c.title := by
  unfold registerHeading
  dsimp only [freshAnchor]
  split <;> rfl

theorem toc_registerHeading :
    (c.registerHeading level text).2.toc =
      if level = 1 && c.title.isNone then c.toc
      else c.toc ++ [⟨level, Text.trimmed text, (c.registerHeading level text).1⟩] := by
  unfold registerHeading
  dsimp only [freshAnchor]
  split <;> rfl

end

/-! ## Footnotes -/

theorem footnoteNumber_congr {c c' : Context} (h : c.footnotes = c'.footnotes) (label : String) :
    (c.footnoteNumber label).1 = (c'.footnoteNumber label).1 ∧
      (c.footnoteNumber label).2.footnotes = (c'.footnoteNumber label).2.footnotes := by
  unfold footnoteNumber
  rw [h]
  split
  · exact ⟨rfl, h⟩
  · exact ⟨rfl, rfl⟩

section

variable (c : Context) (label : String)

theorem containers_footnoteNumber : (c.footnoteNumber label).2.containers = c.containers := by
  unfold footnoteNumber
  split <;> rfl

theorem title_footnoteNumber : (c.footnoteNumber label).2.title = c.title := by
  unfold footnoteNumber
  split <;> rfl

theorem toc_footnoteNumber : (c.footnoteNumber label).2.toc = c.toc := by
  unfold footnoteNumber
  split <;> rfl

theorem mode_footnoteNumber : (c.footnoteNumber label).2.mode = c.mode := by
  unfold footnoteNumber
  split <;> rfl

theorem prefix_footnoteNumber : c.footnotes <+: (c.footnoteNumber label).2.footnotes := by
  unfold footnoteNumber
  split
  · exact List.prefix_refl _
  · exact List.prefix_append _ _

end

/-! ## Open containers -/

/-- The containers that are open have no part in the anchor of a heading. -/
theorem registerHeading_containers (c : Context) (ks : List Container) (level : Nat)
    (text : String) :
    { c with containers := ks }.registerHeading level text =
      ((c.registerHeading level text).1,
        { (c.registerHeading level text).2 with containers := ks }) := by
  unfold registerHeading
  dsimp only [freshAnchor, slugCount]
  split <;> rfl

/-- Nor have they in the number of a footnote. -/
theorem footnoteNumber_containers (c : Context) (ks : List Container) (label : String) :
    { c with containers := ks }.footnoteNumber label =
      ((c.footnoteNumber label).1, { (c.footnoteNumber label).2 with containers := ks }) := by
  unfold footnoteNumber
  dsimp only
  split <;> rfl

/-! ## What is kept -/

/-- The later context has the same open containers and the same mode as the earlier one, and what
the earlier one has collected. -/
structure Kept (c c' : Context) : Prop where
  containers : c'.containers = c.containers
  mode : c'.mode = c.mode
  footnotes : c.footnotes <+: c'.footnotes
  toc : c.toc <+: c'.toc
  title : ∀ t, c.title = some t → c'.title = some t

theorem Kept.refl (c : Context) : Kept c c :=
  ⟨rfl, rfl, List.prefix_refl _, List.prefix_refl _, fun _ h => h⟩

theorem Kept.trans {c c' c'' : Context} (h : Kept c c') (h' : Kept c' c'') : Kept c c'' where
  containers := h'.containers.trans h.containers
  mode := h'.mode.trans h.mode
  footnotes := h.footnotes.trans h'.footnotes
  toc := h.toc.trans h'.toc
  title t ht := h'.title t (h.title t ht)

/-- What is kept inside a container is kept around it. -/
theorem Kept.inside {c c' : Context} {k : Container} (h : Kept (c.push k) c') :
    Kept c c'.pop where
  containers := congrArg List.tail h.containers
  mode := h.mode
  footnotes := h.footnotes
  toc := h.toc
  title := h.title

theorem kept_registerHeading (c : Context) (level : Nat) (text : String) :
    Kept c (c.registerHeading level text).2 where
  containers := c.containers_registerHeading level text
  mode := c.mode_registerHeading level text
  footnotes := (c.footnotes_registerHeading level text).symm ▸ List.prefix_refl _
  toc := by
    rw [toc_registerHeading]
    split
    · exact List.prefix_refl _
    · exact List.prefix_append _ _
  title t ht := by
    have hsome : ¬ (level = 1 && c.title.isNone) = true := by simp [ht]
    rw [title_registerHeading, if_neg hsome, ht]

theorem kept_footnoteNumber (c : Context) (label : String) :
    Kept c (c.footnoteNumber label).2 where
  containers := c.containers_footnoteNumber label
  mode := c.mode_footnoteNumber label
  footnotes := c.prefix_footnoteNumber label
  toc := (c.toc_footnoteNumber label).symm ▸ List.prefix_refl _
  title _ ht := (c.title_footnoteNumber label).trans ht

end Context

end RichMarkdown
