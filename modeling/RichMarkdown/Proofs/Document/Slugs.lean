import Mathlib.Data.List.Chain
import RichMarkdown.Html.Markup
import RichMarkdown.Proofs.Document.Anchors
import RichMarkdown.Proofs.Document.Contexts
import RichMarkdown.Proofs.Text.Runs
import RichMarkdown.Proofs.Walk.Calls

/-!
# The normal form of slugs

A slug consists of words of ASCII lower-case letters and digits with single dashes between them
(`Slug.IsNormal`). Every text has such a slug, and a text in this form is its own slug
(`slug_eq_iff`). A blank divides the words of a text, so the slug of two texts with a blank between
them is made of their slugs (`slug_append`). Anchors are slugs with or without a number, and no
character of theirs is escaped.

* `slug_eq_onePass`: the slug can be written in one pass over the text, which only has to know
  whether a dash may follow.
* `isNormal_slug`: slugs and anchors are in normal form.
-/

set_option autoImplicit false

namespace RichMarkdown

namespace Slug

/-! ## Characters -/

/-- A character of a word of a slug. -/
def isWordChar (c : Char) : Bool := c.isLower || c.isDigit

variable {c : Char}

theorem isAlphanum_eq (c : Char) : c.isAlphanum = (c.isUpper || c.isLower || c.isDigit) := rfl

theorem toNat_lt_of_isAlphanum (h : c.isAlphanum = true) : c.toNat < 128 := by
  have hupper : c.isUpper = decide ('A'.val ≤ c.val ∧ c.val ≤ 'Z'.val) := rfl
  have hlower : c.isLower = (decide ('a'.val ≤ c.val) && decide (c.val ≤ 'z'.val)) := rfl
  have hdigit : c.isDigit = (decide ('0'.val ≤ c.val) && decide (c.val ≤ '9'.val)) := rfl
  simp only [isAlphanum_eq, hupper, hlower, hdigit, Bool.or_eq_true, Bool.and_eq_true,
    decide_eq_true_eq, UInt32.le_iff_toNat_le] at h
  have hn : c.toNat = c.val.toNat := rfl
  have hcodes : 'Z'.val.toNat = 90 ∧ 'z'.val.toNat = 122 ∧ '9'.val.toNat = 57 := by decide
  omega

/-- Letters and digits are ASCII characters, so they can be gone through by their codes. -/
theorem of_isAlphanum {p : Char → Prop}
    (hall : ∀ n < 128, (Char.ofNat n).isAlphanum = true → p (Char.ofNat n))
    (h : c.isAlphanum = true) : p c := by
  have hc := hall c.toNat (toNat_lt_of_isAlphanum h)
  rw [Char.ofNat_toNat] at hc
  exact hc h

theorem isWordChar_toLower : c.isAlphanum = true → isWordChar c.toLower = true :=
  of_isAlphanum (p := fun d => isWordChar d.toLower = true) (by decide +kernel)

/-- A character of a word is left as it is, and it divides nothing. -/
structure IsKept (c : Char) : Prop where
  alphanum : c.isAlphanum = true
  lower : c.toLower = c
  separator : isSeparator c = false
  plain : Html.escapeChar c = [c]

theorem separator_of_isAlphanum : c.isAlphanum = true → isSeparator c = false :=
  of_isAlphanum (p := fun d => isSeparator d = false) (by decide +kernel)

theorem isKept_of_isWordChar (h : isWordChar c = true) : IsKept c := by
  have halphanum : c.isAlphanum = true := by
    rw [isWordChar, Bool.or_eq_true] at h
    rw [isAlphanum_eq, Bool.or_eq_true, Bool.or_eq_true]
    exact h.imp_left .inr
  have hlower : isWordChar c = true → c.toLower = c :=
    of_isAlphanum (p := fun d => isWordChar d = true → d.toLower = d) (by decide +kernel) halphanum
  have hplain : Html.escapeChar c = [c] :=
    of_isAlphanum (p := fun d => Html.escapeChar d = [d]) (by decide +kernel) halphanum
  exact ⟨halphanum, hlower h, separator_of_isAlphanum halphanum, hplain⟩

theorem ne_dash_of_isWordChar (h : isWordChar c = true) : c ≠ '-' := by
  rintro rfl
  exact absurd h (by decide)

/-! ## Words -/

/-- A word of a slug. -/
structure IsWord (w : List Char) : Prop where
  nonempty : w ≠ []
  chars : ∀ c ∈ w, isWordChar c = true

/-- What is left of the characters between two separators. -/
def cleaned (cs : List Char) : List Char := (cs.filter Char.isAlphanum).map Char.toLower

theorem words_eq (cs : List Char) :
    words cs = ((cs.splitOnP isSeparator).map cleaned).filter (! ·.isEmpty) := rfl

theorem isWordChar_of_mem_cleaned {cs : List Char} (h : c ∈ cleaned cs) :
    isWordChar c = true := by
  obtain ⟨d, hd, rfl⟩ := List.mem_map.mp h
  exact isWordChar_toLower (List.mem_filter.mp hd).2

theorem isWord_of_mem_words {cs : List Char} : ∀ w ∈ words cs, IsWord w := by
  intro w hw
  rw [words_eq] at hw
  obtain ⟨hmem, hne⟩ := List.mem_filter.mp hw
  obtain ⟨part, -, rfl⟩ := List.mem_map.mp hmem
  exact ⟨by simpa using hne, fun c hc => isWordChar_of_mem_cleaned hc⟩

theorem IsWord.cleaned_eq {w : List Char} (h : IsWord w) : cleaned w = w := by
  have hfilter : w.filter Char.isAlphanum = w :=
    List.filter_eq_self.mpr fun c hc => (isKept_of_isWordChar (h.chars c hc)).alphanum
  have hmap : w.map Char.toLower = w.map id :=
    List.map_congr_left fun c hc => (isKept_of_isWordChar (h.chars c hc)).lower
  rw [cleaned, hfilter, hmap, List.map_id]

theorem words_of_forall {cs : List Char} (h : ∀ c ∈ cs, isSeparator c = false) :
    words cs = if cleaned cs = [] then [] else [cleaned cs] := by
  rw [words_eq, List.splitOnP_eq_singleton h, List.map_singleton]
  by_cases hcs : cleaned cs = [] <;> simp [hcs]

theorem IsWord.words_eq {w : List Char} (h : IsWord w) : words w = [w] := by
  have hseparator : ∀ c ∈ w, isSeparator c = false :=
    fun c hc => (isKept_of_isWordChar (h.chars c hc)).separator
  rw [words_of_forall hseparator, h.cleaned_eq, if_neg h.nonempty]

/-! ## Words and dashes -/

/-- Words with single dashes between them. -/
def join (ws : List (List Char)) : List Char := ['-'].intercalate ws

theorem toList_slug (text : String) : (slug text).toList = join (words text.toList) :=
  String.toList_ofList

theorem join_cons {ws : List (List Char)} (hws : ws ≠ []) (w : List Char) :
    join (w :: ws) = w ++ '-' :: join ws := by
  rw [join, List.intercalate_cons_of_ne_nil hws, List.append_assoc, List.singleton_append, join]

theorem join_append {ws vs : List (List Char)} (hws : ws ≠ []) (hvs : vs ≠ []) :
    join (ws ++ vs) = join ws ++ '-' :: join vs := by
  induction ws with
  | nil => exact absurd rfl hws
  | cons w ws ih =>
    by_cases hnil : ws = []
    · rw [hnil, List.singleton_append, join_cons hvs, join, join, List.intercalate_singleton]
    · rw [List.cons_append, join_cons (by simp [hnil]), ih hnil, join_cons hnil, List.append_assoc,
        List.cons_append]

theorem join_eq_nil_iff {ws : List (List Char)} (h : ∀ w ∈ ws, IsWord w) :
    join ws = [] ↔ ws = [] := by
  cases ws with
  | nil => simp [join]
  | cons w ws =>
    have hw := (h w List.mem_cons_self).nonempty
    by_cases hws : ws = []
    · simp [join, hws, hw]
    · simp [join_cons hws]

/-- The words of a slug are those that it is made of. -/
theorem words_join {ws : List (List Char)} (h : ∀ w ∈ ws, IsWord w) : words (join ws) = ws := by
  induction ws with
  | nil => rfl
  | cons w ws ih =>
    obtain ⟨hw, htail⟩ := List.forall_mem_cons.mp h
    by_cases hws : ws = []
    · rw [hws, join, List.intercalate_singleton, hw.words_eq]
    · rw [join_cons hws, words_append (by decide), hw.words_eq, ih htail, List.singleton_append]

/-! ## The normal form -/

/-- The normal form of slugs: lower-case letters, digits and dashes, with no dash at either end and
no two dashes next to each other. -/
structure IsNormal (cs : List Char) : Prop where
  chars : ∀ c ∈ cs, c.isLower = true ∨ c.isDigit = true ∨ c = '-'
  head : cs.head? ≠ some '-'
  last : cs.getLast? ≠ some '-'
  single : cs.IsChain fun c d => ¬ (c = '-' ∧ d = '-')

theorem isNormal_nil : IsNormal [] := ⟨nofun, nofun, nofun, .nil⟩

theorem IsWord.isNormal {w : List Char} (h : IsWord w) : IsNormal w := by
  have hdash {c : Char} (hc : c ∈ w) : c ≠ '-' := ne_dash_of_isWordChar (h.chars c hc)
  refine ⟨fun c hc => ?_, fun hhead => ?_, fun hlast => ?_, ?_⟩
  · have hword := h.chars c hc
    rw [isWordChar, Bool.or_eq_true] at hword
    exact hword.imp_right .inl
  · exact hdash (List.mem_of_mem_head? hhead) rfl
  · exact hdash (List.mem_of_mem_getLast? hlast) rfl
  · have hpair : w.Pairwise fun c d => ¬ (c = '-' ∧ d = '-') :=
      List.pairwise_of_forall_mem_list fun c hc d _ hcd => hdash hc hcd.1
    exact hpair.isChain

/-- A word and a dash can stand before any slug that is not empty. -/
theorem IsNormal.cons_word {w cs : List Char} (hw : IsWord w) (hcs : IsNormal cs) (hne : cs ≠ []) :
    IsNormal (w ++ '-' :: cs) := by
  have hword := hw.isNormal
  refine ⟨fun c hc => ?_, ?_, ?_, ?_⟩
  · simp only [List.mem_append, List.mem_cons] at hc
    rcases hc with hc | rfl | hc
    · exact hword.chars c hc
    · exact .inr (.inr rfl)
    · exact hcs.chars c hc
  · rw [List.head?_append_of_ne_nil _ hw.nonempty]
    exact hword.head
  · rw [List.getLast?_append_of_ne_nil _ (List.cons_ne_nil _ _),
      ← List.singleton_append, List.getLast?_append_of_ne_nil _ hne]
    exact hcs.last
  · rw [List.isChain_append, List.isChain_cons]
    refine ⟨hword.single, ⟨fun d hd hdash => ?_, hcs.single⟩, fun c hc d _ hdash => ?_⟩
    · exact hcs.head (hdash.2 ▸ hd)
    · exact hword.last (hdash.1 ▸ hc)

theorem isNormal_join {ws : List (List Char)} (h : ∀ w ∈ ws, IsWord w) : IsNormal (join ws) := by
  induction ws with
  | nil => exact isNormal_nil
  | cons w ws ih =>
    obtain ⟨hw, htail⟩ := List.forall_mem_cons.mp h
    by_cases hws : ws = []
    · rw [hws, join, List.intercalate_singleton]
      exact hw.isNormal
    · rw [join_cons hws]
      exact (ih htail).cons_word hw (mt (join_eq_nil_iff htail).mp hws)

/-- **A slug in normal form is made of words.** The first of them ends before the first dash. -/
theorem IsNormal.exists_words {cs : List Char} (h : IsNormal cs) :
    ∃ ws, (∀ w ∈ ws, IsWord w) ∧ cs = join ws := by
  induction hn : cs.length using Nat.strong_induction_on generalizing cs with
  | _ n ih =>
    obtain ⟨w, rest, rfl, hrun⟩ := Text.exists_run isWordChar cs
    have hstop : ∀ c ∈ rest.head?, c = '-' := by
      intro c hc
      have hchar := h.chars c (List.mem_append_right _ (List.mem_of_mem_head? hc))
      have hno := hrun.stops c hc
      rw [isWordChar, Bool.or_eq_false_iff] at hno
      simpa [hno.1, hno.2] using hchar
    cases rest with
    | nil =>
      rw [List.append_nil] at h ⊢
      by_cases hw : w = []
      · exact ⟨[], nofun, hw⟩
      · exact ⟨[w], List.forall_mem_singleton.mpr ⟨hw, hrun.all⟩, List.intercalate_singleton.symm⟩
    | cons c rest =>
      obtain rfl : c = '-' := hstop c rfl
      have hw : w ≠ [] := by
        rintro rfl
        exact h.head rfl
      have hne : rest ≠ [] := by
        rintro rfl
        exact h.last List.getLast?_concat
      have hchain := (List.isChain_append.mp h.single).2.1
      rw [List.isChain_cons] at hchain
      have hrest : IsNormal rest := by
        refine ⟨fun c hc => h.chars c (by simp [hc]), fun hhead => ?_, fun hlast => ?_, hchain.2⟩
        · exact hchain.1 '-' hhead ⟨rfl, rfl⟩
        · refine h.last ?_
          rw [List.getLast?_append_of_ne_nil _ (List.cons_ne_nil _ _), ← List.singleton_append,
            List.getLast?_append_of_ne_nil _ hne, hlast]
      obtain ⟨ws, hws, rfl⟩ := ih rest.length (by simp at hn; omega) hrest rfl
      have hwsne : ws ≠ [] := mt (join_eq_nil_iff hws).mpr hne
      exact ⟨w :: ws, List.forall_mem_cons.mpr ⟨⟨hw, hrun.all⟩, hws⟩, (join_cons hwsne w).symm⟩

/-- Nothing in a slug is escaped. -/
theorem IsNormal.escape_eq {s : String} (h : IsNormal s.toList) : Html.escape s = s := by
  have hchar : ∀ c ∈ s.toList, Html.escapeChar c = [c] := by
    intro c hc
    rcases h.chars c hc with hlower | hdigit | rfl
    · exact (isKept_of_isWordChar (by rw [isWordChar, hlower, Bool.true_or])).plain
    · exact (isKept_of_isWordChar (by rw [isWordChar, hdigit, Bool.or_true])).plain
    · decide
  rw [Html.escape, List.flatMap_congr hchar, List.flatMap_singleton', String.ofList_toList]

/-! ## One pass -/

/-- What is written for the rest of a text. The flag says that no dash may come next, since nothing
has been written or a dash was written last. -/
def passFrom : Bool → List Char → List Char
  | _, [] => []
  | closed, c :: cs =>
    if c.isAlphanum then c.toLower :: passFrom false cs
    else if ! closed && isSeparator c then '-' :: passFrom true cs
    else passFrom closed cs

def withoutFinalDash (cs : List Char) : List Char :=
  if cs.getLast? = some '-' then cs.dropLast else cs

/-- The slug of a text, written from left to right. -/
def onePass (text : String) : String :=
  String.ofList (withoutFinalDash (passFrom true (Text.trim text.toList)))

theorem withoutFinalDash_concat (cs : List Char) : withoutFinalDash (cs ++ ['-']) = cs := by
  rw [withoutFinalDash, if_pos List.getLast?_concat, List.dropLast_concat]

theorem withoutFinalDash_append (a : List Char) {b : List Char} (hb : b ≠ []) :
    withoutFinalDash (a ++ b) = a ++ withoutFinalDash b := by
  rw [withoutFinalDash, withoutFinalDash, List.getLast?_append_of_ne_nil _ hb,
    List.dropLast_append_of_ne_nil hb]
  split <;> rfl

theorem withoutFinalDash_eq_self {cs : List Char} (h : cs.getLast? ≠ some '-') :
    withoutFinalDash cs = cs :=
  if_neg h

theorem isAlphanum_of_isSeparator (h : isSeparator c = true) : c.isAlphanum = false := by
  by_contra halphanum
  have hseparator := separator_of_isAlphanum (Bool.not_eq_false _ ▸ halphanum)
  rw [h] at hseparator
  cases hseparator

/-- Up to the next separator only letters and digits are written. -/
theorem passFrom_append {cs : List Char} (h : ∀ c ∈ cs, isSeparator c = false) (closed : Bool)
    (rest : List Char) :
    passFrom closed (cs ++ rest) =
      cleaned cs ++ passFrom (closed && (cleaned cs).isEmpty) rest := by
  induction cs generalizing closed with
  | nil => simp [cleaned]
  | cons d cs ih =>
    obtain ⟨hd, hcs⟩ := List.forall_mem_cons.mp h
    rw [List.cons_append, passFrom, hd, Bool.and_false]
    by_cases hletter : d.isAlphanum = true
    · have hcleaned : cleaned (d :: cs) = d.toLower :: cleaned cs := by simp [cleaned, hletter]
      rw [if_pos hletter, ih hcs, hcleaned]
      simp
    · have hcleaned : cleaned (d :: cs) = cleaned cs := by simp [cleaned, hletter]
      rw [if_neg hletter, if_neg Bool.false_ne_true, ih hcs, hcleaned]

/-- At a separator a dash is written, unless none may come. -/
theorem passFrom_separator (hc : isSeparator c = true) (closed : Bool) (cs : List Char) :
    passFrom closed (c :: cs) = if closed then passFrom true cs else '-' :: passFrom true cs := by
  rw [passFrom, isAlphanum_of_isSeparator hc, hc]
  cases closed <;> rfl

/-- No dash comes first. -/
theorem head?_passFrom (cs : List Char) : (passFrom true cs).head? ≠ some '-' := by
  induction cs with
  | nil => nofun
  | cons d cs ih =>
    rw [passFrom]
    split
    · rename_i hletter
      rw [List.head?_cons, Ne, Option.some.injEq]
      exact ne_dash_of_isWordChar (isWordChar_toLower hletter)
    · exact ih

/-- **One pass writes the words of a text.** The induction goes from one separator to the next. -/
theorem withoutFinalDash_passFrom (cs : List Char) :
    withoutFinalDash (passFrom true cs) = join (words cs) := by
  induction hn : cs.length using Nat.strong_induction_on generalizing cs with
  | _ n ih =>
    obtain ⟨part, rest, rfl, hrun⟩ := Text.exists_run (! isSeparator ·) cs
    have hpart : ∀ c ∈ part, isSeparator c = false := fun c hc => by simpa using hrun.all c hc
    have hlast : (cleaned part).getLast? ≠ some '-' := fun h =>
      ne_dash_of_isWordChar (isWordChar_of_mem_cleaned (List.mem_of_mem_getLast? h)) rfl
    rw [passFrom_append hpart]
    cases rest with
    | nil =>
      rw [List.append_nil, words_of_forall hpart, passFrom, List.append_nil,
        withoutFinalDash_eq_self hlast]
      split
      · assumption
      · exact List.intercalate_singleton.symm
    | cons d rest =>
      have hd : isSeparator d = true := by simpa using hrun.stops d rfl
      have hrest := ih rest.length (by simp at hn; omega) rest rfl
      rw [words_append hd, words_of_forall hpart, Bool.true_and, passFrom_separator hd]
      by_cases hempty : cleaned part = []
      · rw [hempty, if_pos rfl, if_pos List.isEmpty_nil, List.nil_append, List.nil_append, hrest]
      · rw [if_neg hempty, if_neg (by simpa using hempty), List.singleton_append]
        by_cases hnone : passFrom true rest = []
        · -- nothing follows, so the dash is the last one
          have hwords : words rest = [] :=
            (join_eq_nil_iff isWord_of_mem_words).mp (by rw [← hrest, hnone]; rfl)
          rw [hnone, withoutFinalDash_concat, hwords, join, List.intercalate_singleton]
        · have hwords : words rest ≠ [] := by
            intro hnil
            rw [hnil, withoutFinalDash] at hrest
            split at hrest
            · rename_i hdash
              have hsingle := List.dropLast_concat_getLast hnone
              rw [hrest] at hsingle
              have hhead := head?_passFrom rest
              rw [← hsingle] at hhead hdash
              exact hhead hdash
            · exact hnone hrest
          rw [← List.singleton_append, ← List.append_assoc,
            withoutFinalDash_append _ hnone, hrest, join_cons hwords, List.append_assoc,
            List.singleton_append]

end Slug

/-! ## Slugs of texts -/

/-- **The slug is written in one pass.** -/
theorem slug_eq_onePass (text : String) : slug text = Slug.onePass text := by
  have hwords : Slug.words (Text.trim text.toList) = Slug.words text.toList := by
    rw [Text.trim, Slug.words_trimEnd, Slug.words_trimStart]
  rw [Slug.onePass, Slug.withoutFinalDash_passFrom, hwords]
  rfl

theorem slug_of_isNormal {s : String} (h : Slug.IsNormal s.toList) : slug s = s := by
  obtain ⟨ws, hws, hjoin⟩ := h.exists_words
  apply String.toList_inj.mp
  rw [Slug.toList_slug, hjoin, Slug.words_join hws]

theorem isNormal_slug (text : String) : Slug.IsNormal (slug text).toList := by
  rw [Slug.toList_slug]
  exact Slug.isNormal_join Slug.isWord_of_mem_words

/-- **The normal forms** are the texts that are their own slugs. -/
theorem slug_eq_iff {s : String} : slug s = s ↔ Slug.IsNormal s.toList :=
  ⟨fun h => h ▸ isNormal_slug s, slug_of_isNormal⟩

theorem slug_eq_empty_iff {text : String} : slug text = "" ↔ Slug.words text.toList = [] := by
  rw [← String.toList_inj, Slug.toList_slug, ← Slug.join_eq_nil_iff Slug.isWord_of_mem_words]
  rfl

/-- **The slug of two texts with a blank between them** is made of theirs. -/
theorem slug_append (a b : String) :
    slug (a ++ " " ++ b) = "-".intercalate ([slug a, slug b].filter (· ≠ "")) := by
  have hwords : Slug.words (a ++ " " ++ b).toList =
      Slug.words a.toList ++ Slug.words b.toList := by
    rw [← Slug.words_append (c := ' ') (by decide)]
    simp
  apply String.toList_inj.mp
  rw [Slug.toList_slug, hwords, String.toList_intercalate]
  by_cases ha : slug a = ""
  · have hwa := slug_eq_empty_iff.mp ha
    by_cases hb : slug b = ""
    · have hwb := slug_eq_empty_iff.mp hb
      simp [ha, hb, hwa, hwb, Slug.join]
    · simp [ha, hb, hwa, ← Slug.toList_slug]
  · by_cases hb : slug b = ""
    · have hwb := slug_eq_empty_iff.mp hb
      simp [ha, hb, hwb, ← Slug.toList_slug]
    · have hwa := mt slug_eq_empty_iff.mpr ha
      have hwb := mt slug_eq_empty_iff.mpr hb
      rw [Slug.join_append hwa hwb, ← Slug.toList_slug, ← Slug.toList_slug]
      simp [ha, hb, List.intercalate_cons_cons]

/-! ## Anchors -/

/-- The anchors that a hook hands out. -/
def Hook.anchors : Hook → List String
  | .start f _ => f.anchors
  | .leaf _ | .finish _ => []

namespace Walk

theorem simulation_anchors {σ : Type} (b : Backend σ) :
    Simulation b.withAnchors b.recording (fun _ => True) fun s t =>
      s.1 = t.1 ∧ s.2 = t.2.flatMap (·.hook.anchors) where
  leaf := by
    rintro c l ⟨s, ids⟩ t - ⟨rfl, rfl⟩
    exact ⟨rfl, by simp [Backend.withAnchors, Backend.recording, Hook.anchors]⟩
  space := trivial
  start := by
    rintro c f ⟨s, ids⟩ t ⟨rfl, rfl⟩
    exact ⟨rfl, rfl, by simp [Backend.withAnchors, Backend.recording, Hook.anchors]⟩
  finish := by
    rintro c f ⟨s, ids⟩ t ⟨rfl, rfl⟩
    exact ⟨rfl, by simp [Backend.withAnchors, Backend.recording, Hook.anchors]⟩

/-- The anchors of a rendering are told with its calls. -/
theorem anchors_eq {σ : Type} (b : Backend σ) (d : Document) (c : Context) (out : σ) :
    (document b.withAnchors d c (out, [])).1.2 = (calls b d c out).flatMap (·.hook.anchors) :=
  ((simulation_anchors b).document (blocksEveryLeaf_of_forall (fun _ => trivial) d) c
    ⟨rfl, rfl⟩).1.2

theorem mem_anchors_start {n : Node} {c : Context} {flow : Flow} {id : String}
    (h : id ∈ (Hook.start (n.frame c) flow).anchors) :
    ∃ level text, id = (c.registerHeading level text).1 := by
  cases n with
  | heading level text => exact ⟨level, text, List.mem_singleton.mp h⟩
  | _ => exact absurd h List.not_mem_nil

/-- Every anchor that is told has been given to a heading. -/
theorem Told.exists_registerHeading {P : List Container → Call → Prop} {path : List Container}
    {os : List Outline} {calls : List Call} (h : Told P path os calls) {id : String}
    (hid : id ∈ calls.flatMap (·.hook.anchors)) :
    ∃ c level text, id = (Context.registerHeading c level text).1 := by
  induction h with
  | nil => exact absurd hid List.not_mem_nil
  | leaf _ _ _ ih => exact ih hid
  | reference _ _ _ ih => exact ih hid
  | skipped c _ _ ih =>
    obtain hid | hid := List.mem_append.mp hid
    · exact ⟨c, mem_anchors_start hid⟩
    · exact ih hid
  | entered c _ _ _ _ _ ihi ih =>
    simp only [List.cons_append, List.flatMap_cons, List.flatMap_append, List.mem_append] at hid
    rcases hid with hid | hid | hid | hid
    · exact ⟨c, mem_anchors_start hid⟩
    · exact ihi hid
    · exact absurd hid List.not_mem_nil
    · exact ih hid

end Walk

namespace Context

theorem exists_registerHeading {us : List Use} {c : Context} {id : String}
    (h : id ∈ anchorsOf us c) : ∃ c level text, id = (registerHeading c level text).1 := by
  induction us generalizing c with
  | nil => exact absurd h List.not_mem_nil
  | cons u us ih =>
    obtain h | h := List.mem_append.mp h
    · cases u with
      | heading level text => exact ⟨c, level, text, List.mem_singleton.mp h⟩
      | render b d out =>
        rw [Use.anchors, Walk.anchors_eq] at h
        exact (Walk.told_calls b d c out).1.exists_registerHeading h
      | _ => exact absurd h List.not_mem_nil
    · exact ih h

/-- The slug that an anchor starts with has words. -/
theorem exists_words_anchorBase (text : String) :
    ∃ ws, (∀ w ∈ ws, Slug.IsWord w) ∧ ws ≠ [] ∧ (anchorBase text).toList = Slug.join ws := by
  unfold anchorBase
  dsimp only
  split
  · have hword : Slug.IsWord "section".toList := ⟨by decide, List.all_eq_true.mp (by decide)⟩
    refine ⟨["section".toList], List.forall_mem_singleton.mpr hword, by simp, ?_⟩
    rw [Slug.join, List.intercalate_singleton]
  · rename_i hne
    refine ⟨_, Slug.isWord_of_mem_words, fun hnil => ?_, Slug.toList_slug text⟩
    rw [slug_eq_empty_iff.mpr hnil] at hne
    exact hne rfl

theorem isWord_toString (n : Nat) : Slug.IsWord (toString n).toList where
  nonempty := by
    rw [Text.toList_toString]
    exact Nat.toDigits_ne_nil
  chars c hc := by rw [Slug.isWordChar, Text.isDigit_of_mem_toString hc, Bool.or_true]

/-- An anchor is a slug, whose number is a word of it. -/
theorem exists_words_registerHeading (c : Context) (level : Nat) (text : String) :
    ∃ ws, (∀ w ∈ ws, Slug.IsWord w) ∧ ws ≠ [] ∧
      (c.registerHeading level text).1.toList = Slug.join ws := by
  obtain ⟨ws, hws, hne, hjoin⟩ := exists_words_anchorBase text
  rw [registerHeading_fst, anchor]
  split
  · exact ⟨ws, hws, hne, hjoin⟩
  · have hnumber := isWord_toString (c.slugCount (anchorBase text))
    refine ⟨ws ++ [(toString (c.slugCount (anchorBase text))).toList], ?_, by simp, ?_⟩
    · exact List.forall_mem_append.mpr ⟨hws, List.forall_mem_singleton.mpr hnumber⟩
    · rw [Slug.join_append hne (by simp), ← hjoin, Slug.join, List.intercalate_singleton]
      simp

end Context

/-- **Slugs are in normal form.** The slug of any text is what one pass over it writes; it is in
normal form, and it is its own slug. The slug of two texts with a blank between them is made of
theirs, with a dash between them if neither is empty. All anchors that a context ever hands out are
in normal form too; they are not empty, and nothing in them is escaped. -/
theorem slugs_isNormal (text a b : String) (us : List Use) (c : Context) :
    slug text = Slug.onePass text ∧
      Slug.IsNormal (slug text).toList ∧ slug (slug text) = slug text ∧
      slug (a ++ " " ++ b) = "-".intercalate ([slug a, slug b].filter (· ≠ "")) ∧
      ∀ id ∈ anchorsOf us c, id ≠ "" ∧ Slug.IsNormal id.toList ∧ Html.escape id = id := by
  refine ⟨slug_eq_onePass text, isNormal_slug text, slug_of_isNormal (isNormal_slug text),
    slug_append a b, fun id hid => ?_⟩
  obtain ⟨c', level, heading, rfl⟩ := Context.exists_registerHeading hid
  obtain ⟨ws, hws, hne, hjoin⟩ := c'.exists_words_registerHeading level heading
  have hnormal : Slug.IsNormal (c'.registerHeading level heading).1.toList := by
    rw [hjoin]
    exact Slug.isNormal_join hws
  refine ⟨fun hempty => ?_, hnormal, hnormal.escape_eq⟩
  rw [hempty] at hjoin
  exact hne ((Slug.join_eq_nil_iff hws).mp hjoin.symm)

/-- Blanks of any kind, dashes and underscores divide words; other characters are dropped. -/
example : slug "\u3000Größe_--7 (Über\tB) " = "gre-7-ber-b" := by decide +kernel

end RichMarkdown
