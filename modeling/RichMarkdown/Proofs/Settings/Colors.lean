import RichMarkdown.Settings.Basic

/-!
# Colours of settings

Settings may choose a colour for each category in each mode (`Settings.chosen`). The choices are
texts, which are read again whenever the settings are checked or asked for their theme, the light
ones first and those of a mode in canonical order (`Settings.places`).

* `theme_of_sound`: if all choices are colours, the theme has them, and presets for the rest.
* `theme_of_fault`: otherwise the first choice that is none is reported.
-/

set_option autoImplicit false

namespace RichMarkdown

/-! ## Choices -/

/-- The texts chosen as colours, where one is chosen. -/
abbrev Choices := ColorMode → Category → Option String

namespace ColorChoices

/-- The text chosen for a category. -/
def get (x : ColorChoices) : Category → Option String
  | .keyword => x.keyword
  | .string => x.string
  | .comment => x.comment
  | .number => x.number
  | .function => x.function
  | .typeName => x.typeName
  | .varName => x.varName
  | .operator => x.operator
  | .punctuation => x.punctuation
  | .property => x.property
  | .attrName => x.attrName

end ColorChoices

/-- The key of the section in which colours are chosen. -/
def ColorMode.key : ColorMode → String
  | light => "light"
  | dark => "dark"

/-- The key of the field in which a colour is chosen. -/
def Category.key : Category → String
  | keyword => "keyword"
  | string => "string"
  | comment => "comment"
  | number => "number"
  | function => "function"
  | typeName => "type"
  | varName => "variable"
  | operator => "operator"
  | punctuation => "punctuation"
  | property => "property"
  | attrName => "attribute"

namespace Settings

/-- The texts that settings choose as colours. -/
def chosen (s : Settings) : Choices
  | .light => s.lightColors.get
  | .dark => s.darkColors.get

/-- The places of choices: the light ones first, and those of a mode in canonical order. -/
def places : List (ColorMode × Category) :=
  [ColorMode.light, ColorMode.dark].flatMap fun mode => Category.all.map (mode, ·)

/-- The keys of the field in which a colour is chosen. -/
def fieldKeys (mode : ColorMode) (category : Category) : List String :=
  ["theme", mode.key, category.key]

/-- The path of the field in which a colour is chosen. -/
def fieldPath (mode : ColorMode) (category : Category) : String :=
  ".".intercalate (fieldKeys mode category)

/-- The colour of a category where none is chosen. -/
def preset : ColorMode → Category → Color
  | .light => Palette.light.get
  | .dark => Palette.dark.get

/-- Why the text chosen for a category is no colour, if it is none. -/
def fault? (chosen : Category → Option String) (category : Category) : Option ThemeError :=
  match (chosen category).map Color.ofHex with
  | some (.error e) => some e
  | _ => none

/-- The color is the one chosen, or else the usual one. -/
def Shows (chosen : Option String) (usual color : Color) : Prop :=
  match chosen with
  | some text => Color.ofHex text = .ok color
  | none => color = usual

theorem fieldPath_light (c : Category) :
    "theme." ++ "light" ++ "." ++ c.name = fieldPath .light c := by
  cases c <;> rfl

theorem fieldPath_dark (c : Category) :
    "theme." ++ "dark" ++ "." ++ c.name = fieldPath .dark c := by
  cases c <;> rfl

/-! ## Palettes -/

/-- The choices for some categories. -/
def choicesFor (categories : List Category) (chosen : Category → Option String) :
    List (Category × Option String) :=
  categories.map fun category => (category, chosen category)

/-- Choices are read in canonical order. -/
theorem entries_eq (x : ColorChoices) : x.entries = choicesFor Category.all x.get := rfl

section

open ColorChoices (applyEntries)

variable {chosen : Category → Option String} {category : Category} {categories : List Category}

/-- A category without a fault is passed: its colour is replaced if one is chosen. -/
theorem applyEntries_cons (sectionName : String) (p : Palette) (h : fault? chosen category = none)
    (categories : List Category) :
    ∃ q, applyEntries sectionName p (choicesFor (category :: categories) chosen) =
        applyEntries sectionName q (choicesFor categories chosen) ∧
      Shows (chosen category) (p.get category) (q.get category) ∧
      ∀ c, c ≠ category → q.get c = p.get c := by
  rw [choicesFor, List.map_cons]
  cases hc : chosen category with
  | none => exact ⟨p, rfl, rfl, fun _ _ => rfl⟩
  | some text =>
    cases hx : Color.ofHex text with
    | error e => simp [fault?, hc, hx] at h
    | ok color =>
      refine ⟨p.set category color, ?_, ?_, ?_⟩
      · rw [applyEntries, hx]
        rfl
      · rw [Palette.get_set, if_pos rfl]
        exact hx
      · intro c hne
        rw [Palette.get_set, if_neg hne]

/-- Without faults every category has the colour chosen for it, and all others keep theirs. -/
theorem exists_applyEntries (sectionName : String) (hn : categories.Nodup)
    (h : ∀ c ∈ categories, fault? chosen c = none) (p : Palette) :
    ∃ q, applyEntries sectionName p (choicesFor categories chosen) = .ok q ∧
      (∀ c ∈ categories, Shows (chosen c) (p.get c) (q.get c)) ∧
      ∀ c, c ∉ categories → q.get c = p.get c := by
  induction categories generalizing p with
  | nil => exact ⟨p, rfl, nofun, fun _ _ => rfl⟩
  | cons category categories ih =>
    obtain ⟨hnew, hn⟩ := List.nodup_cons.mp hn
    obtain ⟨hfault, h⟩ := List.forall_mem_cons.mp h
    obtain ⟨q, hq, hshows, hsame⟩ := applyEntries_cons sectionName p hfault categories
    obtain ⟨r, hr, hrest, hothers⟩ := ih hn h q
    refine ⟨r, hq.trans hr, List.forall_mem_cons.mpr ⟨?_, ?_⟩, ?_⟩
    · rwa [hothers category hnew]
    · intro c hc
      have hne : c ≠ category := fun heq => hnew (heq ▸ hc)
      rw [← hsame c hne]
      exact hrest c hc
    · intro c hc
      obtain ⟨hne, hc⟩ : c ≠ category ∧ c ∉ categories := by simpa using hc
      rw [hothers c hc, hsame c hne]

/-- The first fault is the one that is reported. -/
theorem applyEntries_error (sectionName : String) {before after : List Category} {e : ThemeError}
    (hbefore : ∀ c ∈ before, fault? chosen c = none) (h : fault? chosen category = some e)
    (p : Palette) :
    applyEntries sectionName p (choicesFor (before ++ category :: after) chosen) =
      .error (.color ("theme." ++ sectionName ++ "." ++ category.name) e) := by
  induction before generalizing p with
  | nil =>
    rw [List.nil_append, choicesFor, List.map_cons]
    cases hc : chosen category with
    | none => simp [fault?, hc] at h
    | some text =>
      cases hx : Color.ofHex text with
      | ok color => simp [fault?, hc, hx] at h
      | error e' =>
        obtain rfl : e' = e := by simpa [fault?, hc, hx] using h
        rw [applyEntries, hx]
  | cons c before ih =>
    obtain ⟨hfault, hbefore⟩ := List.forall_mem_cons.mp hbefore
    obtain ⟨q, hq, -, -⟩ := applyEntries_cons sectionName p hfault (before ++ category :: after)
    rw [List.cons_append, hq]
    exact ih hbefore q

end

theorem nodup_all : Category.all.Nodup := by decide

section

variable {x : ColorChoices} {sectionName : String}

/-- Choices that are all colours give a palette, in which the other colours are as before. -/
theorem apply_of_sound (h : ∀ c, fault? x.get c = none) (sectionName : String) (p : Palette) :
    ∃ q, x.apply sectionName p = .ok q ∧ ∀ c, Shows (x.get c) (p.get c) (q.get c) := by
  obtain ⟨q, hq, hshows, -⟩ :=
    exists_applyEntries sectionName nodup_all (fun c _ => h c) p
  refine ⟨q, ?_, fun c => hshows c c.mem_all⟩
  rw [ColorChoices.apply, entries_eq]
  exact hq

/-- Of choices that are not all colours the first one that is none is reported. -/
theorem apply_of_fault (h : ∃ c, fault? x.get c ≠ none) (sectionName : String) (p : Palette) :
    ∃ before c after e, Category.all = before ++ c :: after ∧
      (∀ b ∈ before, fault? x.get b = none) ∧ fault? x.get c = some e ∧
      x.apply sectionName p = .error (.color ("theme." ++ sectionName ++ "." ++ c.name) e) := by
  obtain ⟨c, hc⟩ : ∃ c, Category.all.find? (fun c => (fault? x.get c).isSome) = some c := by
    obtain ⟨c, hc⟩ := h
    rw [← Option.isSome_iff_exists, List.find?_isSome]
    exact ⟨c, c.mem_all, Option.isSome_iff_ne_none.mpr hc⟩
  obtain ⟨hfault, before, after, hall, hbefore⟩ := List.find?_eq_some_iff_append.mp hc
  obtain ⟨e, he⟩ := Option.isSome_iff_exists.mp hfault
  have hsound : ∀ b ∈ before, fault? x.get b = none := by simpa using hbefore
  refine ⟨before, c, after, e, hall, hsound, he, ?_⟩
  rw [ColorChoices.apply, entries_eq, hall]
  exact applyEntries_error sectionName hsound he p

end

/-! ## Themes -/

/-- The first fault among all choices, at the place where it is. -/
structure FirstFault (chosen : Choices) (mode : ColorMode) (category : Category)
    (e : ThemeError) : Prop where
  fault : fault? (chosen mode) category = some e
  first : ∃ before after, places = before ++ (mode, category) :: after ∧
    ∀ place ∈ before, fault? (chosen place.1) place.2 = none

/-- There is one first fault. -/
theorem FirstFault.find?_eq {chosen : Choices} {mode : ColorMode} {category : Category}
    {e : ThemeError} (h : FirstFault chosen mode category e) :
    places.find? (fun place => (fault? (chosen place.1) place.2).isSome) =
      some (mode, category) := by
  obtain ⟨before, after, hplaces, hbefore⟩ := h.first
  refine List.find?_eq_some_iff_append.mpr ⟨by simp [h.fault], before, after, hplaces, ?_⟩
  intro place hplace
  simp [hbefore place hplace]

section

variable {s : Settings}

/-- **Choices that are colours make a theme** in which every other colour is a preset. -/
theorem theme_of_sound (hs : ∀ mode c, fault? (s.chosen mode) c = none) :
    ∃ theme, s.theme = .ok theme ∧
      ∀ mode c, Shows (s.chosen mode c) (preset mode c) (theme.resolve mode c) := by
  obtain ⟨light, hlight, hshowsLight⟩ := apply_of_sound (hs .light) "light" .light
  obtain ⟨dark, hdark, hshowsDark⟩ := apply_of_sound (hs .dark) "dark" .dark
  refine ⟨⟨light, dark⟩, ?_, ?_⟩
  · rw [theme, hlight, hdark]
    rfl
  · intro mode c
    cases mode with
    | light => exact hshowsLight c
    | dark => exact hshowsDark c

/-- **Otherwise the first choice that is no colour is reported**, with the field that it is in. -/
theorem theme_of_fault (hf : ∃ mode c, fault? (s.chosen mode) c ≠ none) :
    ∃ mode c e, FirstFault s.chosen mode c e ∧ s.theme = .error (.color (fieldPath mode c) e) := by
  by_cases hlight : ∃ c, fault? (s.chosen .light) c ≠ none
  · obtain ⟨before, c, after, e, hall, hbefore, he, herror⟩ :=
      apply_of_fault hlight "light" .light
    have hmode := congrArg (List.map (ColorMode.light, ·)) hall
    refine ⟨.light, c, e, ⟨he, before.map (.light, ·), after.map (.light, ·) ++
      Category.all.map (.dark, ·), ?_, ?_⟩, ?_⟩
    · rw [places, List.flatMap_cons, List.flatMap_singleton, hmode, List.map_append,
        List.append_assoc, List.map_cons, List.cons_append]
    · intro place hplace
      obtain ⟨b, hb, rfl⟩ := List.mem_map.mp hplace
      exact hbefore b hb
    · rw [theme, herror, fieldPath_light]
      rfl
  · -- the dark choices are read when all light ones are colours
    have hsound : ∀ c, fault? (s.chosen .light) c = none := by simpa using hlight
    have hdark : ∃ c, fault? (s.chosen .dark) c ≠ none := by
      obtain ⟨mode, c, hc⟩ := hf
      cases mode with
      | light => exact absurd (hsound c) hc
      | dark => exact ⟨c, hc⟩
    obtain ⟨before, c, after, e, hall, hbefore, he, herror⟩ := apply_of_fault hdark "dark" .dark
    obtain ⟨light, hok, -⟩ := apply_of_sound hsound "light" .light
    have hmode := congrArg (List.map (ColorMode.dark, ·)) hall
    refine ⟨.dark, c, e, ⟨he, Category.all.map (.light, ·) ++ before.map (.dark, ·),
      after.map (.dark, ·), ?_, ?_⟩, ?_⟩
    · rw [places, List.flatMap_cons, List.flatMap_singleton, hmode, List.map_append,
        List.map_cons, List.append_assoc]
    · intro place hplace
      rcases List.mem_append.mp hplace with hplace | hplace
      · obtain ⟨b, hb, rfl⟩ := List.mem_map.mp hplace
        exact hsound b
      · obtain ⟨b, hb, rfl⟩ := List.mem_map.mp hplace
        exact hbefore b hb
    · rw [theme, hok, herror, fieldPath_dark]
      rfl

theorem validate_of_theme {theme : Theme} (h : s.theme = .ok theme) : s.validate = .ok () := by
  rw [validate, h]
  rfl

theorem validate_of_error {e : SettingsError} (h : s.theme = .error e) :
    s.validate = .error e := by
  rw [validate, h]
  rfl

theorem theme_of_validate (h : s.validate = .ok ()) : ∃ theme, s.theme = .ok theme := by
  cases ht : s.theme with
  | ok theme => exact ⟨theme, rfl⟩
  | error e => cases (validate_of_error ht).symm.trans h

/-- Settings that pass the check have only colours among their choices. -/
theorem sound_of_validate (h : s.validate = .ok ()) (mode : ColorMode) (c : Category) :
    fault? (s.chosen mode) c = none := by
  obtain ⟨theme, htheme⟩ := theme_of_validate h
  cases hfault : fault? (s.chosen mode) c with
  | none => rfl
  | some e =>
    have hsome : fault? (s.chosen mode) c ≠ none := by simp [hfault]
    obtain ⟨_, _, _, -, herror⟩ := theme_of_fault ⟨mode, c, hsome⟩
    cases htheme.symm.trans herror

end

end Settings

end RichMarkdown
