import RichMarkdown.Proofs.Settings.Colors
import RichMarkdown.Settings.Load

/-!
# Colours in settings files

What is assumed of a reader of settings: the colours that settings choose are the strings in their
fields of the text (`Settings.ReaderLaws`). The reader of TOML keeps to it. It goes through the
sections of a text, and a section without a value chooses what is chosen without a text.

* `readerLaws_read?`: the settings in a TOML text choose the colours in its fields.
-/

set_option autoImplicit false

namespace RichMarkdown.Settings

open Toml (Value)

/-- A reader of settings reads colours from their fields, where `string? text keys` is the string
that the text has in the field with these keys, if it has one. -/
structure ReaderLaws (read : String → Option Settings)
    (string? : String → List String → Option String) : Prop where
  chosen : ∀ text s, read text = some s →
    ∀ mode c, s.chosen mode c = string? text (fieldKeys mode c)

/-! ## Fields -/

/-- The value of a field of a section, if it is there. -/
def member? (names : List String) (name : String) (v : Value) : Option Value :=
  (fields? names v).bind (· name)

theorem member?_eq {names : List String} {v : Value} {field : String → Option Value}
    (h : fields? names v = some field) (name : String) : member? names name v = field name := by
  rw [member?, h, Option.bind_some]

/-- The string at the end of some keys, each of which is the name of a field of its section. -/
def stringAt? : (sections : List (List String)) → (keys : List String) → Value → Option String
  | names :: sections, key :: keys, v => (member? names key v).bind (stringAt? sections keys)
  | [], [], .string s => some s
  | _, _, _ => none

/-- The names of the fields of settings, of their theme and of the colours in one mode. -/
def themeSections : List (List String) :=
  [["parse", "render", "theme"], ["light", "dark"], Category.all.map (·.name)]

/-- The string that a TOML text has in a field of its theme. -/
def tomlString? (text : String) (keys : List String) : Option String :=
  (Toml.read? text).bind fun entries => stringAt? themeSections keys (.table .header entries)

/-! ## Sections -/

theorem choice?_eq_some {v : Option Value} {x : Option String} (h : choice? v = some x) :
    x = v.bind (stringAt? [] []) := by
  unfold choice? at h
  split at h
  · exact (Option.some.inj h).symm
  · exact (Option.some.inj h).symm
  · cases h

/-- The choices of a palette are the strings in its fields. -/
theorem get_of_colors? {v : Value} {x : ColorChoices} (h : colors? v = some x) (c : Category) :
    x.get c = stringAt? [Category.all.map (·.name)] [c.key] v := by
  simp only [colors?, Option.bind_eq_bind, Option.bind_eq_some_iff] at h
  obtain ⟨field, hfield, _, h₁, _, h₂, _, h₃, _, h₄, _, h₅, _, h₆, _, h₇, _, h₈, _, h₉, _, h₁₀,
    _, h₁₁, heq⟩ := h
  obtain rfl := Option.some.inj heq
  rw [stringAt?, member?_eq hfield]
  cases c with
  | keyword => exact choice?_eq_some h₁
  | string => exact choice?_eq_some h₂
  | comment => exact choice?_eq_some h₃
  | number => exact choice?_eq_some h₄
  | function => exact choice?_eq_some h₅
  | typeName => exact choice?_eq_some h₆
  | varName => exact choice?_eq_some h₇
  | operator => exact choice?_eq_some h₈
  | punctuation => exact choice?_eq_some h₉
  | property => exact choice?_eq_some h₁₀
  | attrName => exact choice?_eq_some h₁₁

/-- A section without a value chooses nothing. -/
theorem get_of_sectionOf? {v : Option Value} {x : ColorChoices}
    (h : sectionOf? {} colors? v = some x) (c : Category) :
    x.get c = v.bind (stringAt? [Category.all.map (·.name)] [c.key]) := by
  cases v with
  | none =>
    obtain rfl : {} = x := Option.some.inj h
    cases c <;> rfl
  | some v => exact get_of_colors? h c

theorem chosen_of_theme? {s t : Settings} {v : Value} (h : theme? s v = some t)
    (hlight : s.lightColors = {}) (hdark : s.darkColors = {}) (mode : ColorMode) (c : Category) :
    t.chosen mode c =
      stringAt? [["light", "dark"], Category.all.map (·.name)] [mode.key, c.key] v := by
  simp only [theme?, Option.bind_eq_bind, Option.bind_eq_some_iff, hlight, hdark] at h
  obtain ⟨field, hfield, light, hl, dark, hd, heq⟩ := h
  obtain rfl := Option.some.inj heq
  rw [stringAt?, member?_eq hfield]
  cases mode with
  | light => exact get_of_sectionOf? hl c
  | dark => exact get_of_sectionOf? hd c

/-- Choices for rendering are no colours. -/
theorem colors_of_render? {s t : Settings} {v : Option Value}
    (h : sectionOf? s (render? s) v = some t) :
    t.lightColors = s.lightColors ∧ t.darkColors = s.darkColors := by
  cases v with
  | none =>
    obtain rfl : s = t := Option.some.inj h
    exact ⟨rfl, rfl⟩
  | some v =>
    simp only [sectionOf?, render?, Option.bind_eq_bind, Option.bind_eq_some_iff] at h
    obtain ⟨_, -, _, -, _, -, _, -, _, -, heq⟩ := h
    obtain rfl := Option.some.inj heq
    exact ⟨rfl, rfl⟩

theorem chosen_of_value {v : Value} {s : Settings} (h : ofValue? v = some s) (mode : ColorMode)
    (c : Category) : s.chosen mode c = stringAt? themeSections (fieldKeys mode c) v := by
  simp only [ofValue?, Option.bind_eq_bind, Option.bind_eq_some_iff] at h
  obtain ⟨field, hfield, options, -, t, ht, hs⟩ := h
  obtain ⟨hlight, hdark⟩ := colors_of_render? ht
  rw [themeSections, fieldKeys, stringAt?, member?_eq hfield]
  cases hv : field "theme" with
  | none =>
    rw [hv] at hs
    obtain rfl : t = s := Option.some.inj hs
    cases mode with
    | light =>
      rw [chosen, hlight]
      cases c <;> rfl
    | dark =>
      rw [chosen, hdark]
      cases c <;> rfl
  | some v =>
    rw [hv] at hs
    exact chosen_of_theme? hs hlight hdark mode c

/-- **Settings in a TOML text choose the colours in its fields.** -/
theorem readerLaws_read? : ReaderLaws read? tomlString? where
  chosen := by
    intro text s h mode c
    obtain ⟨entries, hentries, hs⟩ := Option.bind_eq_some_iff.mp h
    rw [tomlString?, hentries, Option.bind_some]
    exact chosen_of_value hs mode c

end RichMarkdown.Settings
