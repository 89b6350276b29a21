import Mathlib.Data.List.Infix
import RichMarkdown.Proofs.Settings.Reading

/-!
# Loading settings

The settings file in force is the one at a given path, or else the nearest one on the way from the
current directory up to the root (`Settings.source?`). The choices of colours in it are checked when
it is read. A check and a theme go through the same choices, and a caller can choose no colours, so
settings that load are never refused later. Of how a text is read no more is used than
`Settings.ReaderLaws`.

* `FileTree.nearest?_eq`: the search on the way up.
* `load_colors`: what the theme of loaded settings is, and when they do not load because of a
  colour.
-/

set_option autoImplicit false

namespace RichMarkdown

/-! ## Files -/

namespace FileEntry

def content? : FileEntry → Option String
  | file content => some content
  | _ => none

theorem content?_eq_some {x : FileEntry} {content : String} :
    x.content? = some content ↔ x = file content := by
  cases x <;> simp [content?]

theorem content?_eq_none {x : FileEntry} :
    x.content? = none ↔ ∀ content, x ≠ file content := by
  cases x <;> simp [content?]

end FileEntry

namespace FileTree

variable {t : FileTree} {name : String} {directory : Location}

theorem nearest?_of_file {content : String} (h : t.entry (directory ++ [name]) = .file content) :
    t.nearest? name directory = some (directory ++ [name], content) := by
  rw [nearest?.eq_def, h]

theorem nearest?_nil (h : ∀ content, t.entry [name] ≠ .file content) :
    t.nearest? name [] = none := by
  rw [nearest?.eq_def]
  split
  · exact absurd ‹_› (h _)
  · rfl

theorem nearest?_concat {d : String}
    (h : ∀ content, t.entry (directory ++ [d] ++ [name]) ≠ .file content) :
    t.nearest? name (directory ++ [d]) = t.nearest? name directory := by
  rw [nearest?.eq_def]
  split
  · exact absurd ‹_› (h _)
  · split
    · rename_i hnil
      simp at hnil
    · rename_i hcons
      rw [← hcons, List.dropLast_concat]

/-- **The nearest file** is the first one on the way up. -/
theorem nearest?_eq (t : FileTree) (name : String) (directory : Location) :
    (t.nearest? name directory).map (·.2) =
      directory.inits.reverse.findSome? fun above => (t.entry (above ++ [name])).content? := by
  induction directory using List.reverseRecOn with
  | nil =>
    rw [List.inits, List.reverse_singleton, List.findSome?_singleton, List.nil_append]
    cases h : (t.entry [name]).content? with
    | none =>
      rw [nearest?_nil (FileEntry.content?_eq_none.mp h)]
      rfl
    | some content =>
      have hfile : t.entry ([] ++ [name]) = .file content := FileEntry.content?_eq_some.mp h
      rw [nearest?_of_file hfile]
      rfl
  | append_singleton directory d ih =>
    have hinits : (directory ++ [d]).inits.reverse =
        (directory ++ [d]) :: directory.inits.reverse := by
      simp [List.inits_append]
    rw [hinits, List.findSome?_cons, ← ih]
    cases h : (t.entry (directory ++ [d] ++ [name])).content? with
    | none => rw [nearest?_concat (FileEntry.content?_eq_none.mp h)]
    | some content =>
      rw [nearest?_of_file (FileEntry.content?_eq_some.mp h)]
      rfl

end FileTree

/-! ## Loading -/

namespace Settings

/-- The text of the file at a given path, or else of the settings file in force in a directory,
which is in the nearest of this directory and those above it. -/
def source? (t : FileTree) (directory : Location) : Option String → Option String
  | some path => (t.atPath directory path).content?
  | none => directory.inits.reverse.findSome? fun above =>
    (t.entry (above ++ ["prism.toml"])).content?

variable {read : String → Option Settings}

theorem ofText_of_read {path text : String} {s : Settings} (h : read text = some s) :
    ofText read path text =
      ({ s with path := some path }.validate).map fun _ => { s with path := some path } := by
  rw [ofText, h]
  rfl

theorem exists_of_ofText {path text : String} {s : Settings}
    (h : ofText read path text = .ok s) :
    ∃ s₀, read text = some s₀ ∧ s = { s₀ with path := some path } ∧ s.validate = .ok () := by
  cases hs : read text with
  | none =>
    rw [ofText, hs] at h
    cases h
  | some s₀ =>
    rw [ofText_of_read hs] at h
    cases hv : { s₀ with path := some path }.validate with
    | error e =>
      rw [hv] at h
      cases h
    | ok u =>
      rw [hv] at h
      obtain rfl := Except.ok.inj h
      exact ⟨s₀, rfl, rfl, hv⟩

section

variable {t : FileTree} {directory : Location} {path : Option String}

/-- The file in force is the one that is read. -/
theorem exists_find_eq (read : String → Option Settings) {text : String}
    (h : source? t directory path = some text) :
    ∃ name, find read t directory path = ofText read name text := by
  cases path with
  | some path =>
    have hfile : t.atPath directory path = .file text := FileEntry.content?_eq_some.mp h
    exact ⟨path, by rw [find, hfile]⟩
  | none =>
    rw [source?, ← FileTree.nearest?_eq] at h
    obtain ⟨⟨location, content⟩, hnear, rfl⟩ := Option.map_eq_some_iff.mp h
    have hnear : t.nearest? fileName directory = some (location, content) := hnear
    exact ⟨_, by rw [find, hnear]⟩

/-- Settings are those of the file in force, or the usual ones if there is none. -/
theorem source_of_find {s : Settings} (h : find read t directory path = .ok s) :
    (source? t directory path = none ∧ s = {}) ∨
      ∃ name text, source? t directory path = some text ∧ ofText read name text = .ok s := by
  cases hs : source? t directory path with
  | some text =>
    obtain ⟨name, hname⟩ := exists_find_eq read hs
    exact .inr ⟨name, text, rfl, hname.symm.trans h⟩
  | none =>
    refine .inl ⟨rfl, ?_⟩
    cases path with
    | none =>
      rw [source?, ← FileTree.nearest?_eq] at hs
      have hnear : t.nearest? fileName directory = none := Option.map_eq_none_iff.mp hs
      rw [find, hnear] at h
      exact (Except.ok.inj h).symm
    | some path =>
      have hfile := FileEntry.content?_eq_none.mp hs
      rw [find] at h
      cases hat : t.atPath directory path with
      | file content => exact absurd hat (hfile content)
      | _ =>
        rw [hat] at h
        cases h

end

/-- The texts given as colours in the fields of the file in force; there are none without a file. -/
def given (string? : String → List String → Option String) (t : FileTree) (directory : Location)
    (path : Option String) : Choices := fun mode c =>
  (source? t directory path).bind fun text => string? text (fieldKeys mode c)

section

variable {string? : String → List String → Option String} {t : FileTree} {directory : Location}
  {path : Option String}

theorem chosen_of_read (hread : ReaderLaws read string?) {text : String} {s : Settings}
    (h : source? t directory path = some text) (hs : read text = some s) :
    s.chosen = given string? t directory path := by
  funext mode c
  rw [given, h, Option.bind_some]
  exact hread.chosen text s hs mode c

/-- The path of a file chooses no colours. -/
theorem chosen_withPath (s : Settings) (path : Option String) :
    { s with path := path }.chosen = s.chosen := by
  funext mode
  cases mode <;> rfl

/-- A text that can be read gives settings, which are checked. -/
theorem exists_find_of_read {text : String} {s₀ : Settings}
    (h : source? t directory path = some text) (hs : read text = some s₀) :
    ∃ s : Settings, s.chosen = s₀.chosen ∧
      find read t directory path = s.validate.map fun _ => s := by
  obtain ⟨name, hfind⟩ := exists_find_eq read h
  exact ⟨{ s₀ with path := some name }, chosen_withPath s₀ _, hfind.trans (ofText_of_read hs)⟩

/-- Settings that are found have the choices of their file, and have passed the check. -/
theorem chosen_of_find (hread : ReaderLaws read string?) {s : Settings}
    (h : find read t directory path = .ok s) :
    s.chosen = given string? t directory path ∧ s.validate = .ok () := by
  rcases source_of_find h with ⟨hs, rfl⟩ | ⟨name, text, hs, htext⟩
  · refine ⟨?_, rfl⟩
    funext mode c
    rw [given, hs]
    cases mode <;> cases c <;> rfl
  · obtain ⟨s₀, hs₀, rfl, hvalid⟩ := exists_of_ofText htext
    refine ⟨?_, hvalid⟩
    rw [← chosen_of_read hread hs hs₀, chosen_withPath]

/-- The choices of a caller change no colours. -/
theorem chosen_override (overrides : Option Overrides) (s : Settings) :
    ((overrides.map s.override).getD s).chosen = s.chosen := by
  funext mode
  cases overrides <;> cases mode <;> rfl

theorem validate_override (overrides : Option Overrides) (s : Settings) :
    ((overrides.map s.override).getD s).validate = s.validate := by
  cases overrides <;> rfl

theorem loadWith_of_find {s : Settings} (overrides : Option Overrides)
    (h : find read t directory path = .ok s) :
    loadWith read t directory path overrides = .ok ((overrides.map s.override).getD s) := by
  rw [loadWith, h]
  rfl

theorem loadWith_of_error {e : SettingsError} (overrides : Option Overrides)
    (h : find read t directory path = .error e) :
    loadWith read t directory path overrides = .error e := by
  rw [loadWith, h]
  rfl

/-- Settings with the choices of a caller have those of their file and pass the check. -/
theorem chosen_of_loadWith (hread : ReaderLaws read string?) {overrides : Option Overrides}
    {s : Settings} (h : loadWith read t directory path overrides = .ok s) :
    s.chosen = given string? t directory path ∧ s.validate = .ok () := by
  cases hf : find read t directory path with
  | error e => cases (loadWith_of_error overrides hf).symm.trans h
  | ok s₀ =>
    obtain rfl := Except.ok.inj ((loadWith_of_find overrides hf).symm.trans h)
    obtain ⟨hchosen, hvalid⟩ := chosen_of_find hread hf
    rw [chosen_override, validate_override]
    exact ⟨hchosen, hvalid⟩

end

/-- **Settings that load are never refused later.** With any reader of settings, and from any tree
of files, directory, path and choices of a caller: settings that load pass their check and have a
theme and a styled rendering, and in both modes the colour of every category is the one given for it
in the file in force, or else the preset one. Where this file can be read, the settings load if all
colours given are colours, and else fail at the first one that is none, with its field. -/
theorem load_colors {read : String → Option Settings}
    {string? : String → List String → Option String} (hread : ReaderLaws read string?)
    (t : FileTree) (directory : Location) (path : Option String) (overrides : Option Overrides) :
    (∀ s, loadWith read t directory path overrides = .ok s →
      s.validate = .ok () ∧
      ∃ theme, s.theme = .ok theme ∧
        s.styled = .ok { theme, highlighter := s.highlighter, mode := s.mode } ∧
        ∀ mode c, Shows (given string? t directory path mode c) (preset mode c)
          (theme.resolve mode c)) ∧
    ∀ text, source? t directory path = some text → (read text).isSome = true →
      ((∀ mode c, fault? (given string? t directory path mode) c = none) →
        ∃ s, loadWith read t directory path overrides = .ok s) ∧
      ((∃ mode c, fault? (given string? t directory path mode) c ≠ none) →
        ∃ mode c e, FirstFault (given string? t directory path) mode c e ∧
          loadWith read t directory path overrides = .error (.color (fieldPath mode c) e)) := by
  refine ⟨?_, ?_⟩
  · intro s hs
    obtain ⟨hchosen, hvalid⟩ := chosen_of_loadWith hread hs
    obtain ⟨theme, htheme, hshows⟩ := theme_of_sound (sound_of_validate hvalid)
    refine ⟨hvalid, theme, htheme, ?_, hchosen ▸ hshows⟩
    rw [styled, htheme]
    rfl
  · intro text hsource hsome
    obtain ⟨s₀, hs₀⟩ := Option.isSome_iff_exists.mp hsome
    obtain ⟨s, hchosen, hfind⟩ := exists_find_of_read hsource hs₀
    rw [← chosen_of_read hread hsource hs₀, ← hchosen]
    refine ⟨?_, ?_⟩
    · intro hsound
      obtain ⟨theme, htheme, -⟩ := theme_of_sound hsound
      rw [validate_of_theme htheme] at hfind
      exact ⟨_, loadWith_of_find overrides hfind⟩
    · intro hfault
      obtain ⟨mode, c, e, hfirst, herror⟩ := theme_of_fault hfault
      rw [validate_of_error herror] at hfind
      exact ⟨mode, c, e, hfirst, loadWith_of_error overrides hfind⟩

/-- Settings with a colour in each mode, and settings with choices that are no colours. -/
def plain : Settings where
  lightColors := { keyword := some "#010203" }
  darkColors := { typeName := some "#0A0B0C" }

def faulty : Settings where
  lightColors := { typeName := some "red", attrName := some "" }
  darkColors := { keyword := some "#12" }

/-- Directories with files of these settings. -/
def guide : FileTree where
  files := [
    (["work", "prism.toml"],
      "[theme.light]\nkeyword = \"#010203\"\n[theme.dark]\ntype = \"#0A0B0C\"\n"),
    (["drafts", "faulty.toml"],
      "[theme.dark]\nkeyword = \"#12\"\n[theme.light]\nattribute = \"\"\ntype = \"red\"\n")]
  directories := [["work", "chapters"]]

/-- The one file is found from a directory below it or by its path from the root, and loads. The
other one does not: an absolute path leads to it, and the light choices come first. -/
theorem load_colors_guide :
    (∀ place ∈ [(["work", "chapters"], none), (["drafts"], some "/work/prism.toml")],
      ∃ s theme, load guide place.1 place.2 (some { mode := some .dark }) = .ok s ∧
        s.validate = .ok () ∧ s.theme = .ok theme ∧
        theme.resolve .light .keyword = ⟨1, 2, 3⟩ ∧
        theme.resolve .dark .typeName = ⟨10, 11, 12⟩ ∧
        theme.resolve .dark .keyword = Palette.dark.keyword) ∧
    ∃ e, load guide ["work"] (some "/drafts/faulty.toml") none =
      .error (.color "theme.light.type" e) := by
  refine ⟨?_, ?_⟩
  · intro place hplace
    have hfile : (source? guide place.1 place.2).bind read? = some plain := by
      simp only [List.mem_cons, List.not_mem_nil, or_false] at hplace
      rcases hplace with rfl | rfl
      · decide +kernel
      · decide +kernel
    obtain ⟨text, hsource, hread⟩ := Option.bind_eq_some_iff.mp hfile
    obtain ⟨hloaded, hloads⟩ :=
      load_colors readerLaws_read? guide place.1 place.2 (some { mode := some .dark })
    have hsome : (read? text).isSome = true := by rw [hread]; rfl
    rw [← chosen_of_read readerLaws_read? hsource hread] at hloaded hloads
    have hsound (mode : ColorMode) (c : Category) : fault? (plain.chosen mode) c = none := by
      cases mode <;> cases c <;> decide +kernel
    obtain ⟨s, hs⟩ := (hloads text hsource hsome).1 hsound
    obtain ⟨hvalid, theme, htheme, -, hshows⟩ := hloaded s hs
    have hlight := hshows .light .keyword
    have hdark := hshows .dark .typeName
    refine ⟨s, theme, hs, hvalid, htheme, ?_, ?_, hshows .dark .keyword⟩
    · exact Except.ok.inj (hlight.symm.trans (by decide +kernel))
    · exact Except.ok.inj (hdark.symm.trans (by decide +kernel))
  · have hfile : (source? guide ["work"] (some "/drafts/faulty.toml")).bind read? =
        some faulty := by
      decide +kernel
    obtain ⟨text, hsource, hread⟩ := Option.bind_eq_some_iff.mp hfile
    obtain ⟨-, hloads⟩ :=
      load_colors readerLaws_read? guide ["work"] (some "/drafts/faulty.toml") none
    have hsome : (read? text).isSome = true := by rw [hread]; rfl
    rw [← chosen_of_read readerLaws_read? hsource hread] at hloads
    obtain ⟨mode, c, e, hfirst, herror⟩ :=
      (hloads text hsource hsome).2 ⟨.light, .typeName, by decide +kernel⟩
    have hplace : places.find? (fun p => (fault? (faulty.chosen p.1) p.2).isSome) =
        some (.light, .typeName) := by
      decide +kernel
    obtain ⟨rfl, rfl⟩ := Prod.mk.inj (Option.some.inj (hfirst.find?_eq.symm.trans hplace))
    exact ⟨e, herror⟩

end Settings

end RichMarkdown
