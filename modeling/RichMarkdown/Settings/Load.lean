import RichMarkdown.Settings.Basic
import RichMarkdown.Settings.FileTree
import RichMarkdown.Toml.Read

/-!
# Loading settings

Settings are read from the file at a given path, or else from the nearest settings file in the
current directory and those above it; without one they are the usual settings. A file in which a
colour is none is refused. How texts are read is a parameter (`Settings.loadWith`). `Settings.load`
reads TOML, and refuses texts with a key that is not known or with a value of the wrong kind.
-/

set_option autoImplicit false

namespace RichMarkdown.Settings

open Toml (Value)

def fileName : String := "prism.toml"

/-! ## Reading sections -/

/-- The values of the named fields of a section. A section is a table without other keys, or an
array of values in the order of the fields. -/
def fields? (names : List String) : Value → Option (String → Option Value)
  | .table _ entries =>
    if entries.all fun e => names.contains e.1 then some fun name => entries.lookup name else none
  | .array _ values => some fun name => (names.idxOf? name).bind (values[·]?)
  | _ => none

def isEmptyValue : Value → Bool
  | .table _ [] => true
  | .array _ [] => true
  | _ => false

/-- A boolean, or the usual one if there is no value. -/
def boolean? (usual : Bool) : Option Value → Option Bool
  | none => some usual
  | some (.boolean b) => some b
  | some _ => none

/-- A colour mode, named by a string or by the only key of a table that holds nothing. -/
def mode? (usual : ColorMode) : Option Value → Option ColorMode
  | none => some usual
  | some (.string s) => ColorMode.ofExactName? s
  | some (.table _ [(name, v)]) => if isEmptyValue v then ColorMode.ofExactName? name else none
  | some _ => none

/-- A section, or the usual values if there is none. -/
def sectionOf? {α : Type} (usual : α) (read : Value → Option α) : Option Value → Option α
  | none => some usual
  | some v => read v

/-- The extensions of Markdown. -/
def options? (usual : Options) (v : Value) : Option Options := do
  let field ← fields? ["gfm", "footnotes", "metadata_blocks", "block_directives",
    "inline_directives", "doxygen_commands"] v
  return {
    gfm := ← boolean? usual.gfm (field "gfm")
    footnotes := ← boolean? usual.footnotes (field "footnotes")
    metadata := ← boolean? usual.metadata (field "metadata_blocks")
    blockDirectives := ← boolean? usual.blockDirectives (field "block_directives")
    inlineDirectives := ← boolean? usual.inlineDirectives (field "inline_directives")
    commands := ← boolean? usual.commands (field "doxygen_commands") }

/-- The choices for rendering, put into settings. -/
def render? (s : Settings) (v : Value) : Option Settings := do
  let field ← fields? ["mode", "highlight", "heading_anchors", "cache_highlighting"] v
  return { s with
    mode := ← mode? s.mode (field "mode")
    highlight := ← boolean? s.highlight (field "highlight")
    anchors := ← boolean? s.anchors (field "heading_anchors")
    cacheTokens := ← boolean? s.cacheTokens (field "cache_highlighting") }

/-- The text chosen as a colour, if there is one; it must be a string. -/
def choice? : Option Value → Option (Option String)
  | none => some none
  | some (.string s) => some (some s)
  | some _ => none

/-- The colours chosen for a palette. -/
def colors? (v : Value) : Option ColorChoices := do
  let field ← fields? (Category.all.map (·.name)) v
  return {
    keyword := ← choice? (field "keyword")
    string := ← choice? (field "string")
    comment := ← choice? (field "comment")
    number := ← choice? (field "number")
    function := ← choice? (field "function")
    typeName := ← choice? (field "type")
    varName := ← choice? (field "variable")
    operator := ← choice? (field "operator")
    punctuation := ← choice? (field "punctuation")
    property := ← choice? (field "property")
    attrName := ← choice? (field "attribute") }

/-- The colours chosen for both palettes, put into settings. -/
def theme? (s : Settings) (v : Value) : Option Settings := do
  let field ← fields? ["light", "dark"] v
  return { s with
    lightColors := ← sectionOf? s.lightColors colors? (field "light")
    darkColors := ← sectionOf? s.darkColors colors? (field "dark") }

def ofValue? (v : Value) : Option Settings := do
  let field ← fields? ["parse", "render", "theme"] v
  let s : Settings := {}
  let options ← sectionOf? s.options (options? s.options) (field "parse")
  let s := { s with options }
  let s ← sectionOf? s (render? s) (field "render")
  sectionOf? s (theme? s) (field "theme")

/-- The settings that a TOML text gives. -/
def read? (text : String) : Option Settings :=
  (Toml.read? text).bind fun entries => ofValue? (.table .header entries)

/-! ## Files -/

section

variable (read : String → Option Settings)

/-- The settings in the text of the file at a path. Every colour must be one. -/
def ofText (path text : String) : Except SettingsError Settings :=
  match read text with
  | none => .error .malformed
  | some s => do
    let s := { s with path := some path }
    s.validate
    return s

/-- The settings in force in a directory, or those of the file at a given path. -/
def find (t : FileTree) (directory : Location) : Option String → Except SettingsError Settings
  | some path =>
    match t.atPath directory path with
    | .missing => .error (.notFound path)
    | .directory => .error .unreadable
    | .file text => ofText read path text
  | none =>
    match t.nearest? fileName directory with
    | some (location, text) => ofText read ("/".intercalate location) text
    | none => .ok {}

/-- The settings in force with the choices of a caller, where files are read by `read`. -/
def loadWith (t : FileTree) (directory : Location) (path : Option String)
    (overrides : Option Overrides) : Except SettingsError Settings := do
  let s ← find read t directory path
  return (overrides.map s.override).getD s

end

/-- The settings in force with the choices of a caller, where files are TOML. -/
def load : FileTree → Location → Option String → Option Overrides →
    Except SettingsError Settings :=
  loadWith read?

end RichMarkdown.Settings
