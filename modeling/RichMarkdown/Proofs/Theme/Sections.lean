import RichMarkdown.Proofs.Text.Lines
import RichMarkdown.Proofs.Theme.Reading

/-!
# The sections of a stylesheet

A reading of stylesheets line by line: a line begins a block, ends one or holds declarations of its
own, as a rule that fits on one line does (`Line.ofText`). In the stylesheet of a theme the lines
make up three sections, one for each palette and one for the rules of the categories
(`readLines_stylesheet`). Following the references from a class to its rule, from there to a
property and to the value in force (`colorIn`), a reader finds the colours of the theme.

* `declaresPalette_paletteLines`, `hasRules_ruleLines`: what the sections say.
* `declared_stylesheet`: line by line, the declarations of a stylesheet are found where a reading of
  the whole text finds them.
* `colorIn_stylesheet`: the stylesheet gives a category its colour.
-/

set_option autoImplicit false

namespace RichMarkdown

/-! ## Lines -/

/-- What a line of a stylesheet says. -/
inductive Line where
  /-- It begins a block, after some words. -/
  | opens (head : String)
  | closes
  /-- It holds declarations, with the blocks that begin and end on it. -/
  | holds (ds : List Declaration)
  deriving DecidableEq, Repr

namespace Line

/-- What a line says by itself, if it is not blank. -/
def ofText (cs : List Char) : Option Line :=
  let core := Text.trim cs
  if core = [] then none
  else if core = ['\x7d'] then some .closes
  else if core.getLast? = some '\x7b' then
    some (.opens (String.ofList (Text.trim core.dropLast)))
  else some (.holds (Declaration.readFrom [] [] cs))

/-- Whether a line holds a declaration of some kind. -/
def any (p : Declaration → Bool) : Line → Bool
  | .holds ds => ds.any p
  | _ => false

/-- The declarations of some lines that stand in some blocks. -/
def declared (path : List String) : List Line → List Declaration
  | [] => []
  | .opens head :: ls => declared (path ++ [head]) ls
  | .closes :: ls => declared path.dropLast ls
  | .holds ds :: ls => ds.map (fun d => { d with path := path ++ d.path }) ++ declared path ls

theorem ofText_of_getLast? {cs : List Char} (h : (Text.trim cs).getLast? = some ';') :
    ofText cs = some (.holds (Declaration.readFrom [] [] cs)) := by
  have hnil : Text.trim cs ≠ [] := by
    intro hcore
    rw [hcore] at h
    cases h
  have hcloses : Text.trim cs ≠ ['\x7d'] := by
    intro hcore
    rw [hcore] at h
    exact absurd h (by decide)
  have hopens : (Text.trim cs).getLast? ≠ some '\x7b' := by
    rw [h]
    decide
  rw [ofText, if_neg hnil, if_neg hcloses, if_neg hopens]

end Line

/-- What the lines of a text say. -/
def readLines (cs : List Char) : List Line := (Text.lines cs).filterMap Line.ofText

/-- Full lines are read one after the other. -/
theorem readLines_append {l : List Char} (h : l.getLast? = some '\n') (cs : List Char) :
    readLines (l ++ cs) = readLines l ++ readLines cs := by
  have hclosed : ∀ c ∈ l.getLast?, c = '\n' := by
    rw [h]
    exact fun c hc => (Option.some.inj hc).symm
  rw [readLines, Text.lines_append_of_closed hclosed, List.filterMap_append, readLines, readLines]

/-- A line that ends in a semicolon holds declarations. -/
theorem readLines_semicolon {l : List Char} (hl : ∀ c ∈ l, c ≠ '\n') (rest : List Char) :
    readLines (l ++ [';', '\n'] ++ rest) =
      .holds (Declaration.readFrom [] [] (l ++ [';', '\n'])) :: readLines rest := by
  have hfeed : '\n' ∉ l ++ [';'] := by
    simpa using fun h => hl _ h rfl
  have hlast := Text.getLast?_trim (c := ';') (by decide) Text.blank_newline l
  have hline : l ++ [';', '\n'] = l ++ [';'] ++ ['\n'] := by simp
  rw [readLines, hline, Text.lines_append hfeed, ← hline,
    List.filterMap_cons_some (Line.ofText_of_getLast? hlast), readLines]

/-! ## The sections of a theme -/

/-- What a palette declares, line by line. -/
def paletteLines (p : Palette) : List Line :=
  Category.all.map fun c => .holds [⟨[], c.cssProperty, (p.get c).toHex⟩]

/-- The rules of the categories, line by line. -/
def ruleLines : List Line := Category.all.map fun c => .holds (ruleDeclarations c)

/-- The line of a category in a palette holds one declaration. -/
theorem readLines_declaration {indent : String} (hi : ∀ c ∈ indent.toList, c = ' ')
    (category : Category) (color : Color) (rest : List Char) :
    readLines ((Theme.declaration indent (category, color)).toList ++ rest) =
      .holds [⟨[], category.cssProperty, color.toHex⟩] :: readLines rest := by
  have hblank : ∀ c ∈ indent.toList, Text.isBlank c = true := by
    intro c hc
    rw [hi c hc]
    rfl
  have hfeed : ∀ c ∈ indent.toList ++ category.cssProperty.toList ++ [':', ' '] ++
      color.toHex.toList, c ≠ '\n' := by
    simp only [List.forall_mem_append]
    refine ⟨⟨⟨fun c hc => ?_, ?_⟩, by simp⟩, ?_⟩
    · rw [hi c hc]
      decide
    · exact List.all_iff_forall_prop.mp (by cases category <;> decide +kernel)
    · exact Color.forall_mem_toHex (by decide) (by decide) color
  have hline : (Theme.declaration indent (category, color)).toList =
      indent.toList ++ category.cssProperty.toList ++ [':', ' '] ++ color.toHex.toList ++
        [';', '\n'] := by
    simp [Theme.declaration]
  have hread := Declaration.readFrom_line [] (List.forall_mem_nil _) hblank category color []
  rw [List.append_nil] at hread
  rw [hline, readLines_semicolon hfeed, ← hline, hread]
  rfl

theorem readLines_declarations {indent : String} (hi : ∀ c ∈ indent.toList, c = ' ')
    (p : Palette) (rest : List Char) :
    readLines ((Theme.declarations indent p).toList ++ rest) =
      paletteLines p ++ readLines rest := by
  rw [Theme.declarations, Palette.toList, paletteLines]
  induction Category.all with
  | nil => rfl
  | cons c cs ih =>
    rw [List.map_cons, List.map_cons, String.join_cons, String.toList_append, List.append_assoc,
      readLines_declaration hi, ih]
    rfl

theorem readLines_rules (cs : List Category) :
    readLines (String.join (cs.map Theme.rule)).toList =
      cs.map fun c => .holds (ruleDeclarations c) := by
  induction cs with
  | nil => rfl
  | cons c cs ih =>
    -- no colour stands in a rule, so the rule of each category is a fixed text
    have hclosed : (Theme.rule c).toList.getLast? = some '\n' := by cases c <;> decide +kernel
    have hrule : readLines (Theme.rule c).toList = [.holds (ruleDeclarations c)] := by
      cases c <;> decide +kernel
    rw [List.map_cons, String.join_cons, String.toList_append, readLines_append hclosed, hrule, ih]
    rfl

/-- **The sections of the stylesheet of a theme.** -/
theorem readLines_stylesheet (t : Theme) :
    readLines t.stylesheet.toList =
      .opens ":root" :: paletteLines t.light ++ .closes ::
        .opens "@media (prefers-color-scheme: dark)" :: .opens ":root" :: paletteLines t.dark ++
          .closes :: .closes :: ruleLines := by
  have htext : t.stylesheet.toList = ":root \x7b\n".toList ++
      ((Theme.declarations "  " t.light).toList ++
        ("\x7d\n\n@media (prefers-color-scheme: dark) \x7b\n  :root \x7b\n".toList ++
          ((Theme.declarations "    " t.dark).toList ++
            ("  \x7d\n\x7d\n\n".toList ++
              (String.join (Category.all.map Theme.rule)).toList)))) := by
    simp [Theme.stylesheet]
  have hlight : readLines ":root \x7b\n".toList = [.opens ":root"] := by decide +kernel
  have hdark : readLines
      "\x7d\n\n@media (prefers-color-scheme: dark) \x7b\n  :root \x7b\n".toList =
      [.closes, .opens "@media (prefers-color-scheme: dark)", .opens ":root"] := by
    decide +kernel
  have hend : readLines "  \x7d\n\x7d\n\n".toList = [.closes, .closes] := by decide +kernel
  rw [htext, readLines_append (by decide), hlight,
    readLines_declarations (List.all_iff_forall_prop.mp (by decide)),
    readLines_append (by decide), hdark,
    readLines_declarations (List.all_iff_forall_prop.mp (by decide)),
    readLines_append (by decide), hend, readLines_rules]
  simp [ruleLines]

/-- The lines of a section that declares the colours of a palette, once for each category. -/
structure DeclaresPalette (p : Palette) (ls : List Line) : Prop where
  only : ∀ l ∈ ls, ∃ (c : Category) (value : String),
    l = .holds [⟨[], "--syntax-" ++ c.name, value⟩]
  once : ∀ c : Category, ∃ value : String,
    ls.filter (Line.any (·.property = "--syntax-" ++ c.name)) =
      [.holds [⟨[], "--syntax-" ++ c.name, value⟩]] ∧
    Color.ofHex value = .ok (p.get c)

/-- The lines of a section that has one rule for each category, where it refers to the property of
the category. -/
structure HasRules (ls : List Line) : Prop where
  only : ∀ l ∈ ls, ∃ (c : Category) (ds : List Declaration),
    l = .holds ds ∧ ds ≠ [] ∧ ∀ d ∈ ds, d.path = [".token-" ++ c.name]
  once : ∀ c : Category, ∃ ds : List Declaration,
    ls.filter (Line.any (·.path = [".token-" ++ c.name])) = [.holds ds] ∧
    ds.filter (·.property = "color") =
      [⟨[".token-" ++ c.name], "color", "var(--syntax-" ++ c.name ++ ")"⟩]

theorem declaresPalette_paletteLines (p : Palette) : DeclaresPalette p (paletteLines p) where
  only := List.forall_mem_map.mpr fun c _ => ⟨c, (p.get c).toHex, rfl⟩
  once c := by
    refine ⟨(p.get c).toHex, ?_, Color.ofHex_toHex (p.get c)⟩
    cases c <;> rfl

theorem hasRules_ruleLines : HasRules ruleLines where
  only := List.forall_mem_map.mpr fun c _ =>
    ⟨c, ruleDeclarations c, rfl, List.cons_ne_nil _ _, by cases c <;> decide +kernel⟩
  once c := ⟨ruleDeclarations c, by cases c <;> decide +kernel, by cases c <;> decide +kernel⟩

/-! ## Colours -/

/-- **Line by line, a stylesheet declares the same.** -/
theorem declared_stylesheet (t : Theme) :
    Line.declared [] (readLines t.stylesheet.toList) = declarations t.stylesheet := by
  rw [readLines_stylesheet, declarations_stylesheet]
  rfl

/-- The value that a property has in the end. -/
def lastValue? (ds : List Declaration) (property : String) : Option String :=
  ((ds.filter (·.property = property)).map (·.value)).getLast?

/-- The property that a value refers to. -/
def referred? (value : String) : Option String :=
  let cs := value.toList
  if cs.take 4 = "var(".toList ∧ cs.getLast? = some ')' then
    some (String.ofList (cs.drop 4).dropLast)
  else none

/-- The blocks whose declarations are in force. -/
def ColorMode.paths : ColorMode → List (List String)
  | .light => [ColorMode.light.path]
  | .dark => [ColorMode.light.path, ColorMode.dark.path]

/-- The colour that a stylesheet gives a class: the rule of the class refers to a property, and that
has a value in the mode. -/
def colorIn (css : String) (mode : ColorMode) (cls : String) : Option Color := do
  let ds := Line.declared [] (readLines css.toList)
  let value ← lastValue? (ds.filter (·.path = ["." ++ cls])) "color"
  let property ← referred? value
  let hex ← lastValue? (ds.filter (·.path ∈ mode.paths)) property
  (Color.ofHex hex).toOption

/-- **A stylesheet gives a category its colour.** -/
theorem colorIn_stylesheet (t : Theme) (mode : ColorMode) (c : Category) :
    colorIn t.stylesheet mode c.cssClass = some (t.resolve mode c) := by
  have hrule : lastValue? ((declarations t.stylesheet).filter (·.path = ["." ++ c.cssClass]))
      "color" = some ("var(" ++ c.cssProperty ++ ")") := by
    rw [declarations_stylesheet]
    cases c <;> rfl
  have hreferred : referred? ("var(" ++ c.cssProperty ++ ")") = some c.cssProperty := by
    cases c <;> decide +kernel
  have hvalue : lastValue? ((declarations t.stylesheet).filter (·.path ∈ mode.paths))
      c.cssProperty = some (t.resolve mode c).toHex := by
    rw [declarations_stylesheet]
    cases mode <;> cases c <;> rfl
  simp only [colorIn, declared_stylesheet, hrule, hreferred, hvalue, Option.bind_eq_bind,
    Option.bind_some, Color.ofHex_toHex]
  rfl

theorem stylesheet_injective {t u : Theme} (h : u.stylesheet = t.stylesheet) : u = t := by
  have hresolve (mode : ColorMode) (c : Category) : u.resolve mode c = t.resolve mode c := by
    have hcolor := colorIn_stylesheet u mode c
    rw [h, colorIn_stylesheet] at hcolor
    exact (Option.some.inj hcolor).symm
  have hlight := Palette.ext_get (hresolve .light)
  have hdark := Palette.ext_get (hresolve .dark)
  cases t
  cases u
  exact Theme.mk.injEq .. ▸ ⟨hlight, hdark⟩

/-- **A stylesheet determines its theme.** Read line by line, it has a block with the colours of the
light palette, a block for readers who prefer dark ones with those of the dark palette and a rule
for each category; no other theme has it, and in each mode a category has the colour that the
stylesheet gives its class. -/
theorem stylesheet_determines (t : Theme) :
    (∃ light dark rules : List Line,
      readLines t.stylesheet.toList =
        .opens ":root" :: light ++ .closes ::
          .opens "@media (prefers-color-scheme: dark)" :: .opens ":root" :: dark ++
            .closes :: .closes :: rules ∧
      DeclaresPalette t.light light ∧ DeclaresPalette t.dark dark ∧ HasRules rules) ∧
    (∀ u : Theme, u.stylesheet = t.stylesheet ↔ u = t) ∧
    ∀ (mode : ColorMode) (c : Category),
      colorIn t.stylesheet mode ("token-" ++ c.name) = some (t.resolve mode c) := by
  refine ⟨⟨paletteLines t.light, paletteLines t.dark, ruleLines, readLines_stylesheet t, ?_⟩,
    fun u => ⟨stylesheet_injective, fun h => h ▸ rfl⟩, colorIn_stylesheet t⟩
  exact ⟨declaresPalette_paletteLines t.light, declaresPalette_paletteLines t.dark,
    hasRules_ruleLines⟩

end RichMarkdown
