import Mathlib.Data.Bool.AllAny
import RichMarkdown.Proofs.Text.Runs
import RichMarkdown.Theme.Stylesheet

/-!
# Reading a stylesheet

`declarations` reads the text of a stylesheet: each declaration with its property, its value and the
selectors of the blocks that it stands in. The stylesheet of a theme is read back block by block.

* `ofHex_toHex`: a colour is read back from its hexadecimal form.
* `declarations_stylesheet`: what the stylesheet of a theme declares.
-/

set_option autoImplicit false

namespace RichMarkdown

/-! ## Trimming -/

namespace Text

theorem blank_space : ∀ c ∈ [' '], isBlank c = true := List.forall_mem_singleton.mpr rfl

theorem blank_newline : ∀ c ∈ ['\n'], isBlank c = true := List.forall_mem_singleton.mpr rfl

/-! ## Colours -/

theorem hexDigit?_upperHexDigit {n : Nat} (h : n < 16) : hexDigit? (upperHexDigit n) = some n := by
  revert n
  decide

end Text

namespace Color

/-- The six digits of a colour. -/
def hexDigits (c : Color) : List Char :=
  channelDigits c.red ++ channelDigits c.green ++ channelDigits c.blue

theorem toList_toHex (c : Color) : c.toHex.toList = '#' :: c.hexDigits := by
  rw [toHex, String.toList_ofList, hexDigits]

theorem forall_mem_hexDigits {p : Char → Prop} (hdigit : ∀ n < 16, p (Text.upperHexDigit n))
    (c : Color) : ∀ d ∈ c.hexDigits, p d := by
  have hchannel (v : UInt8) : ∀ d ∈ channelDigits v, p d := by
    have hlt := v.toNat_lt
    exact List.forall_mem_cons.mpr ⟨hdigit _ (by omega),
      List.forall_mem_singleton.mpr (hdigit _ (Nat.mod_lt _ (by decide)))⟩
  exact List.forall_mem_append.mpr
    ⟨List.forall_mem_append.mpr ⟨hchannel c.red, hchannel c.green⟩, hchannel c.blue⟩

theorem forall_mem_toHex {p : Char → Prop} (hsign : p '#')
    (hdigit : ∀ n < 16, p (Text.upperHexDigit n)) (c : Color) : ∀ d ∈ c.toHex.toList, p d := by
  rw [toList_toHex]
  exact List.forall_mem_cons.mpr ⟨hsign, forall_mem_hexDigits hdigit c⟩

theorem mapM_channelDigits (v : UInt8) :
    (channelDigits v).mapM Text.hexDigit? = some [v.toNat / 16, v.toNat % 16] := by
  have hlt := v.toNat_lt
  have hhigh := Text.hexDigit?_upperHexDigit (n := v.toNat / 16) (by omega)
  have hlow := Text.hexDigit?_upperHexDigit (n := v.toNat % 16) (by omega)
  simp [channelDigits, List.mapM_cons, hhigh, hlow]

theorem channel_digits (v : UInt8) : channel (v.toNat / 16) (v.toNat % 16) = v := by
  rw [channel, Nat.div_add_mod]
  exact UInt8.ofNat_toNat

/-- **A colour is read back from its hexadecimal form.** -/
theorem ofHex_toHex (c : Color) : ofHex c.toHex = .ok c := by
  have hdigits : digitChars c.toHex = c.hexDigits := by
    have htrim := (Text.isTrimmed_of_forall (forall_mem_toHex (by decide) (by decide) c)).trim_eq
    rw [toList_toHex] at htrim
    rw [digitChars, toList_toHex, htrim]
    rfl
  simp [ofHex, hdigits, hexDigits, List.mapM_append, mapM_channelDigits, ofDigits?, channel_digits]

end Color

/-! ## Declarations -/

/-- A declaration in a stylesheet. -/
structure Declaration where
  /-- What stands before the blocks around the declaration, outermost first. -/
  path : List String
  property : String
  value : String
  deriving DecidableEq, Repr

namespace Declaration

/-- The declaration that ends in a semicolon after some text. -/
def ofText (path : List String) (text : List Char) : Declaration where
  path := path
  property := String.ofList (Text.trim (text.takeWhile (· ≠ ':')))
  value := String.ofList (Text.trim ((text.dropWhile (· ≠ ':')).tail))

/-- The declarations in the rest of a stylesheet, inside some blocks and after some text. -/
def readFrom (path : List String) (text : List Char) : List Char → List Declaration
  | [] => []
  | c :: cs =>
    if c = '\x7b' then readFrom (path ++ [String.ofList (Text.trim text)]) [] cs
    else if c = '\x7d' then readFrom path.dropLast [] cs
    else if c = ';' then ofText path text :: readFrom path [] cs
    else readFrom path (text ++ [c]) cs

/-- A character that neither begins nor ends a block or a declaration. -/
def IsPlain (c : Char) : Prop := c ≠ '\x7b' ∧ c ≠ '\x7d' ∧ c ≠ ';'

instance : DecidablePred IsPlain := fun _ => inferInstanceAs (Decidable (_ ∧ _))

variable {cs : List Char} (path : List String) (text rest : List Char)

theorem readFrom_append (h : ∀ c ∈ cs, IsPlain c) :
    readFrom path text (cs ++ rest) = readFrom path (text ++ cs) rest := by
  induction cs generalizing text with
  | nil => rw [List.nil_append, List.append_nil]
  | cons c cs ih =>
    obtain ⟨⟨hopen, hclose, hend⟩, hcs⟩ := List.forall_mem_cons.mp h
    rw [List.cons_append, readFrom, if_neg hopen, if_neg hclose, if_neg hend, ih _ hcs,
      List.append_assoc]
    rfl

theorem readFrom_open (h : ∀ c ∈ cs, IsPlain c) :
    readFrom path text (cs ++ '\x7b' :: rest) =
      readFrom (path ++ [String.ofList (Text.trim (text ++ cs))]) [] rest := by
  rw [readFrom_append _ _ _ h, readFrom, if_pos rfl]

theorem readFrom_close (h : ∀ c ∈ cs, IsPlain c) :
    readFrom path text (cs ++ '\x7d' :: rest) = readFrom path.dropLast [] rest := by
  rw [readFrom_append _ _ _ h, readFrom, if_neg (by decide), if_pos rfl]

theorem readFrom_end (h : ∀ c ∈ cs, IsPlain c) :
    readFrom path text (cs ++ ';' :: rest) =
      ofText path (text ++ cs) :: readFrom path [] rest := by
  rw [readFrom_append _ _ _ h, readFrom, if_neg (by decide), if_neg (by decide), if_pos rfl]

/-- A character of a selector, a property or a value. -/
def IsWordChar (c : Char) : Prop := Text.isBlank c = false ∧ IsPlain c

instance : DecidablePred IsWordChar := fun _ => inferInstanceAs (Decidable (_ ∧ _))

theorem isPlain_of_isBlank {c : Char} (h : Text.isBlank c = true) : IsPlain c := by
  refine ⟨?_, ?_, ?_⟩ <;> rintro rfl <;> revert h <;> decide

/-- One declaration, with blanks before it. -/
theorem readFrom_declaration {before ws name value : List Char}
    (hbefore : ∀ c ∈ before, Text.isBlank c = true) (hws : ∀ c ∈ ws, Text.isBlank c = true)
    (hname : ∀ c ∈ name, IsWordChar c ∧ c ≠ ':') (hvalue : ∀ c ∈ value, IsWordChar c) :
    readFrom path before (ws ++ name ++ ':' :: ' ' :: value ++ ';' :: rest) =
      ⟨path, String.ofList name, String.ofList value⟩ :: readFrom path [] rest := by
  have hcolon {c : Char} (hc : Text.isBlank c = true) : c ≠ ':' := by
    rintro rfl
    revert hc
    decide
  have hblank : ∀ c ∈ before ++ ws, Text.isBlank c = true :=
    List.forall_mem_append.mpr ⟨hbefore, hws⟩
  have hplain : ∀ c ∈ ws ++ name ++ ':' :: ' ' :: value, IsPlain c := by
    refine List.forall_mem_append.mpr ⟨List.forall_mem_append.mpr ⟨?_, ?_⟩, ?_⟩
    · exact fun c hc => isPlain_of_isBlank (hws c hc)
    · exact fun c hc => (hname c hc).1.2
    · exact List.forall_mem_cons.mpr ⟨by decide, List.forall_mem_cons.mpr
        ⟨by decide, fun c hc => (hvalue c hc).2⟩⟩
  have hbeforeColon : ∀ c ∈ before ++ ws ++ name, decide (c ≠ ':') = true := by
    refine List.forall_mem_append.mpr ⟨?_, ?_⟩
    · exact fun c hc => decide_eq_true (hcolon (hblank c hc))
    · exact fun c hc => decide_eq_true (hname c hc).2
  have htext : before ++ (ws ++ name ++ ':' :: ' ' :: value) =
      before ++ ws ++ name ++ ':' :: ' ' :: value := by simp
  have htake : (before ++ ws ++ name ++ ':' :: ' ' :: value).takeWhile (· ≠ ':') =
      before ++ ws ++ name := by
    rw [List.takeWhile_append_of_pos hbeforeColon]
    simp
  have hdrop : (before ++ ws ++ name ++ ':' :: ' ' :: value).dropWhile (· ≠ ':') =
      ':' :: ' ' :: value := by
    rw [List.dropWhile_append_of_pos hbeforeColon]
    simp
  have htrim : Text.trim (' ' :: value) = value := by
    rw [← List.singleton_append, Text.trim_append Text.blank_space,
      (Text.isTrimmed_of_forall fun c hc => (hvalue c hc).1).trim_eq]
  rw [readFrom_end _ _ _ hplain, ofText, htext, htake, hdrop, Text.trim_append hblank,
    (Text.isTrimmed_of_forall fun c hc => (hname c hc).1.1).trim_eq, List.tail_cons, htrim]

end Declaration

/-- The declarations of a stylesheet, in order. -/
def declarations (css : String) : List Declaration := Declaration.readFrom [] [] css.toList

/-! ## The stylesheet of a theme -/

/-- What a palette declares in some blocks. -/
def paletteDeclarations (path : List String) (p : Palette) : List Declaration :=
  Category.all.map fun c => ⟨path, c.cssProperty, (p.get c).toHex⟩

/-- What the rule of a category declares. -/
def ruleDeclarations (c : Category) : List Declaration :=
  ⟨["." ++ c.cssClass], "color", "var(" ++ c.cssProperty ++ ")"⟩ ::
    if c.isItalic then [⟨["." ++ c.cssClass], "font-style", "italic"⟩] else []

/-- The blocks in which the colours of a mode are declared. -/
def ColorMode.path : ColorMode → List String
  | .light => [":root"]
  | .dark => ["@media (prefers-color-scheme: dark)", ":root"]

namespace Declaration

theorem readFrom_newline (path : List String) (rest : List Char) :
    readFrom path [] ('\n' :: rest) = readFrom path ['\n'] rest := rfl

theorem readFrom_line (path : List String) {before : List Char} {indent : String}
    (hbefore : ∀ c ∈ before, Text.isBlank c = true)
    (hi : ∀ c ∈ indent.toList, Text.isBlank c = true) (category : Category) (color : Color)
    (rest : List Char) :
    readFrom path before ((Theme.declaration indent (category, color)).toList ++ rest) =
      ⟨path, category.cssProperty, color.toHex⟩ :: readFrom path ['\n'] rest := by
  have hname : ∀ c ∈ category.cssProperty.toList, IsWordChar c ∧ c ≠ ':' :=
    List.all_iff_forall_prop.mp (by cases category <;> decide)
  have hvalue : ∀ c ∈ color.toHex.toList, IsWordChar c :=
    Color.forall_mem_toHex (by decide) (by decide) color
  have hline := readFrom_declaration path ('\n' :: rest) hbefore hi hname hvalue
  have htext : (Theme.declaration indent (category, color)).toList ++ rest =
      indent.toList ++ category.cssProperty.toList ++ ':' :: ' ' :: color.toHex.toList ++
        ';' :: '\n' :: rest := by
    simp [Theme.declaration]
  rw [htext, hline, String.ofList_toList, String.ofList_toList]
  rfl

/-- The lines of a palette, up to the end of their block. -/
theorem readFrom_palette (path : List String) {indent margin : String}
    (hi : ∀ c ∈ indent.toList, Text.isBlank c = true)
    (hm : ∀ c ∈ margin.toList, Text.isBlank c = true) (p : Palette) (rest : List Char) :
    readFrom path [] ('\n' :: (Theme.declarations indent p).toList ++
        (margin.toList ++ '\x7d' :: rest)) =
      paletteDeclarations path p ++ readFrom path.dropLast [] rest := by
  have hend := readFrom_close path ['\n'] rest fun c hc => isPlain_of_isBlank (hm c hc)
  rw [List.cons_append, readFrom_newline, Theme.declarations, Palette.toList, paletteDeclarations]
  generalize Category.all = cs
  induction cs with
  | nil => exact hend
  | cons c cs ih =>
    rw [List.map_cons, List.map_cons, String.join_cons, String.toList_append, List.append_assoc,
      readFrom_line path Text.blank_newline hi, ih]
    rfl

/-- The end of a rule, with the declaration of its style if it has one. -/
theorem readFrom_style (selector : String) (italic : Bool) (rest : List Char) :
    readFrom [selector] []
        ((if italic then " font-style: italic;" else "").toList ++ ' ' :: '\x7d' :: '\n' :: rest) =
      (if italic then [⟨[selector], "font-style", "italic"⟩] else []) ++
        readFrom [] ['\n'] rest := by
  have hend : readFrom [selector] [] (' ' :: '\x7d' :: '\n' :: rest) =
      readFrom [] ['\n'] rest := rfl
  cases italic with
  | false => exact hend
  | true =>
    have hproperty : ∀ c ∈ "font-style".toList, IsWordChar c ∧ c ≠ ':' :=
      List.all_iff_forall_prop.mp (by decide)
    have hitalic : ∀ c ∈ "italic".toList, IsWordChar c := List.all_iff_forall_prop.mp (by decide)
    have hstyle := readFrom_declaration [selector] (' ' :: '\x7d' :: '\n' :: rest)
      (List.forall_mem_nil _) Text.blank_space hproperty hitalic
    rw [hend] at hstyle
    exact hstyle

/-- The rule of a category. -/
theorem readFrom_rule {before : List Char} (hbefore : ∀ c ∈ before, Text.isBlank c = true)
    (category : Category) (rest : List Char) :
    readFrom [] before ((Theme.rule category).toList ++ rest) =
      ruleDeclarations category ++ readFrom [] ['\n'] rest := by
  have htext : (Theme.rule category).toList ++ rest =
      ('.' :: category.cssClass.toList ++ [' ']) ++ '\x7b' :: ([' '] ++ "color".toList ++
        ':' :: ' ' :: ("var(".toList ++ category.cssProperty.toList ++ ")".toList) ++ ';' ::
          ((if category.isItalic then " font-style: italic;" else "").toList ++
            ' ' :: '\x7d' :: '\n' :: rest)) := by
    simp [Theme.rule]
  have hopen : ∀ c ∈ '.' :: category.cssClass.toList ++ [' '], IsPlain c :=
    List.all_iff_forall_prop.mp (by cases category <;> decide)
  have hselector : String.ofList (Text.trim ('.' :: category.cssClass.toList ++ [' '])) =
      "." ++ category.cssClass := by
    cases category <;> decide
  have hvalue : ∀ c ∈ "var(".toList ++ category.cssProperty.toList ++ ")".toList,
      IsWordChar c :=
    List.all_iff_forall_prop.mp (by cases category <;> decide)
  have hproperty : ∀ c ∈ "color".toList, IsWordChar c ∧ c ≠ ':' :=
    List.all_iff_forall_prop.mp (by decide)
  have hofList : String.ofList ("var(".toList ++ category.cssProperty.toList ++ ")".toList) =
      "var(" ++ category.cssProperty ++ ")" := by
    rw [String.ofList_append, String.ofList_append, String.ofList_toList, String.ofList_toList,
      String.ofList_toList]
  rw [htext, readFrom_open _ _ _ hopen, Text.trim_append hbefore, hselector, List.nil_append,
    readFrom_declaration _ _ (List.forall_mem_nil _) Text.blank_space hproperty hvalue,
    readFrom_style, hofList]
  rfl

theorem readFrom_rules {before : List Char} (hbefore : ∀ c ∈ before, Text.isBlank c = true)
    (cs : List Category) :
    readFrom [] before (String.join (cs.map Theme.rule)).toList =
      cs.flatMap ruleDeclarations := by
  induction cs generalizing before with
  | nil => rfl
  | cons c cs ih =>
    rw [List.map_cons, String.join_cons, String.toList_append, readFrom_rule hbefore,
      ih Text.blank_newline]
    rfl

end Declaration

/-- **What the stylesheet of a theme declares**: the colours of the light palette at its root, those
of the dark palette at the root for readers who prefer them, and the rules of the categories. -/
theorem declarations_stylesheet (t : Theme) :
    declarations t.stylesheet =
      paletteDeclarations ColorMode.light.path t.light ++
        (paletteDeclarations ColorMode.dark.path t.dark ++
          Category.all.flatMap ruleDeclarations) := by
  have htext : t.stylesheet.toList = ":root ".toList ++ '\x7b' ::
      ('\n' :: (Theme.declarations "  " t.light).toList ++ ("".toList ++ '\x7d' ::
        ("\n\n@media (prefers-color-scheme: dark) ".toList ++ '\x7b' ::
          ("\n  :root ".toList ++ '\x7b' ::
            ('\n' :: (Theme.declarations "    " t.dark).toList ++ ("  ".toList ++ '\x7d' ::
              ("\n".toList ++ '\x7d' ::
                ("\n\n".toList ++ (String.join (Category.all.map Theme.rule)).toList)))))))) := by
    simp [Theme.stylesheet]
  have hmedia : String.ofList (Text.trim
      ([] ++ "\n\n@media (prefers-color-scheme: dark) ".toList)) =
      "@media (prefers-color-scheme: dark)" := by decide
  have hroot : String.ofList (Text.trim ([] ++ ":root ".toList)) = ":root" := by decide
  have hroot' : String.ofList (Text.trim ([] ++ "\n  :root ".toList)) = ":root" := by decide
  rw [declarations, htext,
    Declaration.readFrom_open _ _ _ (List.all_iff_forall_prop.mp (by decide)), hroot,
    Declaration.readFrom_palette _ (List.all_eq_true.mp (by decide))
      (List.all_eq_true.mp (by decide)),
    Declaration.readFrom_open _ _ _ (List.all_iff_forall_prop.mp (by decide)), hmedia,
    Declaration.readFrom_open _ _ _ (List.all_iff_forall_prop.mp (by decide)), hroot',
    Declaration.readFrom_palette _ (List.all_eq_true.mp (by decide))
      (List.all_eq_true.mp (by decide)),
    Declaration.readFrom_close _ _ _ (List.all_iff_forall_prop.mp (by decide)),
    Declaration.readFrom_append _ _ _ (List.all_iff_forall_prop.mp (by decide))]
  have hclosed : ["@media (prefers-color-scheme: dark)", ":root"].dropLast.dropLast = [] := rfl
  simp only [List.nil_append, List.dropLast_singleton, List.cons_append]
  rw [hclosed, Declaration.readFrom_rules (List.all_eq_true.mp (by decide))]
  rfl

/-! ## Values -/

/-- The values that a stylesheet declares for a property in some blocks. -/
def declaredValues (css : String) (path : List String) (property : String) : List String :=
  ((declarations css).filter fun d => d.path = path ∧ d.property = property).map (·.value)

section

variable (t : Theme) (c : Category)

/-- The colour of a category is declared once for each mode. -/
theorem declaredValues_color (mode : ColorMode) :
    declaredValues t.stylesheet mode.path c.cssProperty = [(t.resolve mode c).toHex] := by
  rw [declaredValues, declarations_stylesheet]
  cases mode <;> cases c <;> rfl

theorem declaredValues_rule :
    declaredValues t.stylesheet ["." ++ c.cssClass] "color" = ["var(" ++ c.cssProperty ++ ")"] := by
  rw [declaredValues, declarations_stylesheet]
  cases c <;> rfl

theorem declaredValues_style :
    declaredValues t.stylesheet ["." ++ c.cssClass] "font-style" =
      if c.isItalic then ["italic"] else [] := by
  rw [declaredValues, declarations_stylesheet]
  cases c <;> rfl

end

end RichMarkdown
