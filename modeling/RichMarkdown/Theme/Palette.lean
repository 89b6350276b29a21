import RichMarkdown.Theme.Category
import RichMarkdown.Theme.Color

/-!
# Palettes

A palette gives every token category a colour. `Palette.light` and `Palette.dark` are the two
built-in ones.
-/

set_option autoImplicit false

namespace RichMarkdown

structure Palette where
  keyword : Color
  string : Color
  comment : Color
  number : Color
  function : Color
  typeName : Color
  varName : Color
  operator : Color
  punctuation : Color
  property : Color
  attrName : Color
  deriving DecidableEq, Repr, Inhabited

namespace Palette

def light : Palette where
  keyword := ⟨0x9B, 0x23, 0x93⟩
  string := ⟨0xC4, 0x1A, 0x16⟩
  comment := ⟨0x5D, 0x6C, 0x79⟩
  number := ⟨0x1C, 0x00, 0xCF⟩
  function := ⟨0x32, 0x6D, 0x74⟩
  typeName := ⟨0x0B, 0x4F, 0x79⟩
  varName := ⟨0x0F, 0x68, 0xA0⟩
  operator := ⟨0x3A, 0x3A, 0x3A⟩
  punctuation := ⟨0x6C, 0x6C, 0x6C⟩
  property := ⟨0x4B, 0x21, 0xB0⟩
  attrName := ⟨0x81, 0x5F, 0x03⟩

def dark : Palette where
  keyword := ⟨0xFF, 0x7A, 0xB2⟩
  string := ⟨0xFC, 0x6A, 0x5D⟩
  comment := ⟨0x7F, 0x8C, 0x98⟩
  number := ⟨0xD9, 0xC9, 0x7C⟩
  function := ⟨0x67, 0xB7, 0xA4⟩
  typeName := ⟨0x5D, 0xD8, 0xFF⟩
  varName := ⟨0x41, 0xA1, 0xC0⟩
  operator := ⟨0xDF, 0xDF, 0xE0⟩
  punctuation := ⟨0xA3, 0xA3, 0xA6⟩
  property := ⟨0xA1, 0x67, 0xE6⟩
  attrName := ⟨0xCC, 0x97, 0x68⟩

def get (p : Palette) : Category → Color
  | .keyword => p.keyword
  | .string => p.string
  | .comment => p.comment
  | .number => p.number
  | .function => p.function
  | .typeName => p.typeName
  | .varName => p.varName
  | .operator => p.operator
  | .punctuation => p.punctuation
  | .property => p.property
  | .attrName => p.attrName

/-- The palette with a new colour for one category. -/
def set (p : Palette) (category : Category) (color : Color) : Palette :=
  match category with
  | .keyword => { p with keyword := color }
  | .string => { p with string := color }
  | .comment => { p with comment := color }
  | .number => { p with number := color }
  | .function => { p with function := color }
  | .typeName => { p with typeName := color }
  | .varName => { p with varName := color }
  | .operator => { p with operator := color }
  | .punctuation => { p with punctuation := color }
  | .property => { p with property := color }
  | .attrName => { p with attrName := color }

/-- A replacement changes the colour of its own category and no other. -/
theorem get_set (p : Palette) (a b : Category) (color : Color) :
    (p.set a color).get b = if b = a then color else p.get b := by
  cases a <;> cases b <;> rfl

theorem ext_get {p q : Palette} (h : ∀ c, p.get c = q.get c) : p = q := by
  cases p; cases q
  simp only [Palette.mk.injEq]
  exact ⟨h .keyword, h .string, h .comment, h .number, h .function, h .typeName, h .varName,
    h .operator, h .punctuation, h .property, h .attrName⟩

/-- The categories with their colours, in canonical order. -/
def toList (p : Palette) : List (Category × Color) := Category.all.map fun c => (c, p.get c)

/-- A palette with replacements given by name and colour text, applied in order. -/
def overlay (p : Palette) : List (String × String) → Except ThemeError Palette
  | [] => .ok p
  | (name, hex) :: rest => do
    let category ← Category.ofName name
    let color ← Color.ofHex hex
    (p.set category color).overlay rest

end Palette

end RichMarkdown
