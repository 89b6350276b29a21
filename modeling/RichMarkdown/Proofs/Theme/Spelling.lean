import Mathlib.Data.List.Forall2
import RichMarkdown.Proofs.Text.Bytes
import RichMarkdown.Proofs.Theme.Reading

/-!
# The spelling of colours

What texts spell a colour, said without a reader: blanks at the ends and one number sign apart,
three or six hexadecimal digits of either case (`Color.Spells`). Each colour has one canonical
spelling, a number sign and six digits in capitals (`Color.IsCanonical`). A reader that cuts a text
by byte offsets and reads each cut as a number of its own could break off in three more ways
(`Color.Fault`); it never does.

* `Color.ofHex_eq_ok_iff`: a colour is read exactly from its spellings.
* `Color.isCanonical_iff`: the canonical spellings are what colours are written as.
* `Color.readBytes_eq`: the reader that cuts by bytes does the same as `Color.ofHex`.
-/

set_option autoImplicit false

namespace RichMarkdown

/-! ## Digits -/

namespace Text

def lowerHexDigits : List Char := "0123456789abcdef".toList

def upperHexDigits : List Char := "0123456789ABCDEF".toList

/-- A character is the hexadecimal digit of a value, in small letters or in capitals. -/
def IsHexDigit (c : Char) (n : Nat) : Prop :=
  lowerHexDigits[n]? = some c ∨ upperHexDigits[n]? = some c

instance (c : Char) (n : Nat) : Decidable (IsHexDigit c n) := inferInstanceAs (Decidable (_ ∨ _))

variable {c : Char} {n : Nat}

theorem IsHexDigit.lt (h : IsHexDigit c n) : n < 16 := by
  rcases h with h | h
  · exact (List.getElem?_eq_some_iff.mp h).1
  · exact (List.getElem?_eq_some_iff.mp h).1

theorem toNat_lt_of_hexDigit? (h : hexDigit? c = some n) : c.toNat < 128 := by
  unfold hexDigit? at h
  simp only [Char.le_def, Bool.and_eq_true, decide_eq_true_eq, UInt32.le_iff_toNat_le] at h
  have hc : c.val.toNat = c.toNat := rfl
  have hcodes : '9'.val.toNat = 57 ∧ 'f'.val.toNat = 102 ∧ 'F'.val.toNat = 70 := by decide
  split at h
  · omega
  split at h
  · omega
  split at h
  · omega
  · cases h

/-- A digit is read as its value. -/
theorem hexDigit?_eq_some_iff : hexDigit? c = some n ↔ IsHexDigit c n := by
  constructor
  · intro h
    have hall : ∀ m < 128, ∀ n ∈ hexDigit? (Char.ofNat m), IsHexDigit (Char.ofNat m) n := by
      decide +kernel
    have hc := hall c.toNat (toNat_lt_of_hexDigit? h)
    rw [Char.ofNat_toNat] at hc
    exact hc n h
  · intro h
    have hall : ∀ n < 16, lowerHexDigits[n]?.all (hexDigit? · = some n) ∧
        upperHexDigits[n]?.all (hexDigit? · = some n) := by
      decide
    obtain ⟨hlower, hupper⟩ := hall n h.lt
    rcases h with hc | hc
    · simpa [hc] using hlower
    · simpa [hc] using hupper

/-- A digit has one value. -/
theorem IsHexDigit.unique {m : Nat} (hm : IsHexDigit c m) (hn : IsHexDigit c n) : m = n :=
  Option.some.inj ((hexDigit?_eq_some_iff.mpr hm).symm.trans (hexDigit?_eq_some_iff.mpr hn))

/-- In capitals, a digit is the one that its value is written as. -/
theorem IsHexDigit.toUpper_eq (h : IsHexDigit c n) : c.toUpper = upperHexDigit n := by
  have hall : ∀ n < 16, lowerHexDigits[n]?.all (·.toUpper = upperHexDigit n) ∧
      upperHexDigits[n]?.all (·.toUpper = upperHexDigit n) := by
    decide
  obtain ⟨hlower, hupper⟩ := hall n h.lt
  rcases h with hc | hc
  · simpa [hc] using hlower
  · simpa [hc] using hupper

theorem mapM_hexDigit?_eq_some_iff {cs : List Char} {ns : List Nat} :
    cs.mapM hexDigit? = some ns ↔ List.Forall₂ IsHexDigit cs ns := by
  induction cs generalizing ns with
  | nil => simp
  | cons c cs ih =>
    rw [List.forall₂_cons_left_iff, List.mapM_cons]
    simp only [Option.bind_eq_bind, Option.bind_eq_some_iff, ih, hexDigit?_eq_some_iff,
      Option.pure_def, Option.some.injEq]
    constructor
    · rintro ⟨n, hn, ns, hns, rfl⟩
      exact ⟨n, ns, hn, hns, rfl⟩
    · rintro ⟨n, ns, hn, hns, rfl⟩
      exact ⟨n, hn, ns, hns, rfl⟩

end Text

namespace Color

open Text (IsHexDigit)

/-! ## Spellings -/

/-- Two digits and the channel that they stand for. -/
def IsPair (high low : Char) (v : UInt8) : Prop :=
  ∃ x y, IsHexDigit high x ∧ IsHexDigit low y ∧ v.toNat = 16 * x + y

/-- The digits that spell a colour: two for each channel, or one for each, which counts twice. -/
inductive Spells : List Char → Color → Prop
  | six {r₁ r₀ g₁ g₀ b₁ b₀ : Char} {c : Color} : IsPair r₁ r₀ c.red → IsPair g₁ g₀ c.green →
      IsPair b₁ b₀ c.blue → Spells [r₁, r₀, g₁, g₀, b₁, b₀] c
  | three {r g b : Char} {c : Color} : IsPair r r c.red → IsPair g g c.green → IsPair b b c.blue →
      Spells [r, g, b] c

/-- What is left of a text without one number sign at its start. -/
def Unsigned (cs rest : List Char) : Prop :=
  cs = '#' :: rest ∨ cs = rest ∧ rest.head? ≠ some '#'

/-- A text spells a colour. Blanks around it do not count, and it may start with a number sign. -/
def IsSpelling (text : String) (c : Color) : Prop :=
  ∃ digits, Unsigned (Text.trim text.toList) digits ∧ Spells digits c

theorem toNat_channel {x y : Nat} (hx : x < 16) (hy : y < 16) :
    (channel x y).toNat = 16 * x + y := by
  rw [channel, UInt8.toNat_ofNat', Nat.mod_eq_of_lt (by omega)]

theorem isPair_iff {high low : Char} {v : UInt8} :
    IsPair high low v ↔ ∃ x y, IsHexDigit high x ∧ IsHexDigit low y ∧ v = channel x y := by
  constructor
  · rintro ⟨x, y, hx, hy, hv⟩
    exact ⟨x, y, hx, hy, UInt8.toNat_inj.mp (by rw [hv, toNat_channel hx.lt hy.lt])⟩
  · rintro ⟨x, y, hx, hy, rfl⟩
    exact ⟨x, y, hx, hy, toNat_channel hx.lt hy.lt⟩

theorem isPair_self_iff {digit : Char} {v : UInt8} :
    IsPair digit digit v ↔ ∃ x, IsHexDigit digit x ∧ v = channel x x := by
  rw [isPair_iff]
  constructor
  · rintro ⟨x, y, hx, hy, hv⟩
    obtain rfl := hx.unique hy
    exact ⟨x, hx, hv⟩
  · rintro ⟨x, hx, hv⟩
    exact ⟨x, x, hx, hx, hv⟩

theorem unsigned_digitChars (text : String) :
    Unsigned (Text.trim text.toList) (digitChars text) := by
  unfold digitChars
  split
  · rename_i cs h
    exact .inl h
  · rename_i h
    refine .inr ⟨rfl, fun hhead => ?_⟩
    obtain ⟨cs, hcs⟩ := List.head?_eq_some_iff.mp hhead
    exact h cs hcs

theorem Unsigned.unique {cs a b : List Char} (ha : Unsigned cs a) (hb : Unsigned cs b) : a = b := by
  rcases ha with ha | ⟨rfl, ha⟩
  · rcases hb with hb | ⟨rfl, hb⟩
    · exact (List.cons.inj (ha.symm.trans hb)).2
    · exact absurd (congrArg List.head? ha) hb
  · rcases hb with hb | ⟨rfl, hb⟩
    · exact absurd (congrArg List.head? hb) ha
    · rfl

theorem isSpelling_iff {text : String} {c : Color} :
    IsSpelling text c ↔ Spells (digitChars text) c := by
  constructor
  · rintro ⟨digits, hdigits, h⟩
    rwa [(unsigned_digitChars text).unique hdigits]
  · exact fun h => ⟨_, unsigned_digitChars text, h⟩

/-- A spelling has the digits that are read. -/
theorem spells_iff {digits : List Char} {c : Color} :
    Spells digits c ↔ ∃ ns, List.Forall₂ IsHexDigit digits ns ∧ ofDigits? ns = some c := by
  constructor
  · intro h
    cases h with
    | six hr hg hb =>
      obtain ⟨r₁, r₀, hr₁, hr₀, hred⟩ := isPair_iff.mp hr
      obtain ⟨g₁, g₀, hg₁, hg₀, hgreen⟩ := isPair_iff.mp hg
      obtain ⟨b₁, b₀, hb₁, hb₀, hblue⟩ := isPair_iff.mp hb
      refine ⟨[r₁, r₀, g₁, g₀, b₁, b₀], by simp [*], ?_⟩
      rw [ofDigits?, ← hred, ← hgreen, ← hblue]
    | three hr hg hb =>
      obtain ⟨r, hr, hred⟩ := isPair_self_iff.mp hr
      obtain ⟨g, hg, hgreen⟩ := isPair_self_iff.mp hg
      obtain ⟨b, hb, hblue⟩ := isPair_self_iff.mp hb
      refine ⟨[r, g, b], by simp [*], ?_⟩
      rw [ofDigits?, ← hred, ← hgreen, ← hblue]
  · rintro ⟨ns, hns, h⟩
    unfold ofDigits? at h
    split at h
    · obtain rfl := Option.some.inj h
      simp only [List.forall₂_cons_right_iff, List.forall₂_nil_right_iff] at hns
      obtain ⟨r, _, hr, ⟨g, _, hg, ⟨b, _, hb, rfl, rfl⟩, rfl⟩, rfl⟩ := hns
      exact .three (isPair_self_iff.mpr ⟨_, hr, rfl⟩) (isPair_self_iff.mpr ⟨_, hg, rfl⟩)
        (isPair_self_iff.mpr ⟨_, hb, rfl⟩)
    · obtain rfl := Option.some.inj h
      simp only [List.forall₂_cons_right_iff, List.forall₂_nil_right_iff] at hns
      obtain ⟨r₁, _, hr₁, ⟨r₀, _, hr₀, ⟨g₁, _, hg₁, ⟨g₀, _, hg₀, ⟨b₁, _, hb₁, ⟨b₀, _, hb₀, rfl,
        rfl⟩, rfl⟩, rfl⟩, rfl⟩, rfl⟩, rfl⟩ := hns
      exact .six (isPair_iff.mpr ⟨_, _, hr₁, hr₀, rfl⟩) (isPair_iff.mpr ⟨_, _, hg₁, hg₀, rfl⟩)
        (isPair_iff.mpr ⟨_, _, hb₁, hb₀, rfl⟩)
    · cases h

/-- **Colours are read from their spellings**, and from nothing else. -/
theorem ofHex_eq_ok_iff {text : String} {c : Color} :
    ofHex text = .ok c ↔ IsSpelling text c := by
  simp only [isSpelling_iff, spells_iff, ← Text.mapM_hexDigit?_eq_some_iff]
  unfold ofHex
  constructor
  · intro h
    split at h
    · cases h
    · rename_i digits hdigits
      split at h
      · cases h
      · rename_i color hcolor
        obtain rfl := Except.ok.inj h
        exact ⟨digits, hdigits, hcolor⟩
  · rintro ⟨ns, hns, hc⟩
    rw [hns]
    dsimp only
    rw [hc]

/-- A text that is refused is named in the error as it was given. -/
theorem exists_fault_of_ofHex {text : String} {e : ThemeError} (h : ofHex text = .error e) :
    ∃ fault, e = .invalidColor text fault := by
  unfold ofHex at h
  split at h
  · exact ⟨_, (Except.error.inj h).symm⟩
  · split at h
    · exact ⟨_, (Except.error.inj h).symm⟩
    · cases h

/-- Three or six digits always spell a colour. -/
theorem exists_spells_iff {digits : List Char} :
    (∃ c, Spells digits c) ↔
      (digits.length = 3 ∨ digits.length = 6) ∧ ∀ d ∈ digits, ∃ n, IsHexDigit d n := by
  constructor
  · rintro ⟨c, h⟩
    cases h with
    | six hr hg hb =>
      obtain ⟨r₁, r₀, hr₁, hr₀, -⟩ := hr
      obtain ⟨g₁, g₀, hg₁, hg₀, -⟩ := hg
      obtain ⟨b₁, b₀, hb₁, hb₀, -⟩ := hb
      simp only [List.forall_mem_cons]
      exact ⟨.inr rfl, ⟨r₁, hr₁⟩, ⟨r₀, hr₀⟩, ⟨g₁, hg₁⟩, ⟨g₀, hg₀⟩, ⟨b₁, hb₁⟩, ⟨b₀, hb₀⟩, nofun⟩
    | three hr hg hb =>
      obtain ⟨r, -, hr, -⟩ := hr
      obtain ⟨g, -, hg, -⟩ := hg
      obtain ⟨b, -, hb, -⟩ := hb
      simp only [List.forall_mem_cons]
      exact ⟨.inl rfl, ⟨r, hr⟩, ⟨g, hg⟩, ⟨b, hb⟩, nofun⟩
  · rintro ⟨hlength | hlength, hdigits⟩
    · obtain ⟨r, g, b, rfl⟩ := List.length_eq_three.mp hlength
      simp only [List.forall_mem_cons] at hdigits
      obtain ⟨⟨x, hx⟩, ⟨y, hy⟩, ⟨z, hz⟩, -⟩ := hdigits
      exact ⟨⟨channel x x, channel y y, channel z z⟩, .three (isPair_self_iff.mpr ⟨x, hx, rfl⟩)
        (isPair_self_iff.mpr ⟨y, hy, rfl⟩) (isPair_self_iff.mpr ⟨z, hz, rfl⟩)⟩
    · match digits, hlength with
      | [r₁, r₀, g₁, g₀, b₁, b₀], _ =>
        simp only [List.forall_mem_cons] at hdigits
        obtain ⟨⟨u, hu⟩, ⟨v, hv⟩, ⟨w, hw⟩, ⟨x, hx⟩, ⟨y, hy⟩, ⟨z, hz⟩, -⟩ := hdigits
        exact ⟨⟨channel u v, channel w x, channel y z⟩, .six (isPair_iff.mpr ⟨u, v, hu, hv, rfl⟩)
          (isPair_iff.mpr ⟨w, x, hw, hx, rfl⟩) (isPair_iff.mpr ⟨y, z, hy, hz, rfl⟩)⟩

/-! ## Canonical spellings -/

/-- The canonical spelling: a number sign and six digits in capitals. -/
def IsCanonical (s : String) : Prop :=
  ∃ digits, s.toList = '#' :: digits ∧ digits.length = 6 ∧ ∀ d ∈ digits, d ∈ Text.upperHexDigits

/-- Six digits instead of three. -/
def sixDigits : List Char → List Char
  | [r, g, b] => [r, r, g, g, b, b]
  | digits => digits

theorem IsPair.channelDigits_eq {high low : Char} {v : UInt8} (h : IsPair high low v) :
    channelDigits v = [high.toUpper, low.toUpper] := by
  obtain ⟨x, y, hx, hy, hv⟩ := h
  have hylt := hy.lt
  have hhigh : (16 * x + y) / 16 = x := by omega
  have hlow : (16 * x + y) % 16 = y := by omega
  rw [channelDigits, hv, hhigh, hlow, hx.toUpper_eq, hy.toUpper_eq]

/-- A colour is written as six digits in capitals, however it was spelled. -/
theorem Spells.toHex_eq {digits : List Char} {c : Color} (h : Spells digits c) :
    c.toHex.toList = '#' :: (sixDigits digits).map Char.toUpper := by
  rw [toList_toHex, hexDigits]
  cases h with
  | six hr hg hb | three hr hg hb =>
    rw [hr.channelDigits_eq, hg.channelDigits_eq, hb.channelDigits_eq]
    rfl

/-- **The canonical spellings** are what colours are written as. -/
theorem isCanonical_iff {s : String} : IsCanonical s ↔ ∃ c : Color, c.toHex = s := by
  constructor
  · rintro ⟨digits, hs, hlength, hupper⟩
    have hvalue : ∀ d ∈ digits, ∃ n, IsHexDigit d n := fun d hd =>
      (List.mem_iff_getElem?.mp (hupper d hd)).imp fun _ => .inr
    obtain ⟨c, hc⟩ := exists_spells_iff.mpr ⟨.inr hlength, hvalue⟩
    have hsix : sixDigits digits = digits := by
      unfold sixDigits
      split
      · simp at hlength
      · rfl
    have hcapital : ∀ d ∈ Text.upperHexDigits, d.toUpper = d :=
      List.all_iff_forall_prop.mp (by decide)
    have hmap : digits.map Char.toUpper = digits.map id :=
      List.map_congr_left fun d hd => hcapital d (hupper d hd)
    refine ⟨c, String.toList_inj.mp ?_⟩
    rw [hc.toHex_eq, hsix, hmap, List.map_id, hs]
  · rintro ⟨c, rfl⟩
    have hdigit : ∀ n < 16, Text.upperHexDigit n ∈ Text.upperHexDigits := by decide
    exact ⟨c.hexDigits, toList_toHex c, rfl, forall_mem_hexDigits hdigit c⟩

/-! ## Cutting by bytes -/

/-- How reading a colour can end without one when its text is cut by byte offsets. -/
inductive Fault where
  /-- A cut lies outside the text or inside a character. -/
  | boundary (start stop : Nat)
  /-- A cut is no number that fits a byte. -/
  | channel (text : String)
  /-- A digit does not fit a byte once it is doubled. -/
  | overflow
  /-- The text spells no colour. -/
  | refused (e : ThemeError)
  deriving DecidableEq, Repr

/-- The value of hexadecimal digits after some that have the given value, if it fits a byte. -/
def valueFrom? : Nat → List Char → Option Nat
  | value, [] => some value
  | value, c :: cs => do
    let digit ← Text.hexDigit? c
    if 16 * value + digit < 256 then valueFrom? (16 * value + digit) cs else none

/-- The byte that a text of hexadecimal digits stands for. A plus sign may come first. -/
def byte? : List Char → Option UInt8
  | [] | ['+'] => none
  | '+' :: cs => (valueFrom? 0 cs).map UInt8.ofNat
  | cs => (valueFrom? 0 cs).map UInt8.ofNat

/-- The channel between two byte offsets. -/
def channelAt (text : String) (digits : List Char) (start stop : Nat) : Except Fault UInt8 :=
  match Text.slice? start stop digits with
  | none => .error (.boundary start stop)
  | some part =>
    match byte? part with
    | none => .error (.channel text)
    | some v => .ok v

/-- The channel of one digit, which counts twice. -/
def doubledAt (text : String) (digits : List Char) (place : Nat) : Except Fault UInt8 := do
  let v ← channelAt text digits place (place + 1)
  if v.toNat * 17 < 256 then return v * 17 else .error .overflow

/-- Whether a character is an ASCII hexadecimal digit. -/
def isDigitChar (c : Char) : Bool :=
  c.isDigit || ('a' ≤ c && c ≤ 'f') || ('A' ≤ c && c ≤ 'F')

def sixAt (text : String) (digits : List Char) : Except Fault Color := do
  let red ← channelAt text digits 0 2
  let green ← channelAt text digits 2 4
  let blue ← channelAt text digits 4 6
  return ⟨red, green, blue⟩

def threeAt (text : String) (digits : List Char) : Except Fault Color := do
  let red ← doubledAt text digits 0
  let green ← doubledAt text digits 1
  let blue ← doubledAt text digits 2
  return ⟨red, green, blue⟩

/-- Reads a colour by cutting its text at byte offsets, once all its characters are digits. -/
def readBytes (text : String) : Except Fault Color :=
  let digits := digitChars text
  if digits.all isDigitChar then
    match Text.byteLength digits with
    | 6 => sixAt text digits
    | 3 => threeAt text digits
    | _ => .error (.refused (.invalidColor text .wrongLength))
  else .error (.refused (.invalidColor text .notHexadecimal))

theorem isDigitChar_iff {c : Char} : isDigitChar c = true ↔ ∃ n, IsHexDigit c n := by
  simp only [← Text.hexDigit?_eq_some_iff, ← Option.isSome_iff_exists]
  have hdigit : c.isDigit = (decide ('0' ≤ c) && decide (c ≤ '9')) := rfl
  rw [isDigitChar, Text.hexDigit?, hdigit]
  split
  · rename_i h
    simp [h]
  split
  · rename_i h
    simp [h]
  split
  · rename_i h
    simp [h]
  · rename_i hnumeral hsmall hcapital
    simp only [Bool.not_eq_true] at hnumeral hsmall hcapital
    rw [hnumeral, hsmall, hcapital]
    rfl

variable (text : String) {digits part : List Char} {c d : Char} {m n : Nat} {v : UInt8}

theorem utf8Size_of_isHexDigit (h : IsHexDigit c n) : c.utf8Size = 1 :=
  Text.utf8Size_ascii (Text.toNat_lt_of_hexDigit? (Text.hexDigit?_eq_some_iff.mpr h))

theorem byteLength_of_forall₂ {ns : List Nat} (h : List.Forall₂ IsHexDigit digits ns) :
    Text.byteLength digits = ns.length := by
  induction h with
  | nil => rfl
  | cons hc _ ih =>
    rw [Text.byteLength, utf8Size_of_isHexDigit hc, ih, List.length_cons, Nat.add_comm]

theorem ne_plus_of_isHexDigit (h : IsHexDigit c n) : c ≠ '+' := by
  rintro rfl
  rw [← Text.hexDigit?_eq_some_iff] at h
  cases h

/-- Two digits fit a byte. -/
theorem byte?_pair (hc : IsHexDigit c m) (hd : IsHexDigit d n) :
    byte? [c, d] = some (channel m n) := by
  have hm := hc.lt
  have hn := hd.lt
  have hplus := ne_plus_of_isHexDigit hc
  rw [← Text.hexDigit?_eq_some_iff] at hc hd
  have hfirst : m < 256 := by omega
  have hboth : 16 * m + n < 256 := by omega
  simp [byte?, valueFrom?, hc, hd, hplus, hfirst, hboth, channel]

theorem byte?_single (hc : IsHexDigit c m) : byte? [c] = some (UInt8.ofNat m) := by
  have hm := hc.lt
  have hplus := ne_plus_of_isHexDigit hc
  rw [← Text.hexDigit?_eq_some_iff] at hc
  have hfits : m < 256 := by omega
  simp [byte?, valueFrom?, hc, hplus, hfits]

/-- A cut between characters is read. -/
theorem channelAt_append {a b : List Char} (h : byte? part = some v) :
    channelAt text (a ++ (part ++ b)) (Text.byteLength a)
      (Text.byteLength a + Text.byteLength part) = .ok v := by
  rw [channelAt, Text.slice?_byteLength]
  dsimp only
  rw [h]

/-- A doubled digit fits a byte. -/
theorem doubled_eq (hm : m < 16) :
    (UInt8.ofNat m).toNat * 17 < 256 ∧ UInt8.ofNat m * 17 = channel m m := by
  have hvalue : (UInt8.ofNat m).toNat = m := by
    rw [UInt8.toNat_ofNat', Nat.mod_eq_of_lt (by omega)]
  have hfactor : (17 : UInt8).toNat = 17 := rfl
  refine ⟨by omega, UInt8.toNat_inj.mp ?_⟩
  rw [toNat_channel hm hm, UInt8.toNat_mul, hvalue, hfactor]
  omega

theorem doubledAt_append {a b : List Char} (hc : IsHexDigit c m) :
    doubledAt text (a ++ (c :: b)) (Text.byteLength a) = .ok (channel m m) := by
  have hcut := channelAt_append text (a := a) (b := b) (byte?_single hc)
  have hsize : Text.byteLength [c] = 1 := by
    rw [Text.byteLength, utf8Size_of_isHexDigit hc, Text.byteLength]
  obtain ⟨hfits, hvalue⟩ := doubled_eq hc.lt
  rw [hsize, List.singleton_append] at hcut
  rw [doubledAt, hcut]
  simp only [bind, Except.bind, hfits, if_true, hvalue]
  rfl

theorem all_isDigitChar_iff :
    digits.all isDigitChar = true ↔ ∃ ns, digits.mapM Text.hexDigit? = some ns := by
  simp only [Text.mapM_hexDigit?_eq_some_iff]
  induction digits with
  | nil => simp
  | cons d ds ih =>
    rw [List.all_cons, Bool.and_eq_true, ih, isDigitChar_iff]
    simp only [List.forall₂_cons_left_iff]
    constructor
    · rintro ⟨⟨n, hn⟩, ns, hns⟩
      exact ⟨n :: ns, n, ns, hn, hns, rfl⟩
    · rintro ⟨_, n, ns, hn, hns, -⟩
      exact ⟨⟨n, hn⟩, ns, hns⟩

theorem ofDigits?_eq_none {ns : List Nat} (h3 : ns.length ≠ 3) (h6 : ns.length ≠ 6) :
    ofDigits? ns = none := by
  unfold ofDigits?
  split
  · exact absurd rfl h3
  · exact absurd rfl h6
  · rfl

theorem threeAt_eq {r g b : Char} {x y z : Nat} (hr : IsHexDigit r x) (hg : IsHexDigit g y)
    (hb : IsHexDigit b z) :
    threeAt text [r, g, b] = .ok ⟨channel x x, channel y y, channel z z⟩ := by
  have hred := doubledAt_append text (a := []) (b := [g, b]) hr
  have hgreen := doubledAt_append text (a := [r]) (b := [b]) hg
  have hblue := doubledAt_append text (a := [r, g]) (b := []) hb
  simp only [Text.byteLength, utf8Size_of_isHexDigit hr, utf8Size_of_isHexDigit hg,
    List.nil_append, List.cons_append] at hred hgreen hblue
  rw [threeAt, hred, hgreen, hblue]
  rfl

theorem sixAt_eq {r₁ r₀ g₁ g₀ b₁ b₀ : Char} {x₁ x₀ y₁ y₀ z₁ z₀ : Nat} (hr₁ : IsHexDigit r₁ x₁)
    (hr₀ : IsHexDigit r₀ x₀) (hg₁ : IsHexDigit g₁ y₁) (hg₀ : IsHexDigit g₀ y₀)
    (hb₁ : IsHexDigit b₁ z₁) (hb₀ : IsHexDigit b₀ z₀) :
    sixAt text [r₁, r₀, g₁, g₀, b₁, b₀] =
      .ok ⟨channel x₁ x₀, channel y₁ y₀, channel z₁ z₀⟩ := by
  have hred := channelAt_append text (a := []) (b := [g₁, g₀, b₁, b₀])
    (byte?_pair hr₁ hr₀)
  have hgreen := channelAt_append text (a := [r₁, r₀]) (b := [b₁, b₀])
    (byte?_pair hg₁ hg₀)
  have hblue := channelAt_append text (a := [r₁, r₀, g₁, g₀]) (b := [])
    (byte?_pair hb₁ hb₀)
  simp only [Text.byteLength, utf8Size_of_isHexDigit hr₁, utf8Size_of_isHexDigit hr₀,
    utf8Size_of_isHexDigit hg₁, utf8Size_of_isHexDigit hg₀, utf8Size_of_isHexDigit hb₁,
    utf8Size_of_isHexDigit hb₀, List.nil_append, List.cons_append] at hred hgreen hblue
  rw [sixAt, hred, hgreen, hblue]
  rfl

/-- Without a fault the digits are read as their values. -/
theorem mapError_ofHex {ns : List Nat} (h : (digitChars text).mapM Text.hexDigit? = some ns) :
    (ofHex text).mapError Fault.refused =
      match ofDigits? ns with
      | none => .error (.refused (.invalidColor text .wrongLength))
      | some color => .ok color := by
  rw [ofHex, h]
  dsimp only
  cases ofDigits? ns <;> rfl

/-- **Cutting by bytes reads the same colours** and refuses the same texts for the same reasons: no
cut leaves the digits, every cut is a number that fits, and so is every doubled digit. -/
theorem readBytes_eq (text : String) : readBytes text = (ofHex text).mapError .refused := by
  unfold readBytes
  dsimp only
  by_cases hall : (digitChars text).all isDigitChar = true
  · obtain ⟨ns, hns⟩ := all_isDigitChar_iff.mp hall
    have hdigits := Text.mapM_hexDigit?_eq_some_iff.mp hns
    rw [if_pos hall, mapError_ofHex text hns, byteLength_of_forall₂ hdigits]
    generalize digitChars text = digits at hdigits
    by_cases h3 : ns.length = 3
    · obtain ⟨x, y, z, rfl⟩ := List.length_eq_three.mp h3
      simp only [List.forall₂_cons_right_iff, List.forall₂_nil_right_iff] at hdigits
      obtain ⟨r, _, hr, ⟨g, _, hg, ⟨b, _, hb, rfl, rfl⟩, rfl⟩, rfl⟩ := hdigits
      exact threeAt_eq text hr hg hb
    by_cases h6 : ns.length = 6
    · match ns, h6 with
      | [x₁, x₀, y₁, y₀, z₁, z₀], _ =>
        simp only [List.forall₂_cons_right_iff, List.forall₂_nil_right_iff] at hdigits
        obtain ⟨r₁, _, hr₁, ⟨r₀, _, hr₀, ⟨g₁, _, hg₁, ⟨g₀, _, hg₀, ⟨b₁, _, hb₁, ⟨b₀, _, hb₀, rfl,
          rfl⟩, rfl⟩, rfl⟩, rfl⟩, rfl⟩, rfl⟩ := hdigits
        exact sixAt_eq text hr₁ hr₀ hg₁ hg₀ hb₁ hb₀
    · rw [ofDigits?_eq_none h3 h6]
      split
      · exact absurd ‹_› h6
      · exact absurd ‹_› h3
      · rfl
  · have hnone : (digitChars text).mapM Text.hexDigit? = none :=
      Option.eq_none_iff_forall_ne_some.mpr fun ns hns => hall (all_isDigitChar_iff.mpr ⟨ns, hns⟩)
    rw [if_neg hall, ofHex, hnone]
    rfl

/-! ## All of it -/

/-- **Reading and writing colours.** A colour is read exactly from the texts that spell it: without
the blanks around it and one number sign, such a text has three or six hexadecimal digits and
nothing else. All other texts are refused with an error that holds the text as it was given. Cutting
the digits by bytes can break off in no other way. What a colour is written as reads back as the
colour; it is the spelling of the colour in six capitals, however the colour was spelled before, and
nothing else is canonical. -/
theorem ofHex_spelling (text : String) :
    (∀ c, ofHex text = .ok c ↔ IsSpelling text c) ∧
      (∀ digits, (∃ c, Spells digits c) ↔
        (digits.length = 3 ∨ digits.length = 6) ∧ ∀ d ∈ digits, ∃ n, IsHexDigit d n) ∧
      (∀ e, ofHex text = .error e → ∃ fault, e = .invalidColor text fault) ∧
      readBytes text = (ofHex text).mapError .refused ∧
      (∀ c, ofHex c.toHex = .ok c) ∧
      (∀ digits c, Unsigned (Text.trim text.toList) digits → ofHex text = .ok c →
        c.toHex.toList = '#' :: (sixDigits digits).map Char.toUpper) ∧
      (IsCanonical text ↔ ∃ c : Color, c.toHex = text) := by
  refine ⟨fun c => ofHex_eq_ok_iff, fun digits => exists_spells_iff,
    fun e => exists_fault_of_ofHex, readBytes_eq text, ofHex_toHex, fun digits c hdigits hc => ?_,
    isCanonical_iff⟩
  obtain ⟨digits', hdigits', hspells⟩ := ofHex_eq_ok_iff.mp hc
  rw [hdigits.unique hdigits']
  exact hspells.toHex_eq

/-- A number sign counts once, a plus sign is no digit, and the length is that of the digits. -/
example :
    ofHex "\u3000#a1C\n" = .ok ⟨0xAA, 0x11, 0xCC⟩ ∧
      ofHex "##a1c" = .error (.invalidColor "##a1c" .notHexadecimal) ∧
      ofHex "+f+f+f" = .error (.invalidColor "+f+f+f" .notHexadecimal) ∧
      ofHex " #12 " = .error (.invalidColor " #12 " .wrongLength) := by
  decide +kernel

end Color

end RichMarkdown
