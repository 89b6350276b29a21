import RichMarkdown.Text.Offset

/-!
# Characters and their bytes

The UTF-8 form of a text (`utf8`), and what can be seen of the characters in the bytes. An ASCII
character is its own byte, and all bytes of other characters are 128 or above, so a class of ASCII
characters is a class of bytes (`asciiClass`), and a run of such a class in the text is one in the
bytes (`takeWhile_utf8`, `dropWhile_utf8`).

* `splitAt?_byteLength`, `slice?_byteLength`: the offset after some characters is no offset inside a
  character.
* `isPrefixOf_utf8`: an ASCII text starts the bytes of a text when it starts the text.
-/

set_option autoImplicit false

namespace RichMarkdown.Text

/-! ## Offsets between characters -/

theorem byteLength_append (a b : List Char) :
    byteLength (a ++ b) = byteLength a + byteLength b := by
  induction a with
  | nil => simp [byteLength]
  | cons c cs ih => rw [List.cons_append, byteLength, byteLength, ih, Nat.add_assoc]

theorem byteLength_pos {cs : List Char} (h : cs ≠ []) : 0 < byteLength cs := by
  cases cs with
  | nil => exact absurd rfl h
  | cons c cs => exact Nat.add_pos_left c.utf8Size_pos _

/-- A text can be cut after any of its characters. -/
theorem splitAt?_byteLength (a b : List Char) : splitAt? (byteLength a) (a ++ b) = some (a, b) := by
  induction a with
  | nil => cases b <;> rfl
  | cons c cs ih =>
    have hc := c.utf8Size_pos
    obtain ⟨n, hn⟩ : ∃ n, byteLength (c :: cs) = n + 1 :=
      Nat.exists_eq_add_one.mpr (byteLength_pos (List.cons_ne_nil c cs))
    have hsub : n + 1 - c.utf8Size = byteLength cs := by
      rw [← hn, byteLength]
      omega
    have hle : c.utf8Size ≤ n + 1 := by
      rw [← hn, byteLength]
      omega
    rw [hn, List.cons_append, splitAt?, if_pos hle, hsub, ih]
    rfl

/-- An offset cuts a text in one way. -/
theorem append_inj_of_byteLength {a b c d : List Char} (h : a ++ b = c ++ d)
    (hlen : byteLength a = byteLength c) : a = c ∧ b = d := by
  have hcut := splitAt?_byteLength a b
  rw [h, hlen, splitAt?_byteLength] at hcut
  obtain ⟨rfl, rfl⟩ := Prod.mk.inj (Option.some.inj hcut)
  exact ⟨rfl, rfl⟩

theorem isBoundary_byteLength (a b : List Char) : isBoundary (byteLength a) (a ++ b) = true := by
  rw [isBoundary, splitAt?_byteLength]
  rfl

/-- The text between two cuts. -/
theorem slice?_byteLength (a b c : List Char) :
    slice? (byteLength a) (byteLength a + byteLength b) (a ++ (b ++ c)) = some b := by
  have hlt : ¬ byteLength a + byteLength b < byteLength a := by omega
  simp [slice?, hlt, splitAt?_byteLength]

/-! ## The UTF-8 form -/

/-- The bytes of a text. -/
def utf8 (cs : List Char) : List UInt8 := cs.flatMap String.utf8EncodeChar

theorem utf8_cons (c : Char) (cs : List Char) :
    utf8 (c :: cs) = String.utf8EncodeChar c ++ utf8 cs :=
  List.flatMap_cons

theorem utf8_append (a b : List Char) : utf8 (a ++ b) = utf8 a ++ utf8 b :=
  List.flatMap_append

theorem length_utf8 (cs : List Char) : (utf8 cs).length = byteLength cs := by
  induction cs with
  | nil => rfl
  | cons c cs ih => rw [utf8_cons, List.length_append, String.length_utf8EncodeChar, ih, byteLength]

theorem drop_utf8 (a b : List Char) : (utf8 (a ++ b)).drop (byteLength a) = utf8 b := by
  rw [utf8_append, ← length_utf8, List.drop_left]

theorem take_utf8 (a b : List Char) : (utf8 (a ++ b)).take (byteLength a) = utf8 a := by
  rw [utf8_append, ← length_utf8, List.take_left]

/-! ## ASCII -/

/-- A character of ASCII. -/
def IsAscii (c : Char) : Prop := c.toNat < 128

instance : DecidablePred IsAscii := fun _ => inferInstanceAs (Decidable (_ < _))

/-- A text of ASCII characters. -/
def AllAscii (cs : List Char) : Prop := ∀ c ∈ cs, IsAscii c

instance : DecidablePred AllAscii := fun cs =>
  decidable_of_iff (cs.all (decide <| IsAscii ·) = true) (by simp [AllAscii])

/-- A byte that is no ASCII character. -/
def IsHigh (b : UInt8) : Prop := 128 ≤ b.toNat

theorem utf8Size_ascii {c : Char} (h : IsAscii c) : c.utf8Size = 1 := by
  rw [Char.utf8Size_eq_one_iff, UInt32.le_iff_toNat_le]
  exact Nat.le_of_lt_succ h

theorem utf8EncodeChar_ascii {c : Char} (h : IsAscii c) : String.utf8EncodeChar c = [c.toUInt8] :=
  String.utf8EncodeChar_eq_singleton (utf8Size_ascii h)

theorem utf8_cons_ascii {c : Char} (h : IsAscii c) (cs : List Char) :
    utf8 (c :: cs) = c.toUInt8 :: utf8 cs := by
  rw [utf8_cons, utf8EncodeChar_ascii h, List.singleton_append]

theorem toNat_toUInt8 {c : Char} (h : IsAscii c) : c.toUInt8.toNat = c.toNat := by
  have hlt : c.val.toNat < 128 := h
  rw [Char.toUInt8, UInt32.toNat_toUInt8]
  exact Nat.mod_eq_of_lt (by omega)

theorem toUInt8_injective {c d : Char} (hc : IsAscii c) (hd : IsAscii d)
    (h : c.toUInt8 = d.toUInt8) : c = d := by
  rw [← Char.toNat_inj, ← toNat_toUInt8 hc, ← toNat_toUInt8 hd, h]

theorem beq_toUInt8 {c d : Char} (hc : IsAscii c) (hd : IsAscii d) :
    (c.toUInt8 == d.toUInt8) = (c == d) := by
  rw [Bool.eq_iff_iff, beq_iff_eq, beq_iff_eq]
  exact ⟨toUInt8_injective hc hd, fun h => h ▸ rfl⟩

theorem isHigh_ofNat {n : Nat} (h : 128 ≤ n) (h' : n < 256) : IsHigh (UInt8.ofNat n) := by
  rw [IsHigh, UInt8.toNat_ofNat', Nat.mod_eq_of_lt h']
  exact h

/-- The bytes of a character outside ASCII are all high. -/
theorem isHigh_of_mem {c : Char} (hc : ¬ IsAscii c) {b : UInt8}
    (hb : b ∈ String.utf8EncodeChar c) : IsHigh b := by
  have hge : ¬ c.val.toNat < 128 := hc
  unfold String.utf8EncodeChar at hb
  dsimp only at hb
  split at hb
  · omega
  split at hb
  · simp only [List.mem_cons, List.not_mem_nil, or_false] at hb
    rcases hb with rfl | rfl <;> exact isHigh_ofNat (by omega) (by omega)
  split at hb
  · simp only [List.mem_cons, List.not_mem_nil, or_false] at hb
    rcases hb with rfl | rfl | rfl <;> exact isHigh_ofNat (by omega) (by omega)
  · simp only [List.mem_cons, List.not_mem_nil, or_false] at hb
    rcases hb with rfl | rfl | rfl | rfl <;> exact isHigh_ofNat (by omega) (by omega)

theorem ne_of_isHigh {b : UInt8} (hb : IsHigh b) {c : Char} (hc : IsAscii c) : b ≠ c.toUInt8 := by
  rintro rfl
  have hlt : c.toNat < 128 := hc
  rw [IsHigh, toNat_toUInt8 hc] at hb
  omega

theorem beq_of_isHigh {b : UInt8} (hb : IsHigh b) {c : Char} (hc : IsAscii c) :
    (b == c.toUInt8) = false :=
  beq_eq_false_iff_ne.mpr (ne_of_isHigh hb hc)

/-! ## Classes of characters and of bytes -/

/-- The bytes that are ASCII characters of a class. -/
def asciiClass (p : Char → Bool) (b : UInt8) : Bool := b.toNat < 128 && p (Char.ofNat b.toNat)

theorem asciiClass_toUInt8 (p : Char → Bool) {c : Char} (h : IsAscii c) :
    asciiClass p c.toUInt8 = p c := by
  have hlt : c.toNat < 128 := h
  simp [asciiClass, toNat_toUInt8 h, hlt]

theorem asciiClass_isHigh (p : Char → Bool) {b : UInt8} (h : IsHigh b) :
    asciiClass p b = false := by
  have hge : ¬ b.toNat < 128 := Nat.not_lt.mpr h
  simp [asciiClass, hge]

/-- A class that has characters of ASCII only. -/
def InAscii (p : Char → Bool) : Prop := ∀ c, p c = true → IsAscii c

theorem InAscii.or {p q : Char → Bool} (hp : InAscii p) (hq : InAscii q) :
    InAscii fun c => p c || q c := by
  intro c h
  rcases Bool.or_eq_true_iff.mp h with h | h
  · exact hp c h
  · exact hq c h

theorem inAscii_contains {cs : List Char} (h : AllAscii cs) : InAscii (cs.contains ·) :=
  fun c hc => h c (List.contains_iff_mem.mp hc)

theorem inAscii_beq {d : Char} (hd : IsAscii d) : InAscii (· == d) :=
  fun _ hc => (beq_iff_eq.mp hc) ▸ hd

/-- A way to write a character in bytes, of which the bytes of ASCII characters can be told from
others. -/
structure Encodes (f : Char → List UInt8) : Prop where
  ascii {c : Char} : IsAscii c → f c = [c.toUInt8]
  high {c : Char} : ¬ IsAscii c → ∃ b bs, f c = b :: bs ∧ IsHigh b ∧ ∀ d ∈ bs, IsHigh d

theorem encodes_of_high {f : Char → List UInt8} (ha : ∀ c, IsAscii c → f c = [c.toUInt8])
    (hn : ∀ c, f c ≠ []) (hh : ∀ c, ¬ IsAscii c → ∀ b ∈ f c, IsHigh b) : Encodes f where
  ascii {c} h := ha c h
  high {c} h := by
    rcases hf : f c with _ | ⟨b, bs⟩
    · exact absurd hf (hn c)
    · exact ⟨b, bs, rfl, List.forall_mem_cons.mp fun d hd => hh c h d (hf ▸ hd)⟩

theorem encodes_utf8 : Encodes String.utf8EncodeChar :=
  encodes_of_high (fun _ => utf8EncodeChar_ascii) (fun _ => String.utf8EncodeChar_ne_nil)
    fun _ hc _ => isHigh_of_mem hc

/-- The bytes of a character from last to first. -/
theorem encodes_utf8_reverse : Encodes fun c => (String.utf8EncodeChar c).reverse := by
  refine encodes_of_high (fun c hc => ?_) (fun c => ?_) fun c hc b hb => ?_
  · rw [utf8EncodeChar_ascii hc, List.reverse_singleton]
  · exact fun h => String.utf8EncodeChar_ne_nil (List.reverse_eq_nil_iff.mp h)
  · exact isHigh_of_mem hc (List.mem_reverse.mp hb)

section

variable {f : Char → List UInt8} (hf : Encodes f)
include hf

theorem Encodes.takeWhile {p : Char → Bool} (hp : InAscii p) (cs : List Char) :
    (cs.flatMap f).takeWhile (asciiClass p) = (cs.takeWhile p).flatMap f := by
  induction cs with
  | nil => rfl
  | cons c cs ih =>
    by_cases hc : IsAscii c
    · rw [List.flatMap_cons, hf.ascii hc, List.singleton_append, List.takeWhile_cons,
        List.takeWhile_cons, asciiClass_toUInt8 p hc]
      cases p c with
      | true => simp only [if_true, ih, List.flatMap_cons, hf.ascii hc, List.singleton_append]
      | false => rfl
    · obtain ⟨b, bs, hbs, hb, -⟩ := hf.high hc
      have hpc : p c = false := Bool.eq_false_iff.mpr fun h => hc (hp c h)
      rw [List.flatMap_cons, hbs, List.cons_append, List.takeWhile_cons, List.takeWhile_cons,
        asciiClass_isHigh p hb, hpc]
      rfl

theorem Encodes.dropWhile {p : Char → Bool} (hp : InAscii p) (cs : List Char) :
    (cs.flatMap f).dropWhile (asciiClass p) = (cs.dropWhile p).flatMap f := by
  induction cs with
  | nil => rfl
  | cons c cs ih =>
    by_cases hc : IsAscii c
    · rw [List.flatMap_cons, hf.ascii hc, List.singleton_append, List.dropWhile_cons,
        List.dropWhile_cons, asciiClass_toUInt8 p hc]
      cases p c with
      | true => simp only [if_true, ih]
      | false => simp [hf.ascii hc]
    · obtain ⟨b, bs, hbs, hb, -⟩ := hf.high hc
      have hpc : p c = false := Bool.eq_false_iff.mpr fun h => hc (hp c h)
      rw [List.flatMap_cons, hbs, List.cons_append, List.dropWhile_cons, List.dropWhile_cons,
        asciiClass_isHigh p hb, hpc]
      simp [hbs]

/-- The first byte is of a class when the first character is. -/
theorem Encodes.head?_any {p : Char → Bool} (hp : InAscii p) (cs : List Char) :
    (cs.flatMap f).head?.any (asciiClass p) = cs.head?.any p := by
  cases cs with
  | nil => rfl
  | cons c cs =>
    by_cases hc : IsAscii c
    · rw [List.flatMap_cons, hf.ascii hc]
      exact asciiClass_toUInt8 p hc
    · obtain ⟨b, bs, hbs, hb, -⟩ := hf.high hc
      have hpc : p c = false := Bool.eq_false_iff.mpr fun h => hc (hp c h)
      rw [List.flatMap_cons, hbs]
      exact (asciiClass_isHigh p hb).trans hpc.symm

/-- The first byte is an ASCII character when the first character is. -/
theorem Encodes.head?_beq {d : Char} (hd : IsAscii d) (cs : List Char) :
    ((cs.flatMap f).head? == some d.toUInt8) = (cs.head? == some d) := by
  cases cs with
  | nil => rfl
  | cons c cs =>
    by_cases hc : IsAscii c
    · rw [List.flatMap_cons, hf.ascii hc]
      exact beq_toUInt8 hc hd
    · obtain ⟨b, bs, hbs, hb, -⟩ := hf.high hc
      have hcd : c ≠ d := fun h => hc (h ▸ hd)
      rw [List.flatMap_cons, hbs]
      exact (beq_of_isHigh hb hd).trans (beq_eq_false_iff_ne.mpr hcd).symm

end

theorem takeWhile_utf8 {p : Char → Bool} (hp : InAscii p) (cs : List Char) :
    (utf8 cs).takeWhile (asciiClass p) = utf8 (cs.takeWhile p) :=
  encodes_utf8.takeWhile hp cs

theorem dropWhile_utf8 {p : Char → Bool} (hp : InAscii p) (cs : List Char) :
    (utf8 cs).dropWhile (asciiClass p) = utf8 (cs.dropWhile p) :=
  encodes_utf8.dropWhile hp cs

theorem head?_any_utf8 {p : Char → Bool} (hp : InAscii p) (cs : List Char) :
    (utf8 cs).head?.any (asciiClass p) = cs.head?.any p :=
  encodes_utf8.head?_any hp cs

theorem head?_beq_utf8 {d : Char} (hd : IsAscii d) (cs : List Char) :
    ((utf8 cs).head? == some d.toUInt8) = (cs.head? == some d) :=
  encodes_utf8.head?_beq hd cs

theorem reverse_utf8 (cs : List Char) :
    (utf8 cs).reverse = cs.reverse.flatMap fun c => (String.utf8EncodeChar c).reverse :=
  List.reverse_flatMap

/-- An ASCII text starts the bytes of a text when it starts the text. -/
theorem isPrefixOf_utf8 {mark : List Char} (hm : AllAscii mark) (cs : List Char) :
    (utf8 mark).isPrefixOf (utf8 cs) = mark.isPrefixOf cs := by
  induction mark generalizing cs with
  | nil => simp [utf8]
  | cons m mark ih =>
    obtain ⟨hm, hmark⟩ := List.forall_mem_cons.mp hm
    rw [utf8_cons_ascii hm]
    cases cs with
    | nil => rfl
    | cons c cs =>
      by_cases hc : IsAscii c
      · rw [utf8_cons_ascii hc, List.isPrefixOf, List.isPrefixOf, beq_toUInt8 hm hc, ih hmark]
      · obtain ⟨b, bs, hbs, hb, -⟩ := encodes_utf8.high hc
        have hmc : m ≠ c := fun h => hc (h ▸ hm)
        rw [utf8_cons, hbs, List.cons_append, List.isPrefixOf, List.isPrefixOf,
          beq_eq_false_iff_ne.mpr (ne_of_isHigh hb hm).symm, beq_eq_false_iff_ne.mpr hmc]
        rfl

/-- A byte that is an ASCII character stands where that character does. -/
theorem exists_of_getElem?_utf8 {cs : List Char} {i : Nat} {b : UInt8}
    (h : (utf8 cs)[i]? = some b) (hb : ¬ IsHigh b) :
    ∃ front c back, cs = front ++ c :: back ∧ byteLength front = i ∧ IsAscii c ∧
      c.toUInt8 = b := by
  induction cs generalizing i with
  | nil => simp [utf8] at h
  | cons c cs ih =>
    rw [utf8_cons, List.getElem?_append, String.length_utf8EncodeChar] at h
    split at h
    · rename_i hi
      by_cases hc : IsAscii c
      · rw [utf8Size_ascii hc] at hi
        obtain rfl : i = 0 := by omega
        rw [utf8EncodeChar_ascii hc] at h
        exact ⟨[], c, cs, rfl, rfl, hc, Option.some.inj h⟩
      · exact absurd (isHigh_of_mem hc (List.mem_of_getElem? h)) hb
    · obtain ⟨front, d, back, rfl, hfront, hd⟩ := ih h
      refine ⟨c :: front, d, back, rfl, ?_, hd⟩
      rw [byteLength, hfront]
      omega

end RichMarkdown.Text
