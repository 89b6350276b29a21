import RichMarkdown.Document.Attributes
import RichMarkdown.Text.Blank

/-!
# Attributes of directives

Reading what stands between the braces of a directive: an identifier after a number sign, classes
after points, and pairs of a name and a value, which may be quoted. A later identifier or pair of
the same name wins. What is none of these is passed over character by character.
-/

set_option autoImplicit false

namespace RichMarkdown.Attributes

open Text (isBlank trim trimStart)

/-- The characters that end an identifier or a class. -/
def endsSelector (c : Char) : Bool := isBlank c || c == '.' || c == '#'

/-- A value after its opening quote, and what follows the closing one. -/
def quotedValue? (quote : Char) (cs : List Char) : Option (List Char × List Char) :=
  match cs.dropWhile (· ≠ quote) with
  | [] => none
  | _ :: rest => some (cs.takeWhile (· ≠ quote), rest)

/-- A value, quoted or up to the next blank, and what follows it. -/
def value? : List Char → Option (List Char × List Char)
  | [] => some ([], [])
  | c :: cs =>
    if c == '\"' || c == '\'' then quotedValue? c cs
    else some ((c :: cs).takeWhile (! isBlank ·), (c :: cs).dropWhile (! isBlank ·))

/-- A pair at the start of a text, and what follows it. -/
def pair? (cs : List Char) : Option ((List Char × List Char) × List Char) :=
  let name := trim (cs.takeWhile (· ≠ '='))
  match cs.dropWhile (· ≠ '=') with
  | [] => none
  | _ :: afterSign =>
    if name.isEmpty || name.any isBlank then none
    else (value? afterSign).map fun v => ((name, v.1), v.2)

theorem length_quotedValue? {quote : Char} {cs v rest : List Char}
    (h : quotedValue? quote cs = some (v, rest)) : rest.length ≤ cs.length := by
  have hd : (cs.dropWhile (· ≠ quote)).length ≤ cs.length := (List.dropWhile_sublist _).length_le
  unfold quotedValue? at h
  split at h
  · simp at h
  · rename_i hc
    rw [hc] at hd
    simp only [Option.some.injEq, Prod.mk.injEq] at h
    obtain ⟨_, rfl⟩ := h
    simp at hd
    omega

theorem length_value? {cs v rest : List Char} (h : value? cs = some (v, rest)) :
    rest.length ≤ cs.length := by
  unfold value? at h
  split at h
  · simp_all
  · rename_i c cs
    split at h
    · have := length_quotedValue? h
      simp
      omega
    · simp only [Option.some.injEq, Prod.mk.injEq] at h
      obtain ⟨_, rfl⟩ := h
      exact (List.dropWhile_sublist _).length_le

theorem length_pair? {cs : List Char} {p : List Char × List Char} {rest : List Char}
    (h : pair? cs = some (p, rest)) : rest.length < cs.length := by
  have hd : (cs.dropWhile (· ≠ '=')).length ≤ cs.length := (List.dropWhile_sublist _).length_le
  unfold pair? at h
  dsimp only at h
  split at h
  · simp at h
  · rename_i hc
    rw [hc] at hd
    split at h
    · simp at h
    · simp only [Option.map_eq_some_iff, Prod.mk.injEq] at h
      obtain ⟨⟨v, r⟩, hv, _, rfl⟩ := h
      have := length_value? hv
      simp only [List.length_cons] at hd
      dsimp only
      omega

theorem length_trimStart (cs : List Char) : (trimStart cs).length ≤ cs.length :=
  (List.dropWhile_sublist _).length_le

set_option linter.unusedVariables false in
/-- The attributes read so far, with those in the rest of the text. -/
def readFrom (a : Attributes) (cs : List Char) : Attributes :=
  match h : trimStart cs with
  | [] => a
  | c :: rest =>
    if c == '#' then
      readFrom { a with id := some (String.ofList (rest.takeWhile (! endsSelector ·))) }
        (rest.dropWhile (! endsSelector ·))
    else if c == '.' then
      let name := rest.takeWhile (! endsSelector ·)
      readFrom
        (if name.isEmpty then a else { a with classes := a.classes ++ [String.ofList name] })
        (rest.dropWhile (! endsSelector ·))
    else
      match hp : pair? (c :: rest) with
      | some ((name, value), rest') =>
        readFrom (a.insert (String.ofList name) (String.ofList value)) rest'
      | none => readFrom a rest
termination_by cs.length
decreasing_by
  all_goals
    have hl := length_trimStart cs
    rw [h] at hl
    simp only [List.length_cons] at hl
  · have := (List.dropWhile_sublist (! endsSelector ·) (l := rest)).length_le
    omega
  · have := (List.dropWhile_sublist (! endsSelector ·) (l := rest)).length_le
    omega
  · have := length_pair? hp
    simp only [List.length_cons] at this
    omega
  · omega

def read (cs : List Char) : Attributes := readFrom {} (trim cs)

end RichMarkdown.Attributes
