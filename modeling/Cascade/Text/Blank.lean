/-!
Blank characters of every script, and trimming. Main statements: trimming twice is trimming once
(`trim_trim`), and it leaves nothing of blank texts only (`trim_eq_nil_iff`).
-/

namespace Cascade.Text.Blank

/-- White space of every script, with the four information separators; a space of width zero is
not blank. -/
def isBlank (character : Char) : Bool :=
  let code := character.toNat
  (9 ≤ code && code ≤ 13) || (28 ≤ code && code ≤ 32) || code == 0x85 || code == 0xa0 ||
    code == 0x1680 || (0x2000 ≤ code && code ≤ 0x200a) || code == 0x2028 || code == 0x2029 ||
    code == 0x202f || code == 0x205f || code == 0x3000

/-- The text without its leading blanks. -/
def trimLeft (text : List Char) : List Char :=
  text.dropWhile isBlank

/-- The text without its trailing blanks. -/
def trimRight : List Char → List Char
  | [] => []
  | character :: rest =>
      match trimRight rest with
      | [] => if isBlank character then [] else [character]
      | kept => character :: kept

/-- The text without the blanks at its ends. -/
def trim (text : List Char) : List Char :=
  trimRight (trimLeft text)

/-- A text of blanks only, the empty one included. -/
def isAllBlank (text : List Char) : Bool :=
  text.all isBlank

theorem trimLeft_eq_nil_iff (text : List Char) : trimLeft text = [] ↔ isAllBlank text = true := by
  induction text with
  | nil => simp [trimLeft, isAllBlank]
  | cons character rest ih =>
      have ih' : rest.dropWhile isBlank = [] ↔ rest.all isBlank = true := ih
      by_cases h : isBlank character <;> simp [trimLeft, isAllBlank, h, ih']

theorem trimRight_eq_nil_iff (text : List Char) : trimRight text = [] ↔ isAllBlank text = true := by
  induction text with
  | nil => simp [trimRight, isAllBlank]
  | cons character rest ih =>
      rw [trimRight]
      cases hrest : trimRight rest with
      | nil =>
          have hblank : rest.all isBlank = true := ih.mp hrest
          by_cases h : isBlank character <;> simp [isAllBlank, h, hblank]
      | cons kept others =>
          have hne : rest.all isBlank = false := by
            rw [hrest] at ih
            simpa [isAllBlank] using ih
          simp [isAllBlank, hne]

theorem trimRight_cons_of_not_isBlank {character : Char} (h : isBlank character = false)
    (rest : List Char) : trimRight (character :: rest) = character :: trimRight rest := by
  rw [trimRight]
  split
  · rename_i heq
    simp [h, heq]
  · rfl

theorem trimRight_trimRight (text : List Char) : trimRight (trimRight text) = trimRight text := by
  induction text with
  | nil => rfl
  | cons character rest ih =>
      cases hrest : trimRight rest with
      | nil =>
          by_cases h : isBlank character <;> simp [trimRight, hrest, h]
      | cons kept others =>
          have hwhole : trimRight (character :: rest) = character :: kept :: others := by
            simp [trimRight, hrest]
          rw [hwhole]
          rw [hrest] at ih
          rw [trimRight, ih]

theorem trimLeft_of_not_isBlank {character : Char} (h : isBlank character = false)
    (rest : List Char) : trimLeft (character :: rest) = character :: rest := by
  simp [trimLeft, h]

theorem head_trimLeft {text rest : List Char} {character : Char}
    (h : trimLeft text = character :: rest) : isBlank character = false := by
  have hhead := List.head?_dropWhile_not isBlank text
  rw [show text.dropWhile isBlank = character :: rest from h] at hhead
  simpa using hhead

theorem trim_trim (text : List Char) : trim (trim text) = trim text := by
  have hleft : trimLeft (trim text) = trim text := by
    unfold trim
    cases h : trimLeft text with
    | nil => rfl
    | cons character rest =>
        rw [trimRight_cons_of_not_isBlank (head_trimLeft h)]
        exact trimLeft_of_not_isBlank (head_trimLeft h) _
  rw [trim, hleft]
  exact trimRight_trimRight _

theorem trim_eq_nil_iff (text : List Char) : trim text = [] ↔ isAllBlank text = true := by
  rw [← trimLeft_eq_nil_iff]
  unfold trim
  cases h : trimLeft text with
  | nil => simp [trimRight]
  | cons character rest => simp [trimRight_cons_of_not_isBlank (head_trimLeft h)]

end Cascade.Text.Blank

namespace Cascade

/-- The text without the blanks at its ends. -/
def trimmed (text : String) : String :=
  String.ofList (Text.Blank.trim text.toList)

end Cascade
