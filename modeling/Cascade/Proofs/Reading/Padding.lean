import Cascade.Text.Blank
import Cascade.Text.Pieces

/-!
Blanks around texts and marks between them. Trimming takes off every blank that surrounds a text
(`Pads.trim_eq`), cutting undoes joining (`split_join`), and trimming a whole text changes none of its
trimmed pieces (`map_trim_split_trim`).
-/

namespace Cascade.Text

namespace Blank

/-! ### Trimming -/

@[simp] theorem isAllBlank_nil : isAllBlank [] = true := rfl

@[simp] theorem isAllBlank_append (front back : List Char) :
    isAllBlank (front ++ back) = (isAllBlank front && isAllBlank back) :=
  List.all_append

theorem isBlank_of_mem {text : List Char} (h : isAllBlank text = true) {character : Char}
    (hmem : character ∈ text) : isBlank character = true :=
  List.all_eq_true.mp h character hmem

theorem not_mem_of_isAllBlank {text : List Char} (h : isAllBlank text = true) {character : Char}
    (hcharacter : isBlank character = false) : character ∉ text := by
  intro hmem
  simp [isBlank_of_mem h hmem] at hcharacter

theorem trimLeft_append (front back : List Char) :
    trimLeft (front ++ back) =
      if trimLeft front = [] then trimLeft back else trimLeft front ++ back := by
  unfold trimLeft
  rw [List.dropWhile_append]
  simp only [List.isEmpty_iff]

theorem trimLeft_append_of_isAllBlank {front : List Char} (h : isAllBlank front = true)
    (text : List Char) : trimLeft (front ++ text) = trimLeft text := by
  rw [trimLeft_append, if_pos ((trimLeft_eq_nil_iff front).mpr h)]

theorem trimRight_of_isAllBlank {text : List Char} (h : isAllBlank text = true) :
    trimRight text = [] :=
  (trimRight_eq_nil_iff text).mpr h

theorem trimRight_append_of_isAllBlank {back : List Char} (h : isAllBlank back = true)
    (text : List Char) : trimRight (text ++ back) = trimRight text := by
  induction text with
  | nil => exact trimRight_of_isAllBlank h
  | cons character rest ih => rw [List.cons_append, trimRight, ih, trimRight]

theorem trim_append_of_isAllBlank {back : List Char} (h : isAllBlank back = true)
    (text : List Char) : trim (text ++ back) = trim text := by
  by_cases htext : isAllBlank text = true
  · rw [(trim_eq_nil_iff _).mpr (by simp [htext, h]), (trim_eq_nil_iff text).mpr htext]
  · rw [trim, trimLeft_append, if_neg (mt (trimLeft_eq_nil_iff text).mp htext),
      trimRight_append_of_isAllBlank h, ← trim]

theorem trimRight_append_of_ne_nil {back : List Char} (h : trimRight back ≠ []) (front : List Char) :
    trimRight (front ++ back) = front ++ trimRight back := by
  induction front with
  | nil => rfl
  | cons first rest ih =>
      rw [List.cons_append, trimRight, ih]
      split
      · rename_i hnil
        exact absurd (List.append_eq_nil_iff.mp hnil).2 h
      · rfl

theorem trimRight_append_cons {character : Char} (h : isBlank character = false)
    (front back : List Char) :
    trimRight (front ++ character :: back) = front ++ character :: trimRight back := by
  have hback := trimRight_cons_of_not_isBlank h back
  rw [trimRight_append_of_ne_nil (by simp [hback]), hback]

theorem trimRight_append_singleton {character : Char} (h : isBlank character = false)
    (text : List Char) : trimRight (text ++ [character]) = text ++ [character] := by
  rw [trimRight_append_cons h, trimRight]

theorem trim_append_cons {character : Char} (h : isBlank character = false) (front back : List Char) :
    trim (front ++ character :: back) = trimLeft front ++ character :: trimRight back := by
  have hleft : trimLeft (front ++ character :: back) = trimLeft front ++ character :: back := by
    rw [trimLeft_append]
    split
    · rename_i hnil
      rw [hnil, trimLeft_of_not_isBlank h, List.nil_append]
    · rfl
  rw [trim, hleft, trimRight_append_cons h]

theorem trimLeft_append_of_ne_nil {text : List Char} (h : trimLeft text = text) (hne : text ≠ [])
    (back : List Char) : trimLeft (text ++ back) = text ++ back := by
  obtain ⟨character, rest, rfl⟩ := List.exists_cons_of_ne_nil hne
  exact trimLeft_of_not_isBlank (head_trimLeft h) _

theorem trimLeft_of_trim {text : List Char} (h : trim text = text) : trimLeft text = text := by
  cases hleft : trimLeft text with
  | nil => rw [← h, trim, hleft, trimRight]
  | cons character rest =>
      have htext : text = character :: trimRight rest := by
        rw [← trimRight_cons_of_not_isBlank (head_trimLeft hleft), ← hleft, ← trim, h]
      rw [← hleft, htext, trimLeft_of_not_isBlank (head_trimLeft hleft)]

theorem exists_append_of_trimRight (text : List Char) :
    ∃ back, isAllBlank back = true ∧ text = trimRight text ++ back := by
  induction text with
  | nil => exact ⟨[], rfl, rfl⟩
  | cons character rest ih =>
      obtain ⟨back, hback, hrest⟩ := ih
      cases htrim : trimRight rest with
      | nil =>
          rw [htrim, List.nil_append] at hrest
          subst hrest
          by_cases h : isBlank character = true
          · exact ⟨character :: rest, by simpa [isAllBlank, h] using hback,
              by simp [trimRight, htrim, h]⟩
          · exact ⟨rest, hback, by simp [trimRight, htrim, h]⟩
      | cons kept others =>
          have hwhole : trimRight (character :: rest) = character :: trimRight rest := by
            simp [trimRight, htrim]
          exact ⟨back, hback, by rw [hwhole, List.cons_append, ← hrest]⟩

theorem trim_trimRight (text : List Char) : trim (trimRight text) = trim text := by
  obtain ⟨back, hback, htext⟩ := exists_append_of_trimRight text
  calc trim (trimRight text)
      _ = trim (trimRight text ++ back) := (trim_append_of_isAllBlank hback _).symm
      _ = trim text := by rw [← htext]

theorem mem_of_mem_trim {text : List Char} {character : Char} (h : character ∈ trim text) :
    character ∈ text := by
  obtain ⟨back, -, hleft⟩ := exists_append_of_trimRight (trimLeft text)
  have hmem : character ∈ trimLeft text := by
    rw [hleft]
    exact List.mem_append_left back h
  exact (List.dropWhile_suffix isBlank).subset hmem

/-! ### Blanks around a text -/

/-- The text is the inner one with blanks before and after it. -/
def Pads (inner text : List Char) : Prop :=
  ∃ front back, isAllBlank front = true ∧ isAllBlank back = true ∧ text = front ++ inner ++ back

theorem pads_trim (text : List Char) : Pads (trim text) text := by
  obtain ⟨back, hback, hleft⟩ := exists_append_of_trimRight (trimLeft text)
  refine ⟨text.takeWhile isBlank, back, List.all_takeWhile, hback, ?_⟩
  rw [List.append_assoc, trim, ← hleft]
  exact (List.takeWhile_append_dropWhile ..).symm

namespace Pads

variable {inner text : List Char}

theorem trim_eq (h : Pads inner text) : trim text = trim inner := by
  obtain ⟨front, back, hfront, hback, rfl⟩ := h
  rw [trim_append_of_isAllBlank hback, trim, trimLeft_append_of_isAllBlank hfront, ← trim]

/-- No character but a blank is added around a text. -/
theorem not_mem (h : Pads inner text) {character : Char} (hcharacter : isBlank character = false)
    (hmem : character ∉ inner) : character ∉ text := by
  obtain ⟨front, back, hfront, hback, rfl⟩ := h
  simp [hmem, not_mem_of_isAllBlank hfront hcharacter, not_mem_of_isAllBlank hback hcharacter]

end Pads

end Blank

/-! ### Cutting -/

namespace Pieces

variable {mark : Char}

theorem split_of_not_mem {text : List Char} (h : mark ∉ text) : split mark text = [text] := by
  induction text with
  | nil => rfl
  | cons character rest ih =>
      obtain ⟨hcharacter, hrest⟩ : mark ≠ character ∧ mark ∉ rest := by simpa using h
      rw [split, if_neg hcharacter.symm, ih hrest]

theorem split_append_mark (front back : List Char) :
    split mark (front ++ mark :: back) = split mark front ++ split mark back := by
  induction front with
  | nil => simp [split]
  | cons character rest ih =>
      by_cases hmark : character = mark
      · rw [List.cons_append, split, if_pos hmark, ih, split, if_pos hmark, List.cons_append]
      · obtain ⟨piece, pieces, hsplit⟩ := List.exists_cons_of_ne_nil (split_ne_nil mark rest)
        rw [List.cons_append, split, if_neg hmark, ih, split, if_neg hmark, hsplit]
        rfl

theorem split_append_cons {front : List Char} (h : mark ∉ front) (text : List Char) :
    split mark (front ++ mark :: text) = front :: split mark text := by
  rw [split_append_mark, split_of_not_mem h, List.singleton_append]

theorem exists_split_append {back : List Char} (h : mark ∉ back) (front : List Char) :
    ∃ pieces last, split mark front = pieces ++ [last] ∧
      split mark (front ++ back) = pieces ++ [last ++ back] := by
  induction front with
  | nil => exact ⟨[], [], rfl, split_of_not_mem h⟩
  | cons character rest ih =>
      obtain ⟨pieces, last, hrest, hwhole⟩ := ih
      rw [List.cons_append, split, split, hrest, hwhole]
      by_cases hmark : character = mark
      · exact ⟨[] :: pieces, last, by rw [if_pos hmark]; rfl, by rw [if_pos hmark]; rfl⟩
      · rw [if_neg hmark, if_neg hmark]
        cases pieces with
        | nil => exact ⟨[], character :: last, rfl, rfl⟩
        | cons piece pieces => exact ⟨(character :: piece) :: pieces, last, rfl, rfl⟩

/-- A piece has no mark in it, and only characters of the text. -/
theorem not_mem_of_mem_split {text piece : List Char} (h : piece ∈ split mark text) :
    mark ∉ piece ∧ piece ⊆ text := by
  induction text generalizing piece with
  | nil =>
      obtain rfl : piece = [] := by simpa [split] using h
      exact ⟨List.not_mem_nil, List.nil_subset _⟩
  | cons character rest ih =>
      rw [split] at h
      split at h
      · rcases List.mem_cons.mp h with rfl | h
        · exact ⟨List.not_mem_nil, List.nil_subset _⟩
        · exact ⟨(ih h).1, List.subset_cons_of_subset _ (ih h).2⟩
      · rename_i hmark
        split at h
        · rename_i hempty
          exact absurd hempty (split_ne_nil mark rest)
        · rename_i first others hrest
          rw [hrest] at ih
          rcases List.mem_cons.mp h with rfl | h
          · obtain ⟨hfirst, hsubset⟩ := ih List.mem_cons_self
            exact ⟨by simp [Ne.symm hmark, hfirst], List.cons_subset_cons _ hsubset⟩
          · obtain ⟨hpiece, hsubset⟩ := ih (List.mem_cons_of_mem _ h)
            exact ⟨hpiece, List.subset_cons_of_subset _ hsubset⟩

theorem split_join {pieces : List (List Char)} (hne : pieces ≠ [])
    (h : ∀ piece ∈ pieces, mark ∉ piece) : split mark (join [mark] pieces) = pieces := by
  induction pieces with
  | nil => exact absurd rfl hne
  | cons piece rest ih =>
      obtain ⟨hpiece, hrest⟩ := List.forall_mem_cons.mp h
      cases rest with
      | nil => exact split_of_not_mem hpiece
      | cons next others =>
          rw [join, List.append_assoc, List.singleton_append, split_append_cons hpiece,
            ih (List.cons_ne_nil next others) hrest]
          · simp

theorem join_append_cons (separator front piece : List Char) (pieces : List (List Char)) :
    join separator ((front ++ piece) :: pieces) = front ++ join separator (piece :: pieces) := by
  cases pieces with
  | nil => rfl
  | cons next others => simp [join]

theorem exists_join_concat (separator : List Char) (pieces : List (List Char)) (piece : List Char) :
    ∃ front, join separator (pieces ++ [piece]) = front ++ piece := by
  induction pieces with
  | nil => exact ⟨[], rfl⟩
  | cons first rest ih =>
      obtain ⟨front, hfront⟩ := ih
      refine ⟨first ++ separator ++ front, ?_⟩
      rw [List.cons_append, join, hfront]
      · simp
      · simp

theorem join_mark_append (gap piece : List Char) (pieces : List (List Char)) :
    join (mark :: gap) (piece :: pieces) = join [mark] (piece :: pieces.map fun piece => gap ++ piece) := by
  induction pieces generalizing piece with
  | nil => rfl
  | cons next others ih => simp [join, ih next, join_append_cons]

theorem not_mem_join {separator : List Char} {pieces : List (List Char)} {character : Char}
    (hseparator : character ∉ separator) (h : ∀ piece ∈ pieces, character ∉ piece) :
    character ∉ join separator pieces := by
  induction pieces with
  | nil => simp [join]
  | cons piece rest ih =>
      obtain ⟨hpiece, hrest⟩ := List.forall_mem_cons.mp h
      cases rest with
      | nil => exact hpiece
      | cons next others =>
          rw [join]
          · simp only [List.mem_append, not_or]
            exact ⟨⟨hpiece, hseparator⟩, ih hrest⟩
          · simp

theorem map_trim_split_trimLeft (hmark : Blank.isBlank mark = false) (text : List Char) :
    (split mark (Blank.trimLeft text)).map Blank.trim = (split mark text).map Blank.trim := by
  induction text with
  | nil => rfl
  | cons character rest ih =>
      cases hcharacter : Blank.isBlank character with
      | false => rw [Blank.trimLeft_of_not_isBlank hcharacter]
      | true =>
          have hne : character ≠ mark := by
            rintro rfl
            simp [hmark] at hcharacter
          have htrim : ∀ piece, Blank.trim (character :: piece) = Blank.trim piece := by
            intro piece
            simp [Blank.trim, Blank.trimLeft, hcharacter]
          obtain ⟨piece, pieces, hsplit⟩ := List.exists_cons_of_ne_nil (split_ne_nil mark rest)
          rw [show Blank.trimLeft (character :: rest) = Blank.trimLeft rest by
            simp [Blank.trimLeft, hcharacter], ih, split, if_neg hne, hsplit]
          simp [htrim]

theorem map_trimRight_split_trimRight (hmark : Blank.isBlank mark = false) (text : List Char) :
    (split mark (Blank.trimRight text)).map Blank.trimRight =
      (split mark text).map Blank.trimRight := by
  induction text with
  | nil => rfl
  | cons character rest ih =>
      have hright : split mark (Blank.trimRight (character :: rest)) =
          split mark (character :: Blank.trimRight rest) ∨
          (Blank.isBlank character = true ∧ Blank.trimRight rest = []) := by
        rw [Blank.trimRight]
        cases Blank.trimRight rest with
        | nil => cases hcharacter : Blank.isBlank character <;> simp
        | cons kept others => exact .inl rfl
      rcases hright with hright | ⟨hcharacter, hnil⟩
      · rw [hright]
        by_cases hmark : character = mark
        · simp [split, hmark, ih]
        · obtain ⟨piece, pieces, hsplit⟩ := List.exists_cons_of_ne_nil (split_ne_nil mark rest)
          obtain ⟨kept, others, hkept⟩ :=
            List.exists_cons_of_ne_nil (split_ne_nil mark (Blank.trimRight rest))
          rw [hsplit, hkept] at ih
          obtain ⟨hpiece, hpieces⟩ := List.cons_eq_cons.mp ih
          have hcons : Blank.trimRight (character :: kept) = Blank.trimRight (character :: piece) := by
            simp only [Blank.trimRight, hpiece]
          rw [split, split, if_neg hmark, if_neg hmark, hsplit, hkept, List.map_cons, List.map_cons,
            hcons, hpieces]
      · -- The whole text is blank, so the mark does not occur in it.
        have hblank : Blank.isAllBlank (character :: rest) = true := by
          have hrest := (Blank.trimRight_eq_nil_iff rest).mp hnil
          simpa [Blank.isAllBlank, hcharacter] using hrest
        rw [Blank.trimRight_of_isAllBlank hblank,
          split_of_not_mem (Blank.not_mem_of_isAllBlank hblank hmark)]
        simp only [split, List.map_cons, List.map_nil, Blank.trimRight_of_isAllBlank hblank]
        rfl

theorem map_trim_split_trim (hmark : Blank.isBlank mark = false) (text : List Char) :
    (split mark (Blank.trim text)).map Blank.trim = (split mark text).map Blank.trim := by
  have hright := congrArg (List.map Blank.trim)
    (map_trimRight_split_trimRight hmark (Blank.trimLeft text))
  simp only [List.map_map, Function.comp_def, Blank.trim_trimRight] at hright
  rw [Blank.trim, hright, map_trim_split_trimLeft hmark]

end Pieces

end Cascade.Text
