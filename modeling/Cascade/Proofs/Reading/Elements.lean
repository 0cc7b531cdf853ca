import Cascade.Proofs.Reading.Written

/-!
The elements of a cascade. Cutting a text gives normal forms: texts that are not empty, have no blank at
their ends and no star in them. It undoes every way of joining normal forms by stars and blanks, and
each text is joined from its elements in such a way (`cascadeElements_eq_iff`).
-/

namespace Cascade

open Text

namespace Elements

/-- A text that is an element as it stands. -/
structure IsNormal (text : String) : Prop where
  ne_empty : text ≠ ""
  trimmed_eq : trimmed text = text
  star_not_mem : cascadeMark ∉ text.toList

def IsFiller (text : List Char) : Prop :=
  ∀ character ∈ text, Blank.isBlank character = true ∨ character = cascadeMark

/-- The texts in which elements are joined in order: blanks and stars stand before, after and between
them, with a star between any two. -/
inductive Joins : List String → List Char → Prop
  | none {text : List Char} : IsFiller text → Joins [] text
  | last {element : String} {front back : List Char} :
      IsFiller front → IsFiller back → Joins [element] (front ++ element.toList ++ back)
  | next {element : String} {elements : List String} {front gap rest : List Char} :
      IsFiller front → IsFiller gap → cascadeMark ∈ gap → Joins elements rest →
      Joins (element :: elements) (front ++ element.toList ++ gap ++ rest)

/-! ### Fillers -/

section Filler

variable {text front back : List Char}

theorem IsFiller.append (hfront : IsFiller front) (hback : IsFiller back) :
    IsFiller (front ++ back) :=
  List.forall_mem_append.mpr ⟨hfront, hback⟩

theorem isFiller_of_isAllBlank (h : Blank.isAllBlank text = true) : IsFiller text :=
  fun _ hmem => .inl (Blank.isBlank_of_mem h hmem)

theorem isFiller_star : IsFiller [cascadeMark] :=
  List.forall_mem_singleton.mpr (.inr rfl)

/-- A filler without a star is blank. -/
theorem IsFiller.isAllBlank (h : IsFiller text) (hstar : cascadeMark ∉ text) :
    Blank.isAllBlank text = true := by
  refine List.all_eq_true.mpr fun character hmem => (h character hmem).resolve_right ?_
  rintro rfl
  exact hstar hmem

/-- What stands before the first star of a filler is blank. -/
theorem IsFiller.exists_blanks (h : IsFiller text) (hstar : cascadeMark ∈ text) :
    ∃ blanks rest, text = blanks ++ cascadeMark :: rest ∧ Blank.isAllBlank blanks = true ∧
      IsFiller rest := by
  obtain ⟨blanks, rest, rfl, hblanks⟩ := List.eq_append_cons_of_mem hstar
  obtain ⟨hfront, hback⟩ := List.forall_mem_append.mp h
  exact ⟨blanks, rest, rfl, IsFiller.isAllBlank hfront hblanks, (List.forall_mem_cons.mp hback).2⟩

theorem Joins.filler_append {elements : List String} (h : Joins elements text)
    (hfront : IsFiller front) : Joins elements (front ++ text) := by
  cases h with
  | none htext => exact .none (hfront.append htext)
  | last hinner hback =>
      simp only [← List.append_assoc]
      exact .last (hfront.append hinner) hback
  | next hinner hgap hstar hrest =>
      simp only [← List.append_assoc]
      exact .next (hfront.append hinner) hgap hstar hrest

end Filler

/-! ### Cutting at the stars -/

section Cutting

variable {element : String} {elements : List String} {text front back : List Char}

/-- The elements of a list of characters. -/
def ofChars (text : List Char) : List String :=
  (Pieces.split cascadeMark text).filterMap PlainCall.element?

theorem cascadeElements_eq (text : String) : cascadeElements text = ofChars text.toList :=
  List.filterMap_map ..

theorem ofChars_append_star (front back : List Char) :
    ofChars (front ++ cascadeMark :: back) = ofChars front ++ ofChars back := by
  rw [ofChars, Pieces.split_append_mark, List.filterMap_append, ← ofChars, ← ofChars]

theorem ofChars_of_star_not_mem (h : cascadeMark ∉ text) :
    ofChars text = (PlainCall.element? text).toList := by
  rw [ofChars, Pieces.split_of_not_mem h]
  cases helement : PlainCall.element? text <;> simp [helement]

theorem ofChars_of_isFiller (h : IsFiller text) : ofChars text = [] := by
  refine List.filterMap_eq_nil_iff.mpr fun piece hpiece => ?_
  obtain ⟨hstar, hsubset⟩ := Pieces.not_mem_of_mem_split hpiece
  have hfiller : IsFiller piece := fun character hmem => h character (hsubset hmem)
  exact PlainCall.element?_of_isAllBlank (hfiller.isAllBlank hstar)

theorem isNormal_of_mem (h : element ∈ ofChars text) : IsNormal element := by
  obtain ⟨piece, hpiece, helement⟩ := List.mem_filterMap.mp h
  rw [PlainCall.element?] at helement
  split at helement
  · cases helement
  · rename_i hne
    obtain rfl := Option.some.inj helement
    refine ⟨fun hempty => hne ?_, ?_, ?_⟩
    · rw [List.isEmpty_iff]
      simpa using congrArg String.toList hempty
    · rw [trimmed, String.toList_ofList, Blank.trim_trim]
    · rw [String.toList_ofList]
      exact fun hmem => (Pieces.not_mem_of_mem_split hpiece).1 (Blank.mem_of_mem_trim hmem)

theorem IsNormal.trim_eq (h : IsNormal element) : Blank.trim element.toList = element.toList :=
  PlainCall.trim_of_trimmed h.trimmed_eq

theorem IsNormal.toList_ne_nil (h : IsNormal element) : element.toList ≠ [] :=
  mt String.toList_eq_nil_iff.mp h.ne_empty

theorem element?_of_isNormal (h : IsNormal element) (hpads : Blank.Pads element.toList text) :
    PlainCall.element? text = some element := by
  rw [PlainCall.element?, hpads.trim_eq, h.trim_eq, if_neg (by simpa using h.ne_empty),
    String.ofList_toList]

theorem ofChars_filler_append (h : IsFiller front) (text : List Char) :
    ofChars (front ++ text) = ofChars text := by
  induction front with
  | nil => rfl
  | cons character rest ih =>
      obtain ⟨hcharacter, hrest⟩ := List.forall_mem_cons.mp h
      rcases hcharacter with hblank | rfl
      · have hne : character ≠ cascadeMark := by
          rintro rfl
          exact Bool.false_ne_true hblank
        obtain ⟨piece, pieces, hsplit⟩ :=
          List.exists_cons_of_ne_nil (Pieces.split_ne_nil cascadeMark (rest ++ text))
        have htrim : Blank.trim (character :: piece) = Blank.trim piece := by
          simp [Blank.trim, Blank.trimLeft, hblank]
        rw [← ih hrest, List.cons_append, ofChars, ofChars, Pieces.split, if_neg hne, hsplit]
        simp only [List.filterMap_cons, PlainCall.element?, htrim]
      · rw [List.cons_append, ← List.nil_append (cascadeMark :: _), ofChars_append_star, ih hrest]
        rfl

theorem ofChars_normal (h : IsNormal element) (hfront : IsFiller front)
    (hback : Blank.isAllBlank back = true) :
    ofChars (front ++ element.toList ++ back) = [element] := by
  have hpads : Blank.Pads element.toList (element.toList ++ back) := ⟨[], back, rfl, hback, rfl⟩
  have hstar : cascadeMark ∉ element.toList ++ back :=
    hpads.not_mem rfl h.star_not_mem
  rw [List.append_assoc, ofChars_filler_append hfront, ofChars_of_star_not_mem hstar,
    element?_of_isNormal h hpads, Option.toList_some]

theorem ofChars_normal_star (h : IsNormal element) (hfront : IsFiller front)
    {gap : List Char} (hgap : IsFiller gap) (hstar : cascadeMark ∈ gap) (rest : List Char) :
    ofChars (front ++ element.toList ++ gap ++ rest) = element :: ofChars rest := by
  obtain ⟨blanks, others, rfl, hblanks, hothers⟩ := hgap.exists_blanks hstar
  have hcut : front ++ element.toList ++ (blanks ++ cascadeMark :: others) ++ rest =
      (front ++ element.toList ++ blanks) ++ cascadeMark :: (others ++ rest) := by
    simp only [List.append_assoc, List.cons_append]
  rw [hcut, ofChars_append_star, ofChars_normal h hfront hblanks, ofChars_filler_append hothers]
  rfl

/-! ### Joining -/

theorem Joins.ofChars_eq (h : Joins elements text)
    (hnormal : ∀ element ∈ elements, IsNormal element) : ofChars text = elements := by
  induction h with
  | none htext => exact ofChars_of_isFiller htext
  | @last element front back hfront hback =>
      have helement := List.forall_mem_singleton.mp hnormal
      by_cases hstar : cascadeMark ∈ back
      · rw [← List.append_nil (front ++ _ ++ back), ofChars_normal_star helement hfront hback hstar]
        rfl
      · exact ofChars_normal helement hfront (hback.isAllBlank hstar)
  | next hfront hgap hstar _ ih =>
      obtain ⟨helement, helements⟩ := List.forall_mem_cons.mp hnormal
      rw [ofChars_normal_star helement hfront hgap hstar, ih helements]

theorem blank_or_padded (text : List Char) :
    (Blank.isAllBlank text = true ∧ PlainCall.element? text = none) ∨
      ∃ element front back, Blank.isAllBlank front = true ∧ Blank.isAllBlank back = true ∧
        text = front ++ element.toList ++ back ∧ PlainCall.element? text = some element := by
  by_cases hblank : Blank.isAllBlank text = true
  · exact .inl ⟨hblank, PlainCall.element?_of_isAllBlank hblank⟩
  · have hne : Blank.trim text ≠ [] := mt (Blank.trim_eq_nil_iff text).mp hblank
    obtain ⟨front, back, hfront, hback, htext⟩ := Blank.pads_trim text
    refine .inr ⟨String.ofList (Blank.trim text), front, back, hfront, hback, ?_, ?_⟩
    · rwa [String.toList_ofList]
    · rw [PlainCall.element?, if_neg (by simpa using hne)]

theorem joins_piece (piece : List Char) : Joins (PlainCall.element? piece).toList piece := by
  obtain ⟨hblank, helement⟩ | ⟨element, front, back, hfront, hback, rfl, helement⟩ :=
    blank_or_padded piece
  · rw [helement]
    exact .none (isFiller_of_isAllBlank hblank)
  · rw [helement]
    exact .last (isFiller_of_isAllBlank hfront) (isFiller_of_isAllBlank hback)

theorem Joins.piece_append (h : Joins elements text) (piece : List Char) :
    Joins ((PlainCall.element? piece).toList ++ elements) (piece ++ [cascadeMark] ++ text) := by
  obtain ⟨hblank, helement⟩ | ⟨element, front, back, hfront, hback, rfl, helement⟩ :=
    blank_or_padded piece
  · rw [helement]
    exact h.filler_append ((isFiller_of_isAllBlank hblank).append isFiller_star)
  · rw [helement, List.append_assoc (front ++ element.toList)]
    exact .next (isFiller_of_isAllBlank hfront)
      ((isFiller_of_isAllBlank hback).append isFiller_star) (by simp) h

theorem joins_join (pieces : List (List Char)) :
    Joins (pieces.filterMap PlainCall.element?) (Pieces.join [cascadeMark] pieces) := by
  induction pieces with
  | nil => exact .none (List.forall_mem_nil _)
  | cons piece rest ih =>
      have hcons : (piece :: rest).filterMap PlainCall.element? =
          (PlainCall.element? piece).toList ++ rest.filterMap PlainCall.element? := by
        cases helement : PlainCall.element? piece <;> simp [helement]
      rw [hcons]
      cases rest with
      | nil =>
          rw [List.filterMap_nil, List.append_nil]
          exact joins_piece piece
      | cons next others => exact ih.piece_append piece

theorem joins_ofChars (text : List Char) : Joins (ofChars text) text := by
  have h := joins_join (Pieces.split cascadeMark text)
  rwa [Pieces.join_split] at h

end Cutting

/-! ### The elements of a text -/

variable {text : String} {elements : List String}

theorem cascadeElements_eq_iff : cascadeElements text = elements ↔
    (∀ element ∈ elements, IsNormal element) ∧ Joins elements text.toList := by
  rw [cascadeElements_eq]
  constructor
  · rintro rfl
    exact ⟨fun _ => isNormal_of_mem, joins_ofChars text.toList⟩
  · rintro ⟨hnormal, hjoins⟩
    exact hjoins.ofChars_eq hnormal

theorem isNormal_of_mem_cascadeElements {element : String} (h : element ∈ cascadeElements text) :
    IsNormal element :=
  (cascadeElements_eq_iff.mp rfl).1 element h

theorem cascadeElements_eq_nil_iff : cascadeElements text = [] ↔ IsFiller text.toList := by
  rw [cascadeElements_eq_iff]
  constructor
  · rintro ⟨-, hjoins⟩
    cases hjoins with
    | none hfiller => exact hfiller
  · exact fun hfiller => ⟨List.forall_mem_nil _, .none hfiller⟩

theorem cascadeElements_star (text other : String) :
    cascadeElements (text ++ "*" ++ other) = cascadeElements text ++ cascadeElements other := by
  simp only [cascadeElements_eq, String.toList_append, List.append_assoc]
  exact ofChars_append_star text.toList other.toList

end Elements

end Cascade
