/-!
Cutting a text at every occurrence of a mark, and joining pieces with a mark between them. Main
statement: joining undoes cutting (`join_split`).
-/

namespace Cascade.Text.Pieces

/-- The pieces of a text between the occurrences of a mark; there is always at least one. -/
def split (mark : Char) : List Char → List (List Char)
  | [] => [[]]
  | character :: rest =>
      if character = mark then
        [] :: split mark rest
      else
        match split mark rest with
        | [] => [[character]]
        | piece :: pieces => (character :: piece) :: pieces

/-- The pieces one after another with the separator between neighbours. -/
def join (separator : List Char) : List (List Char) → List Char
  | [] => []
  | [piece] => piece
  | piece :: pieces => piece ++ separator ++ join separator pieces

theorem split_ne_nil (mark : Char) (text : List Char) : split mark text ≠ [] := by
  cases text with
  | nil => simp [split]
  | cons character rest =>
      by_cases h : character = mark
      · simp [split, h]
      · cases hrest : split mark rest <;> simp [split, h, hrest]

theorem join_split (mark : Char) (text : List Char) : join [mark] (split mark text) = text := by
  induction text with
  | nil => rfl
  | cons character rest ih =>
      obtain ⟨piece, pieces, hsplit⟩ := List.exists_cons_of_ne_nil (split_ne_nil mark rest)
      by_cases h : character = mark
      · rw [split, if_pos h, hsplit, join, ← hsplit, ih]
        · simp [h]
        · simp
      · rw [split, if_neg h, hsplit]
        rw [hsplit] at ih
        cases pieces with
        | nil => simpa [join] using congrArg (List.cons character) ih
        | cons next others => simpa [join] using congrArg (List.cons character) ih

end Cascade.Text.Pieces

namespace Cascade

/-- Texts one after another with the separator between neighbours. -/
def joined (separator : String) (texts : List String) : String :=
  separator.intercalate texts

end Cascade
