import Cascade.Text.Utf8

/-!
Texts as bytes. The bytes of a text are read as that text (`decodeFrom_encode`), and bytes that are read
are those of a text (`eq_encode_of_decodeFrom`), so a file can be read exactly when it holds a text
(`isText_iff`).
-/

namespace Cascade

theorem exists_of_map_eq_ok {ε α β : Type} {result : Except ε α} {change : α → β} {value : β}
    (h : result.map change = .ok value) : ∃ before, result = .ok before ∧ value = change before := by
  cases result with
  | error refusal => cases h
  | ok before => exact ⟨before, rfl, (Except.ok.inj h).symm⟩

theorem exists_of_bind_eq_ok {ε α β : Type} {result : Except ε α} {next : α → Except ε β}
    {value : β} (h : (result >>= next) = .ok value) :
    ∃ before, result = .ok before ∧ next before = .ok value := by
  cases result with
  | error refusal => cases h
  | ok before => exact ⟨before, rfl, h⟩

namespace Text.Utf8

def bytesOf (character : Char) : List Nat :=
  let code := character.toNat
  if code < 0x80 then [code]
  else if code < 0x800 then [0xc0 + code / 0x40, 0x80 + code % 0x40]
  else if code < 0x10000 then
    [0xe0 + code / 0x1000, 0x80 + code / 0x40 % 0x40, 0x80 + code % 0x40]
  else
    [0xf0 + code / 0x40000, 0x80 + code / 0x1000 % 0x40, 0x80 + code / 0x40 % 0x40,
      0x80 + code % 0x40]

def encode (text : List Char) : List Nat :=
  text.flatMap bytesOf

/-! ### Bytes of a text -/

theorem code_range (character : Char) :
    character.toNat < 0xd800 ∨ 0xdfff < character.toNat ∧ character.toNat < 0x110000 :=
  character.valid

theorem ofNat_eq {code : Nat} (character : Char) (h : code = character.toNat) :
    Char.ofNat code = character := by
  rw [h, Char.ofNat_toNat]

section Bytes

variable {first byte : Nat}

theorem decodeFrom_first {count : Nat} (hcount : tailCount? first = some (count + 1))
    (position : Nat) (rest : List Nat) :
    decodeFrom position none (first :: rest) =
      decodeFrom (position + 1)
        (some ⟨position, first, 1, count + 1, leading first (count + 1)⟩) rest := by
  rw [decodeFrom, hcount]
  rfl

theorem decodeFrom_next {state : Open} {position : Nat} (rest : List Nat)
    (hfits : (if state.seen = 1 then isSecond state.first byte else isTail byte) = true)
    (hmore : 1 < state.remaining) :
    decodeFrom position (some state) (byte :: rest) =
      decodeFrom (position + 1)
        (some { state with
          seen := state.seen + 1
          remaining := state.remaining - 1
          bits := state.bits * 64 + byte % 64 }) rest := by
  rw [decodeFrom]
  simp only [hfits, if_true]
  rw [if_neg (by omega)]

theorem decodeFrom_last {state : Open} {position : Nat} (rest : List Nat)
    (hfits : (if state.seen = 1 then isSecond state.first byte else isTail byte) = true)
    (hlast : state.remaining ≤ 1) :
    decodeFrom position (some state) (byte :: rest) =
      (decodeFrom (position + 1) none rest).map (Char.ofNat (state.bits * 64 + byte % 64) :: ·) := by
  rw [decodeFrom]
  simp only [hfits, if_true]
  rw [if_pos hlast]

end Bytes

theorem decodeFrom_bytesOf (position : Nat) (character : Char) (rest : List Nat) :
    ∃ next, decodeFrom position none (bytesOf character ++ rest) =
      (decodeFrom next none rest).map (character :: ·) := by
  have hrange := code_range character
  simp only [bytesOf]
  split
  · rename_i h
    refine ⟨position + 1, ?_⟩
    simp only [List.cons_append, List.nil_append, decodeFrom, tailCount?, if_pos h,
      Char.ofNat_toNat]
  · split
    · refine ⟨position + 1 + 1, ?_⟩
      have hcount : tailCount? (0xc0 + character.toNat / 0x40) = some 1 := by
        grind [tailCount?]
      simp only [List.cons_append, List.nil_append]
      rw [decodeFrom_first hcount, decodeFrom_last _ (by grind [isSecond, isTail]) (by simp),
        ofNat_eq character (by simp [leading]; omega)]
    · split
      · refine ⟨position + 1 + 1 + 1, ?_⟩
        have hcount : tailCount? (0xe0 + character.toNat / 0x1000) = some 2 := by
          grind [tailCount?]
        simp only [List.cons_append, List.nil_append]
        rw [decodeFrom_first hcount, decodeFrom_next _ (by grind [isSecond, isTail]) (by simp),
          decodeFrom_last _ (by grind [isSecond, isTail]) (by simp),
          ofNat_eq character (by simp [leading]; omega)]
      · refine ⟨position + 1 + 1 + 1 + 1, ?_⟩
        have hcount : tailCount? (0xf0 + character.toNat / 0x40000) = some 3 := by
          grind [tailCount?]
        simp only [List.cons_append, List.nil_append]
        rw [decodeFrom_first hcount, decodeFrom_next _ (by grind [isSecond, isTail]) (by simp),
          decodeFrom_next _ (by grind [isSecond, isTail]) (by simp),
          decodeFrom_last _ (by grind [isSecond, isTail]) (by simp),
          ofNat_eq character (by simp [leading]; omega)]

theorem decodeFrom_encode (position : Nat) (text : List Char) :
    decodeFrom position none (encode text) = .ok text := by
  induction text generalizing position with
  | nil => rfl
  | cons character rest ih =>
      obtain ⟨next, hfirst⟩ := decodeFrom_bytesOf position character (encode rest)
      rw [encode, List.flatMap_cons, ← encode, hfirst, ih]
      rfl

/-! ### Bytes that are read -/

theorem exists_of_open {state : Open} {position : Nat} {bytes : List Nat} {text : List Char}
    (h : decodeFrom position (some state) bytes = .ok text) :
    ∃ byte rest, bytes = byte :: rest ∧
      (if state.seen = 1 then isSecond state.first byte else isTail byte) = true ∧
      (1 < state.remaining ∧ decodeFrom (position + 1)
          (some { state with
            seen := state.seen + 1
            remaining := state.remaining - 1
            bits := state.bits * 64 + byte % 64 }) rest = .ok text ∨
        state.remaining ≤ 1 ∧ ∃ later, decodeFrom (position + 1) none rest = .ok later ∧
          text = Char.ofNat (state.bits * 64 + byte % 64) :: later) := by
  cases bytes with
  | nil => cases h
  | cons byte rest =>
      by_cases hfits : (if state.seen = 1 then isSecond state.first byte else isTail byte) = true
      · refine ⟨byte, rest, rfl, hfits, ?_⟩
        by_cases hmore : 1 < state.remaining
        · exact .inl ⟨hmore, decodeFrom_next rest hfits hmore ▸ h⟩
        · rw [decodeFrom_last rest hfits (by omega)] at h
          cases hlater : decodeFrom (position + 1) none rest with
          | error refusal => rw [hlater] at h; cases h
          | ok later =>
              rw [hlater] at h
              exact .inr ⟨by omega, later, rfl, (Except.ok.inj h).symm⟩
      · rw [decodeFrom] at h
        simp only [hfits] at h
        cases h

theorem toNat_ofNat (code : Nat) (h : code < 0xd800 ∨ 0xdfff < code ∧ code < 0x110000) :
    (Char.ofNat code).toNat = code := by
  rw [Char.ofNat, dif_pos h]
  rfl

/-! A first byte and its tails are the bytes of one character. -/

section Characters

variable {first second third fourth : Nat}

theorem bytesOf_ofNat_one (hfirst : first < 0x80) : bytesOf (Char.ofNat first) = [first] := by
  simp only [bytesOf, toNat_ofNat first (by omega), if_pos hfirst]

theorem bytesOf_ofNat_two (hfirst : 0xc2 ≤ first ∧ first ≤ 0xdf)
    (hsecond : 0x80 ≤ second ∧ second ≤ 0xbf) :
    bytesOf (Char.ofNat (first % 0x20 * 64 + second % 64)) = [first, second] := by
  simp only [bytesOf]
  rw [toNat_ofNat _ (by omega), if_neg (by omega), if_pos (by omega)]
  simp only [List.cons.injEq, and_true]
  omega

theorem bytesOf_ofNat_three (hfirst : 0xe0 ≤ first ∧ first ≤ 0xef)
    (hsecond : 0x80 ≤ second ∧ second ≤ 0xbf) (hleast : first = 0xe0 → 0xa0 ≤ second)
    (hgap : first = 0xed → second < 0xa0) (hthird : 0x80 ≤ third ∧ third ≤ 0xbf) :
    bytesOf (Char.ofNat ((first % 0x10 * 64 + second % 64) * 64 + third % 64)) =
      [first, second, third] := by
  simp only [bytesOf]
  rw [toNat_ofNat _ (by omega), if_neg (by omega), if_neg (by omega), if_pos (by omega)]
  simp only [List.cons.injEq, and_true]
  omega

theorem bytesOf_ofNat_four (hfirst : 0xf0 ≤ first ∧ first ≤ 0xf4)
    (hsecond : 0x80 ≤ second ∧ second ≤ 0xbf) (hleast : first = 0xf0 → 0x90 ≤ second)
    (hgreatest : first = 0xf4 → second < 0x90) (hthird : 0x80 ≤ third ∧ third ≤ 0xbf)
    (hfourth : 0x80 ≤ fourth ∧ fourth ≤ 0xbf) :
    bytesOf (Char.ofNat
        (((first % 8 * 64 + second % 64) * 64 + third % 64) * 64 + fourth % 64)) =
      [first, second, third, fourth] := by
  simp only [bytesOf]
  rw [toNat_ofNat _ (by omega), if_neg (by omega), if_neg (by omega), if_neg (by omega)]
  simp only [List.cons.injEq, and_true]
  omega

end Characters

theorem exists_of_first {position first : Nat} {rest : List Nat} {text : List Char}
    (h : decodeFrom position none (first :: rest) = .ok text) :
    ∃ character others next later, first :: rest = bytesOf character ++ later ∧
      decodeFrom next none later = .ok others ∧ text = character :: others := by
  cases hcount : tailCount? first with
  | none =>
      rw [decodeFrom, hcount] at h
      cases h
  | some count =>
      have hfirst := hcount
      simp only [tailCount?] at hfirst
      obtain _ | count := count
      · rw [decodeFrom, hcount] at h
        obtain ⟨others, hothers, htext⟩ := exists_of_map_eq_ok h
        exact ⟨_, others, _, rest, by rw [bytesOf_ofNat_one (by grind)]; rfl, hothers, htext⟩
      · rw [decodeFrom_first hcount] at h
        obtain ⟨second, rest, rfl, hsecond, hnext⟩ := exists_of_open h
        simp only [if_true, isSecond, isTail] at hsecond
        obtain _ | _ | _ | count := count
        · obtain ⟨hmore, -⟩ | ⟨-, others, hothers, htext⟩ := hnext
          · simp at hmore
          · exact ⟨_, others, _, rest, 
              congrArg (· ++ rest) (bytesOf_ofNat_two (by grind) (by grind)).symm, hothers, htext⟩
        · obtain ⟨-, hnext⟩ | ⟨hlast, -⟩ := hnext
          · obtain ⟨third, rest, rfl, hthird, hnext⟩ := exists_of_open hnext
            simp only [isTail] at hthird
            obtain ⟨hmore, -⟩ | ⟨-, others, hothers, htext⟩ := hnext
            · simp at hmore
            · exact ⟨_, others, _, rest, 
                congrArg (· ++ rest) (bytesOf_ofNat_three (by grind) (by grind) (by grind)
                  (by grind) (by grind)).symm, hothers, htext⟩
          · simp at hlast
        · obtain ⟨-, hnext⟩ | ⟨hlast, -⟩ := hnext
          · obtain ⟨third, rest, rfl, hthird, hnext⟩ := exists_of_open hnext
            simp only [isTail] at hthird
            obtain ⟨-, hnext⟩ | ⟨hlast, -⟩ := hnext
            · obtain ⟨fourth, rest, rfl, hfourth, hnext⟩ := exists_of_open hnext
              simp only [isTail] at hfourth
              obtain ⟨hmore, -⟩ | ⟨-, others, hothers, htext⟩ := hnext
              · simp at hmore
              · exact ⟨_, others, _, rest, 
                  congrArg (· ++ rest) (bytesOf_ofNat_four (by grind) (by grind) (by grind)
                    (by grind) (by grind) (by grind)).symm, hothers, htext⟩
            · simp at hlast
          · simp at hlast
        · grind

theorem eq_encode_of_decodeFrom {position : Nat} {bytes : List Nat} {text : List Char}
    (h : decodeFrom position none bytes = .ok text) : bytes = encode text := by
  induction hlength : bytes.length using Nat.strongRecOn generalizing position bytes text with
  | ind length ih =>
      cases bytes with
      | nil =>
          obtain rfl := Except.ok.inj h
          rfl
      | cons first rest =>
          obtain ⟨character, others, next, later, hbytes, hlater, rfl⟩ := exists_of_first h
          have hshort : later.length < length := by
            have hpositive : 0 < (bytesOf character).length := by
              rw [bytesOf]
              split <;> (try split) <;> (try split) <;> simp
            rw [← hlength, hbytes, List.length_append]
            omega
          rw [encode, List.flatMap_cons, ← encode, ← ih _ hshort hlater rfl, hbytes]

/-! ### Files -/

/-- Bytes of a file that holds a text, perhaps after the mark. -/
def IsText (bytes : List Nat) : Prop :=
  ∃ text, withoutMark bytes = encode text

theorem isText_iff {bytes : List Nat} : IsText bytes ↔ ∃ text, read bytes = .ok text := by
  constructor
  · rintro ⟨text, htext⟩
    exact ⟨withLineFeeds text, by rw [read, htext, decodeFrom_encode]; rfl⟩
  · rintro ⟨text, hread⟩
    obtain ⟨before, hbefore, -⟩ := exists_of_map_eq_ok hread
    exact ⟨before, eq_encode_of_decodeFrom hbefore⟩

/-- The bytes of a text are those of a file that holds a text, even if the text starts with a mark. -/
theorem isText_encode (text : List Char) : IsText (encode text) := by
  have hread := decodeFrom_encode 0 text
  rw [IsText, withoutMark.eq_def]
  split
  · exact ⟨[], rfl⟩
  · exact ⟨[], rfl⟩
  · exact ⟨[], rfl⟩
  · rename_i rest hbytes
    rw [hbytes] at hread
    have hmark : (decodeFrom 3 none rest).map (Char.ofNat 0xfeff :: ·) = .ok text := hread
    obtain ⟨others, hothers, -⟩ := exists_of_map_eq_ok hmark
    exact ⟨others, eq_encode_of_decodeFrom hothers⟩
  · exact ⟨text, rfl⟩

end Text.Utf8

end Cascade
