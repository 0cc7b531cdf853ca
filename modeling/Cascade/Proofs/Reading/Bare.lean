import Cascade.Arguments.Reader
import Cascade.Proofs.Reading.Lexing
import Cascade.Proofs.Reading.Padding

/-!
Bare values and keys: numbers and words that nothing is quoted or commented in. A character that
separates ends them, and blanks around them leave nothing behind. Main statements: a bare value has the
same tokens before a character that separates as by itself (`Token.bare_of_scanFrom?`), and so has the
trimmed value (`Token.scan?_trim`).
-/

namespace Cascade.Literal.Token

/-! ### Characters -/

/-- The code points of the blanks of every script. -/
def blankCodes : List Nat :=
  List.range' 9 5 ++ List.range' 28 5 ++ List.range' 0x2000 11 ++
    [0x85, 0xa0, 0x1680, 0x2028, 0x2029, 0x202f, 0x205f, 0x3000]

theorem mem_blankCodes {character : Char} (h : Text.Blank.isBlank character = true) :
    character.toNat ∈ blankCodes := by
  simp only [Text.Blank.isBlank, Bool.or_eq_true, Bool.and_eq_true, decide_eq_true_eq, beq_iff_eq] at h
  simp only [blankCodes, List.mem_append, List.mem_range'_1, List.mem_cons, List.not_mem_nil, or_false]
  omega

theorem of_mem_codes (property : Char → Bool) {codes : List Nat}
    (hcodes : codes.all (fun code => property (Char.ofNat code)) = true) {character : Char}
    (h : character.toNat ∈ codes) : property character = true := by
  have hcharacter := List.all_eq_true.mp hcodes _ h
  rwa [Char.ofNat_toNat] at hcharacter

/-- A character that ends a word and a number. -/
def separates (character : Char) : Bool :=
  !continuesWord character && character != '\\' && !character.isAlphanum && character != '.' &&
    character != '+' && character != '-'

theorem hexValue?_of_separates {character : Char} (h : separates character = true) :
    Number.hexValue? character = none := by
  have hcode : character.toNat ∉ List.range' 48 10 ++ List.range' 97 6 ++ List.range' 65 6 := by
    intro hmem
    have hnot := of_mem_codes (fun character => !separates character) (by decide +kernel) hmem
    simp [h] at hnot
  simp only [List.mem_append, List.mem_range'_1, not_or] at hcode
  obtain ⟨⟨hdigit, hlower⟩, hupper⟩ := hcode
  simp only [Number.hexValue?, Bool.and_eq_true, decide_eq_true_eq]
  rw [if_neg (by omega), if_neg (by omega), if_neg (by omega)]

theorem separates_of_isBlank {character : Char} (h : Text.Blank.isBlank character = true) :
    separates character = true :=
  of_mem_codes separates (by decide +kernel) (mem_blankCodes h)

/-- A character that the reading of a bare value cannot meet: a quotation mark, a colon, a bracket, a
slash or a comma. -/
def isReserved (character : Char) : Bool :=
  Arguments.Pair.endsBare character || character == ','

section

variable {character : Char} {read rest text blanks : List Char} {mode next : Mode}
  {tokens now : List Token}

theorem begin?_of_isBlank (h : Text.Blank.isBlank character = true)
    (hbegin : begin? character = some (next, now)) : next = .between ∧ now = [] := by
  by_cases hblank : isBlank character = true
  · rw [begin?, if_pos hblank] at hbegin
    obtain ⟨rfl, rfl⟩ := Prod.mk.inj (Option.some.inj hbegin)
    exact ⟨rfl, rfl⟩
  · have hnone : isBlank character || (begin? character).isNone :=
      of_mem_codes (fun character => isBlank character || (begin? character).isNone)
        (by decide +kernel) (mem_blankCodes h)
    simp [hbegin, hblank] at hnone

theorem scanFrom?_blanks (hblanks : Text.Blank.isAllBlank blanks = true)
    (h : scanFrom? .between (blanks ++ text) = some tokens) :
    scanFrom? .between text = some tokens := by
  induction blanks with
  | nil => exact h
  | cons first others ih =>
      rw [Text.Blank.isAllBlank, List.all_cons, Bool.and_eq_true] at hblanks
      obtain ⟨next, now, later, hstep, hlater, rfl⟩ := scanFrom?_cons h
      obtain ⟨rfl, rfl⟩ := begin?_of_isBlank hblanks.1 hstep
      exact ih hblanks.2 hlater

/-! ### Bare values -/

/-- A mode between tokens, or in a number or a word with its escapes. -/
def Mode.isBare : Mode → Bool
  | .between | .inNumber _ | .inWord _ _ | .wordEscape _ | .wordDigits _ _ _ => true
  | _ => false

/-- A token of a bare value: a number or a word. -/
inductive IsBare : Token → Prop
  | integer (number : Int) : IsBare (.number (.integer number))
  | float (number : Binary64) : IsBare (.number (.float number))
  | word (name : String) (plain : Bool) : IsBare (.word name plain)

theorem decimal?_eq_some {negative : Bool} {value : Value}
    (h : Number.decimal? negative text = some value) :
    (∃ number, value = .integer number) ∨ ∃ number, value = .float number := by
  rw [Number.decimal?.eq_def] at h
  dsimp only at h
  split at h
  · cases h
  split at h
  · split at h
    · cases h
    · exact .inl ⟨_, (Option.some.inj h).symm⟩
  · split at h
    · cases h
    · obtain ⟨power, -, rfl⟩ := Option.map_eq_some_iff.mp h
      exact .inr ⟨_, rfl⟩
  · split at h
    · cases h
    · obtain ⟨power, -, rfl⟩ := Option.map_eq_some_iff.mp h
      exact .inr ⟨_, rfl⟩

theorem unsigned?_eq_some {negative : Bool} {value : Value}
    (h : Number.unsigned? negative text = some value) :
    (∃ number, value = .integer number) ∨ ∃ number, value = .float number := by
  rw [Number.unsigned?.eq_def] at h
  split at h
  · split at h
    · split at h
      · cases h
      · obtain ⟨magnitude, -, rfl⟩ := Option.map_eq_some_iff.mp h
        exact .inl ⟨_, rfl⟩
    · exact decimal?_eq_some h
  · split at h
    · exact .inr ⟨_, (Option.some.inj h).symm⟩
    split at h
    · exact .inr ⟨_, (Option.some.inj h).symm⟩
    · exact decimal?_eq_some h

theorem isBare_of_read? {value : Value} (h : Number.read? text = some value) :
    IsBare (.number value) := by
  have hnumber : (∃ number, value = .integer number) ∨ ∃ number, value = .float number := by
    rw [Number.read?.eq_def] at h
    split at h
    · exact unsigned?_eq_some h
    · exact unsigned?_eq_some h
    · exact unsigned?_eq_some h
  rcases hnumber with ⟨number, rfl⟩ | ⟨number, rfl⟩
  · exact .integer number
  · exact .float number

theorem isBare_of_finishNumber? {token : Token} (h : finishNumber? read = some token) :
    IsBare token := by
  obtain ⟨value, hvalue, rfl⟩ := Option.map_eq_some_iff.mp h
  exact isBare_of_read? hvalue

theorem isBare_of_finish? (hmode : mode.isBare = true) (h : finish? mode = some tokens) :
    ∀ token ∈ tokens, IsBare token := by
  cases mode with
  | between =>
      obtain rfl : [] = tokens := Option.some.inj h
      exact List.forall_mem_nil _
  | inNumber read =>
      obtain ⟨token, htoken, rfl⟩ := Option.map_eq_some_iff.mp h
      exact List.forall_mem_singleton.mpr (isBare_of_finishNumber? htoken)
  | inWord read plain =>
      obtain rfl : [finishWord read plain] = tokens := Option.some.inj h
      exact List.forall_mem_singleton.mpr (.word _ _)
  | wordEscape read | wordDigits read remaining value => cases h
  | _ => cases hmode

theorem scanFrom?_of_separates (hmode : mode.isBare = true) (hseparates : separates character = true)
    (rest : List Char) :
    scanFrom? mode (character :: rest) =
      (finish? mode).bind fun now =>
        (scanFrom? .between (character :: rest)).map fun later => now ++ later := by
  have hdigit := hexValue?_of_separates hseparates
  simp only [separates, Bool.and_eq_true, Bool.not_eq_true', bne_iff_ne] at hseparates
  obtain ⟨⟨⟨⟨⟨hword, hescape⟩, halphanum⟩, hpoint⟩, hplus⟩, hminus⟩ := hseparates
  cases mode with
  | between => simp [finish?]
  | inNumber read =>
      have hends : continuesNumber read.head? character = false := by
        simp [continuesNumber, halphanum, hpoint, hplus, hminus]
      cases htoken : finishNumber? read with
      | none => simp [scanFrom?, step?, finish?, hends, htoken]
      | some token =>
          cases hbegin : begin? character with
          | none => simp [scanFrom?, step?, finish?, hends, htoken, hbegin]
          | some begun =>
              cases hlater : scanFrom? begun.1 rest
              all_goals simp [scanFrom?, step?, finish?, hends, htoken, hbegin, hlater]
  | inWord read plain =>
      cases hbegin : begin? character with
      | none => simp [scanFrom?, step?, finish?, hword, hescape, hbegin]
      | some begun =>
          cases hlater : scanFrom? begun.1 rest
          all_goals simp [scanFrom?, step?, finish?, hword, hescape, hbegin, hlater]
  | wordEscape read =>
      have hletter : character ≠ 'u' := by
        rintro rfl
        cases halphanum
      simp [scanFrom?, step?, finish?, hletter]
  | wordDigits read remaining value => simp [scanFrom?, step?, finish?, hdigit]
  | _ => cases hmode

theorem finish_of_separates (hmode : mode.isBare = true) (hseparates : separates character = true)
    (h : scanFrom? mode (character :: rest) = some tokens) :
    ∃ now later, finish? mode = some now ∧ scanFrom? .between (character :: rest) = some later ∧
      tokens = now ++ later := by
  rw [scanFrom?_of_separates hmode hseparates] at h
  obtain ⟨now, hnow, h⟩ := Option.bind_eq_some_iff.mp h
  obtain ⟨later, hlater, rfl⟩ := Option.map_eq_some_iff.mp h
  exact ⟨now, later, hnow, hlater, rfl⟩

theorem isBare_of_begin? (hcharacter : isReserved character = false)
    (h : begin? character = some (next, now)) :
    next.isBare = true ∧ ∀ token ∈ now, IsBare token := by
  have hne : ∀ {mark : Char}, isReserved mark = true → character ≠ mark := by
    rintro mark hmark rfl
    rw [hcharacter] at hmark
    cases hmark
  cases begins_of_begin? h with
  | blank hblank => exact ⟨rfl, List.forall_mem_nil _⟩
  | token hspells =>
      refine ⟨rfl, List.forall_mem_singleton.mpr ?_⟩
      generalize hspelling : [character] = spelling at hspells
      cases hspells with
      | text hmark hquotes => simp at hspelling
      | number hfirst hread => exact isBare_of_read? hread
      | word hfirst hfollows => exact .word _ _
      | _ => exact absurd (List.head_eq_of_cons_eq hspelling) (hne (by decide))
  | comment hslash => exact absurd hslash (hne (by decide))
  | text hmark => rcases hmark with hmark | hmark <;> exact absurd hmark (hne (by decide))
  | escape hescape => exact ⟨rfl, List.forall_mem_nil _⟩
  | number hstarts => exact ⟨rfl, List.forall_mem_nil _⟩
  | word hstarts => exact ⟨rfl, List.forall_mem_nil _⟩

theorem isBare_of_step? (hmode : mode.isBare = true) (hcharacter : isReserved character = false)
    (h : step? mode character = some (next, now)) :
    next.isBare = true ∧ ∀ token ∈ now, IsBare token := by
  cases mode with
  | between => exact isBare_of_begin? hcharacter h
  | inNumber read =>
      rw [step?] at h
      split at h
      · obtain ⟨rfl, rfl⟩ := Prod.mk.inj (Option.some.inj h)
        exact ⟨rfl, List.forall_mem_nil _⟩
      · obtain ⟨token, htoken, h⟩ := Option.bind_eq_some_iff.mp h
        obtain ⟨⟨begun, more⟩, hbegin, h⟩ := Option.bind_eq_some_iff.mp h
        obtain ⟨rfl, rfl⟩ := Prod.mk.inj (Option.some.inj h)
        obtain ⟨hbegun, hmore⟩ := isBare_of_begin? hcharacter hbegin
        exact ⟨hbegun, List.forall_mem_cons.mpr ⟨isBare_of_finishNumber? htoken, hmore⟩⟩
  | inWord read plain =>
      rw [step?] at h
      split at h
      · obtain ⟨rfl, rfl⟩ := Prod.mk.inj (Option.some.inj h)
        exact ⟨rfl, List.forall_mem_nil _⟩
      split at h
      · obtain ⟨rfl, rfl⟩ := Prod.mk.inj (Option.some.inj h)
        exact ⟨rfl, List.forall_mem_nil _⟩
      · obtain ⟨⟨begun, more⟩, hbegin, h⟩ := Option.map_eq_some_iff.mp h
        obtain ⟨rfl, rfl⟩ := Prod.mk.inj h
        obtain ⟨hbegun, hmore⟩ := isBare_of_begin? hcharacter hbegin
        exact ⟨hbegun, List.forall_mem_cons.mpr ⟨.word _ _, hmore⟩⟩
  | wordEscape read =>
      rw [step?] at h
      split at h
      · obtain ⟨rfl, rfl⟩ := Prod.mk.inj (Option.some.inj h)
        exact ⟨rfl, List.forall_mem_nil _⟩
      · cases h
  | wordDigits read remaining value =>
      obtain ⟨digit, -, h⟩ := Option.map_eq_some_iff.mp h
      dsimp only at h
      split at h
      all_goals
        obtain ⟨rfl, rfl⟩ := Prod.mk.inj h
        exact ⟨rfl, List.forall_mem_nil _⟩
  | _ => cases hmode

theorem bare_of_scanFrom? (hmode : mode.isBare = true)
    (htext : ∀ character ∈ text, isReserved character = false)
    (hseparates : separates character = true)
    (h : scanFrom? mode (text ++ character :: rest) = some tokens) :
    ∃ now later, scanFrom? mode text = some now ∧ (∀ token ∈ now, IsBare token) ∧
      scanFrom? .between (character :: rest) = some later ∧ tokens = now ++ later := by
  induction text generalizing mode tokens with
  | nil =>
      obtain ⟨now, later, hnow, hlater, rfl⟩ := finish_of_separates hmode hseparates h
      exact ⟨now, later, hnow, isBare_of_finish? hmode hnow, hlater, rfl⟩
  | cons first others ih =>
      obtain ⟨hfirst, hothers⟩ := List.forall_mem_cons.mp htext
      obtain ⟨next, begun, later, hstep, hlater, rfl⟩ := scanFrom?_cons h
      obtain ⟨hnext, hbegun⟩ := isBare_of_step? hmode hfirst hstep
      obtain ⟨now, last, hnow, htokens, hlast, rfl⟩ := ih hnext hothers hlater
      refine ⟨begun ++ now, last, scanFrom?_eq_some hstep hnow, fun token hmem => ?_, hlast,
        (List.append_assoc ..).symm⟩
      exact (List.mem_append.mp hmem).elim (hbegun token) (htokens token)

theorem scanFrom?_trailing_blanks (hmode : mode.isBare = true)
    (htext : ∀ character ∈ text, isReserved character = false)
    (hblanks : Text.Blank.isAllBlank blanks = true)
    (h : scanFrom? mode (text ++ blanks) = some tokens) : scanFrom? mode text = some tokens := by
  cases blanks with
  | nil => rwa [List.append_nil] at h
  | cons first others =>
      have hfirst : Text.Blank.isBlank first = true := by
        rw [Text.Blank.isAllBlank, List.all_cons, Bool.and_eq_true] at hblanks
        exact hblanks.1
      obtain ⟨now, later, hnow, -, hlater, rfl⟩ :=
        bare_of_scanFrom? hmode htext (separates_of_isBlank hfirst) h
      have hend : scanFrom? .between ([] : List Char) = some later :=
        scanFrom?_blanks hblanks (by rwa [List.append_nil])
      obtain rfl : [] = later := Option.some.inj hend
      rwa [List.append_nil]

/-- A bare value has the tokens of what is left of it when the blanks at its ends are trimmed. -/
theorem scan?_trim (htext : ∀ character ∈ text, isReserved character = false)
    (h : scan? text = some tokens) : scan? (Text.Blank.trim text) = some tokens := by
  obtain ⟨front, back, hfront, hback, hpads⟩ := Text.Blank.pads_trim text
  rw [hpads, List.append_assoc] at h
  refine scanFrom?_trailing_blanks rfl (fun character hmem => ?_) hback (scanFrom?_blanks hfront h)
  exact htext character (Text.Blank.mem_of_mem_trim hmem)

/-! ### Keys and quoted texts -/

/-- A quoted text without escapes stands for itself. -/
theorem quoted_of_scanFrom? {mark : Char} {inner : List Char} (hmark : mark ∉ inner)
    (hescape : '\\' ∉ inner)
    (h : scanFrom? (.inText mark read .ordinary) (inner ++ mark :: rest) = some tokens) :
    ∃ later, scanFrom? .between rest = some later ∧
      tokens = .text (String.ofList (read.reverse ++ inner)) :: later := by
  induction inner generalizing read tokens with
  | nil =>
      obtain ⟨next, now, later, hstep, hlater, rfl⟩ := scanFrom?_cons h
      rw [step?, stepText?] at hstep
      simp only [beq_self_eq_true, if_true] at hstep
      obtain ⟨rfl, rfl⟩ := Prod.mk.inj (Option.some.inj hstep)
      exact ⟨later, hlater, by rw [List.append_nil]; rfl⟩
  | cons first others ih =>
      obtain ⟨hmark, hothers⟩ : mark ≠ first ∧ mark ∉ others := by simpa using hmark
      obtain ⟨hescape, hplain⟩ : '\\' ≠ first ∧ '\\' ∉ others := by simpa using hescape
      obtain ⟨next, now, later, hstep, hlater, rfl⟩ := scanFrom?_cons h
      simp only [step?, stepText?] at hstep
      rw [if_neg (by simpa using Ne.symm hmark), if_neg (by simpa using Ne.symm hescape)] at hstep
      split at hstep
      · cases hstep
      · obtain ⟨rfl, rfl⟩ := Prod.mk.inj (Option.some.inj hstep)
        obtain ⟨last, hlast, rfl⟩ := ih hothers hplain hlater
        exact ⟨last, hlast, by simp⟩

theorem begin?_of_startsKey (h : Arguments.Pair.startsKey character = true) :
    begin? character = some (.inWord [character] true, []) := by
  have hcode : character.toNat ∈ List.range' 65 26 ++ List.range' 97 26 ++ [95, 36] := by
    simp only [Arguments.Pair.startsKey, Bool.or_eq_true, Bool.and_eq_true, decide_eq_true_eq,
      beq_iff_eq] at h
    simp only [List.mem_append, List.mem_range'_1, List.mem_cons, List.not_mem_nil, or_false]
    rcases h with ((h | h) | rfl) | rfl
    · omega
    · omega
    · decide
    · decide
  have hbegin := of_mem_codes (fun character => (begin? character).any fun begun =>
    begun.1 == .inWord [character] true && begun.2.isEmpty) (by decide +kernel) hcode
  obtain ⟨⟨next, now⟩, hsome, hnext⟩ := (Option.any_eq_true ..).mp hbegin
  simp only [Bool.and_eq_true, beq_iff_eq, List.isEmpty_iff] at hnext
  rw [hsome, hnext.1, hnext.2]

theorem continuesWord_of_begin? (h : Arguments.Pair.continuesKey character = true)
    (hbegin : begin? character = some (next, now)) : continuesWord character = true := by
  have hne : ∀ {mark : Char}, Arguments.Pair.continuesKey mark = false → character ≠ mark := by
    rintro mark hmark rfl
    rw [h] at hmark
    cases hmark
  have hnumber : startsNumber character = true → continuesWord character = true := by
    intro hstarts
    simp only [startsNumber, Number.isDigit, Bool.or_eq_true, Bool.and_eq_true, decide_eq_true_eq,
      beq_iff_eq] at hstarts
    rcases hstarts with ((hdigit | hpoint) | hplus) | hminus
    · have hcode : character.toNat ∈ List.range' 48 10 := by
        simp only [List.mem_range'_1]
        omega
      exact of_mem_codes continuesWord (by decide +kernel) hcode
    · exact absurd hpoint (hne (by decide +kernel))
    · exact absurd hplus (hne (by decide +kernel))
    · exact absurd hminus (hne (by decide +kernel))
  have hword : startsWord character = true → continuesWord character = true := fun hstarts => by
    simp [continuesWord, hstarts]
  cases begins_of_begin? hbegin with
  | blank hblank =>
      have hcode : character.toNat ∈ 0xfeff :: blankCodes := by
        simp only [isBlank, Bool.or_eq_true, Bool.and_eq_true, decide_eq_true_eq, beq_iff_eq] at hblank
        simp only [blankCodes, List.mem_append, List.mem_range'_1, List.mem_cons, List.not_mem_nil,
          or_false]
        omega
      have hnumeral := of_mem_codes
        (fun character => !Text.Classes.within Text.Classes.numeralRanges character.toNat)
        (by decide +kernel) hcode
      simp only [Bool.not_eq_true'] at hnumeral
      simp only [Arguments.Pair.continuesKey, Text.Classes.isWord, hnumeral, Bool.or_false,
        Bool.or_eq_true] at h
      rcases h with ((h | h) | h) | h <;> simp [continuesWord, startsWord, h]
  | token hspells =>
      generalize hspelling : [character] = spelling at hspells
      cases hspells with
      | text hmark hquotes => simp at hspelling
      | number hfirst hread => exact hnumber (List.head_eq_of_cons_eq hspelling ▸ hfirst)
      | word hfirst hfollows =>
          rw [← List.head_eq_of_cons_eq hspelling] at hfirst
          exact hfirst.elim hword fun hescape => absurd hescape (hne (by decide +kernel))
      | _ => exact absurd (List.head_eq_of_cons_eq hspelling) (hne (by decide +kernel))
  | comment hslash => exact absurd hslash (hne (by decide +kernel))
  | text hmark => rcases hmark with hmark | hmark <;> exact absurd hmark (hne (by decide +kernel))
  | escape hescape => exact absurd hescape (hne (by decide +kernel))
  | number hstarts => exact hnumber hstarts
  | word hstarts => exact hword hstarts

theorem step?_of_continuesKey (h : Arguments.Pair.continuesKey character = true)
    (hstep : step? (.inWord read true) character = some (next, now)) :
    next = .inWord (character :: read) true ∧ now = [] := by
  rw [step?] at hstep
  by_cases hword : continuesWord character = true
  · rw [if_pos hword] at hstep
    obtain ⟨rfl, rfl⟩ := Prod.mk.inj (Option.some.inj hstep)
    exact ⟨rfl, rfl⟩
  rw [if_neg hword] at hstep
  split at hstep
  · rename_i hescape
    rw [beq_iff_eq.mp hescape] at h
    exact absurd h (by decide +kernel)
  · obtain ⟨⟨begun, more⟩, hbegin, -⟩ := Option.map_eq_some_iff.mp hstep
    exact absurd (continuesWord_of_begin? h hbegin) hword

theorem key_of_scanFrom? {key : List Char} (hkey : ∀ character ∈ key,
      Arguments.Pair.continuesKey character = true) (hseparates : separates character = true)
    (h : scanFrom? (.inWord read true) (key ++ character :: rest) = some tokens) :
    ∃ later, scanFrom? .between (character :: rest) = some later ∧
      tokens = .word (String.ofList (read.reverse ++ key)) true :: later := by
  induction key generalizing read tokens with
  | nil =>
      obtain ⟨now, later, hnow, hlater, rfl⟩ := finish_of_separates rfl hseparates h
      obtain rfl : [finishWord read true] = now := Option.some.inj hnow
      exact ⟨later, hlater, by simp [finishWord]⟩
  | cons first others ih =>
      obtain ⟨hfirst, hothers⟩ := List.forall_mem_cons.mp hkey
      obtain ⟨next, now, later, hstep, hlater, rfl⟩ := scanFrom?_cons h
      obtain ⟨rfl, rfl⟩ := step?_of_continuesKey hfirst hstep
      obtain ⟨last, hlast, rfl⟩ := ih hothers hlater
      exact ⟨last, hlast, by simp⟩

end

end Cascade.Literal.Token
