import Cascade.Proofs.Reading.Grammar

/-!
What the scanner accepts, stated against the grammar. Each mode of an unfinished token has one lemma:
what follows is the rest of the token, and the scanner goes on between tokens. Main statement: a text
with tokens spells them one after the other, with gaps between them, and may end in a line comment
that nothing closes (`Token.lexes_of_scan?`).
-/

namespace Cascade.Literal.Token

/-- What may follow the last token of a text: a gap, and then a line comment up to the end. -/
def IsTail (text : List Char) : Prop :=
  IsGap text ∨ ∃ gap comment, text = gap ++ '/' :: '/' :: comment ∧ IsGap gap ∧
    ∀ character ∈ comment, endsLine character = false

/-- A text of tokens and what may follow the last of them. -/
def IsWritten (text : List Char) (tokens : List Token) : Prop :=
  ∃ front tail, text = front ++ tail ∧ Lexes front tokens ∧ IsTail tail

section

variable {mode : Mode} {character : Char} {gap read rest spelling text : List Char} {token : Token}
  {tokens : List Token}

theorem IsTail.after_gap (hgap : IsGap gap) (h : IsTail text) : IsTail (gap ++ text) := by
  rcases h with h | ⟨between, comment, rfl, hbetween, hcomment⟩
  · exact .inl (hgap.append h)
  · exact .inr ⟨gap ++ between, comment, by simp, hgap.append hbetween, hcomment⟩

theorem IsWritten.after_gap (hgap : IsGap gap) (h : IsWritten text tokens) :
    IsWritten (gap ++ text) tokens := by
  obtain ⟨front, tail, rfl, hfront, htail⟩ := h
  cases hfront with
  | none => exact ⟨[], gap ++ tail, rfl, .none, htail.after_gap hgap⟩
  | @token between spelling rest token tokens hbetween hspells hrest =>
      have h := Lexes.token (hgap.append hbetween) hspells hrest
      exact ⟨_, tail, by simp only [List.append_assoc], h, htail⟩

theorem IsWritten.after_spelling (hspells : Spells spelling token) (h : IsWritten rest tokens) :
    IsWritten (spelling ++ rest) (token :: tokens) := by
  obtain ⟨front, tail, rfl, hfront, htail⟩ := h
  exact ⟨spelling ++ front, tail, (List.append_assoc ..).symm, .token .none hspells hfront, htail⟩

theorem scanFrom?_cons (h : scanFrom? mode (character :: rest) = some tokens) :
    ∃ next now later, step? mode character = some (next, now) ∧
      scanFrom? next rest = some later ∧ tokens = now ++ later := by
  rw [scanFrom?] at h
  obtain ⟨⟨next, now⟩, hstep, h⟩ := Option.bind_eq_some_iff.mp h
  obtain ⟨later, hlater, h⟩ := Option.bind_eq_some_iff.mp h
  exact ⟨next, now, later, hstep, hlater, (Option.some.inj h).symm⟩

theorem scanFrom?_eq_some {next : Mode} {now later : List Token}
    (hstep : step? mode character = some (next, now)) (hlater : scanFrom? next rest = some later) :
    scanFrom? mode (character :: rest) = some (now ++ later) := by
  rw [scanFrom?, hstep]
  simp [hlater]

/-! ### Comments -/

theorem lineComment_of_scanFrom? (h : scanFrom? .lineComment text = some tokens) :
    (∃ comment ending rest, text = comment ++ ending :: rest ∧
      (∀ character ∈ comment, endsLine character = false) ∧ endsLine ending = true ∧
      scanFrom? .between rest = some tokens) ∨
    ((∀ character ∈ text, endsLine character = false) ∧ tokens = []) := by
  induction text with
  | nil => exact .inr ⟨List.forall_mem_nil _, (Option.some.inj h).symm⟩
  | cons character rest ih =>
      obtain ⟨next, now, later, hstep, hlater, rfl⟩ := scanFrom?_cons h
      by_cases hends : endsLine character = true
      · simp only [step?, if_pos hends, Option.some.injEq, Prod.mk.injEq] at hstep
        obtain ⟨rfl, rfl⟩ := hstep
        exact .inl ⟨[], character, rest, rfl, List.forall_mem_nil _, hends, hlater⟩
      · simp only [step?, if_neg hends, Option.some.injEq, Prod.mk.injEq] at hstep
        obtain ⟨rfl, rfl⟩ := hstep
        have hordinary : endsLine character = false := by simpa using hends
        rcases ih hlater with ⟨comment, ending, after, rfl, hcomment, hending, hafter⟩ | ⟨hrest, rfl⟩
        · exact .inl ⟨character :: comment, ending, after, rfl,
            List.forall_mem_cons.mpr ⟨hordinary, hcomment⟩, hending, hafter⟩
        · exact .inr ⟨List.forall_mem_cons.mpr ⟨hordinary, hrest⟩, rfl⟩

theorem not_close_infix_cons {first : Char} {comment : List Char} (h : ¬ ['*', '/'] <:+: comment)
    (hfirst : first = '*' → comment.head? ≠ some '/') : ¬ ['*', '/'] <:+: first :: comment := by
  rw [List.infix_cons_iff]
  rintro (hstart | hinside)
  · obtain ⟨after, hafter⟩ := hstart
    obtain ⟨hstar, hcomment⟩ := List.cons.inj hafter
    exact hfirst hstar.symm (by rw [← hcomment]; rfl)
  · exact h hinside

/-- A block comment goes to the first closing of one; a star just before may be a part of it. -/
theorem blockComment_of_scanFrom? {afterStar : Bool}
    (h : scanFrom? (.blockComment afterStar) text = some tokens) :
    ∃ comment rest, (if afterStar then '*' :: text else text) = comment ++ '*' :: '/' :: rest ∧
      ¬ ['*', '/'] <:+: comment ∧ scanFrom? .between rest = some tokens := by
  induction text generalizing afterStar with
  | nil => cases afterStar <;> cases h
  | cons character rest ih =>
      obtain ⟨next, now, later, hstep, hlater, rfl⟩ := scanFrom?_cons h
      rw [step?] at hstep
      split at hstep
      · rename_i hclosed
        obtain ⟨rfl, hslash⟩ : afterStar = true ∧ character = '/' := by simpa using hclosed
        obtain ⟨rfl, rfl⟩ := Prod.mk.inj (Option.some.inj hstep)
        exact ⟨[], rest, by rw [hslash]; rfl, by simp, hlater⟩
      · rename_i hopen
        obtain ⟨rfl, rfl⟩ := Prod.mk.inj (Option.some.inj hstep)
        obtain ⟨comment, after, hrest, hcomment, hafter⟩ := ih hlater
        -- The character itself belongs to the comment, as a star that may be the first of the closing.
        have hwhole : ∃ whole, character :: rest = whole ++ '*' :: '/' :: after ∧
            ¬ ['*', '/'] <:+: whole := by
          by_cases hstar : character = '*'
          · subst hstar
            exact ⟨comment, hrest, hcomment⟩
          · rw [if_neg (by simpa using hstar)] at hrest
            exact ⟨character :: comment, by rw [hrest]; rfl,
              not_close_infix_cons hcomment fun h => absurd h hstar⟩
        obtain ⟨whole, htext, hopened⟩ := hwhole
        cases afterStar with
        | false => exact ⟨whole, after, htext, hopened, hafter⟩
        | true =>
            refine ⟨'*' :: whole, after, by rw [if_pos rfl, htext]; rfl, ?_, hafter⟩
            refine not_close_infix_cons hopened fun _ hslash => hopen ?_
            cases whole with
            | nil => cases hslash
            | cons first others =>
                obtain rfl : first = '/' := by simpa using hslash
                simpa using (List.cons.inj htext).1

/-! ### Escapes -/

/-- The number that hexadecimal digits add to a value. -/
def addDigits? (value : Nat) (digits : List Char) : Option Nat :=
  digits.foldl (fun value character => do return 16 * (← value) + (← Number.hexValue? character))
    (some value)

theorem addDigits?_cons {value digit : Nat} (hdigit : Number.hexValue? character = some digit)
    (digits : List Char) :
    addDigits? value (character :: digits) = addDigits? (16 * value + digit) digits := by
  rw [addDigits?, List.foldl_cons, addDigits?, hdigit]
  rfl

theorem digits_of_scanFrom? (escape : Nat → Nat → Mode) (after : Nat → Mode)
    (hstep : ∀ remaining value character, step? (escape remaining value) character =
      (Number.hexValue? character).map fun digit =>
        if remaining ≤ 1 then (after (16 * value + digit), [])
        else (escape (remaining - 1) (16 * value + digit), []))
    (hfinish : ∀ remaining value, finish? (escape remaining value) = none) {remaining value : Nat}
    (h : scanFrom? (escape (remaining + 1) value) text = some tokens) :
    ∃ digits code rest, text = digits ++ rest ∧ digits.length = remaining + 1 ∧
      addDigits? value digits = some code ∧ scanFrom? (after code) rest = some tokens := by
  induction text generalizing remaining value with
  | nil =>
      rw [scanFrom?, hfinish] at h
      cases h
  | cons character rest ih =>
      obtain ⟨next, now, later, hnow, hlater, rfl⟩ := scanFrom?_cons h
      rw [hstep] at hnow
      obtain ⟨digit, hdigit, hnext⟩ := Option.map_eq_some_iff.mp hnow
      cases remaining with
      | zero =>
          obtain ⟨rfl, rfl⟩ := Prod.mk.inj hnext
          exact ⟨[character], _, rest, rfl, rfl, addDigits?_cons hdigit [], hlater⟩
      | succ remaining =>
          obtain ⟨rfl, rfl⟩ := Prod.mk.inj hnext
          obtain ⟨digits, code, others, rfl, hlength, hcode, hothers⟩ := ih hlater
          exact ⟨character :: digits, code, others, rfl, by rw [List.length_cons, hlength],
            (addDigits?_cons hdigit digits).trans hcode, hothers⟩

theorem hexadecimal_of_scanFrom? {mark : Char} {count : Nat}
    (h : scanFrom? (.inText mark read (.hexadecimal (count + 1) 0)) text = some tokens) :
    ∃ digits code rest, text = digits ++ rest ∧ digits.length = count + 1 ∧
      Number.hexadecimal? digits = some code ∧
      scanFrom? (.inText mark (Char.ofNat code :: read) .ordinary) rest = some tokens :=
  digits_of_scanFrom? (fun remaining value => .inText mark read (.hexadecimal remaining value))
    (fun code => .inText mark (Char.ofNat code :: read) .ordinary) (fun _ _ _ => rfl)
    (fun _ _ => rfl) h

theorem wordDigits_of_scanFrom? {count : Nat}
    (h : scanFrom? (.wordDigits read (count + 1) 0) text = some tokens) :
    ∃ digits code rest, text = digits ++ rest ∧ digits.length = count + 1 ∧
      Number.hexadecimal? digits = some code ∧
      scanFrom? (.inWord (Char.ofNat code :: read) false) rest = some tokens :=
  digits_of_scanFrom? (.wordDigits read) (fun code => .inWord (Char.ofNat code :: read) false)
    (fun _ _ _ => rfl) (fun _ _ => rfl) h

theorem zero_of_scanFrom? {mark : Char}
    (h : scanFrom? (.inText mark read .zero) text = some tokens) :
    (∀ next ∈ text.head?, Number.isDigit next = false) ∧
      scanFrom? (.inText mark read .ordinary) text = some tokens := by
  cases text with
  | nil => cases h
  | cons character rest =>
      rw [scanFrom?, step?, stepText?] at h
      by_cases hdigit : Number.isDigit character = true
      · simp only [if_pos hdigit] at h
        cases h
      · simp only [if_neg hdigit] at h
        refine ⟨fun next hnext => ?_, h⟩
        obtain rfl : character = next := by simpa using hnext
        simpa using hdigit

theorem brokenLine_of_scanFrom? {mark : Char}
    (h : scanFrom? (.inText mark read .brokenLine) text = some tokens) :
    (∃ rest, text = '\n' :: rest ∧ scanFrom? (.inText mark read .ordinary) rest = some tokens) ∨
      scanFrom? (.inText mark read .ordinary) text = some tokens := by
  cases text with
  | nil => cases h
  | cons character rest =>
      by_cases hline : (character == '\n') = true
      · obtain ⟨next, now, later, hstep, hlater, rfl⟩ := scanFrom?_cons h
        simp only [step?, stepText?, if_pos hline] at hstep
        obtain ⟨rfl, rfl⟩ := Prod.mk.inj (Option.some.inj hstep)
        exact .inl ⟨rest, by rw [beq_iff_eq.mp hline], hlater⟩
      · rw [scanFrom?, step?, stepText?] at h
        simp only [if_neg hline] at h
        exact .inr h

theorem escape_of_scanFrom? {mark : Char}
    (h : scanFrom? (.inText mark read .escape) text = some tokens) :
    ∃ spelling characters rest, text = spelling ++ rest ∧
      scanFrom? (.inText mark (characters.reverse ++ read) .ordinary) rest = some tokens ∧
      ∀ more others, more <+: rest → Quotes mark more others →
        Quotes mark ('\\' :: (spelling ++ more)) (characters ++ others) := by
  cases text with
  | nil => cases h
  | cons letter after =>
      obtain ⟨next, now, later, hstep, hlater, rfl⟩ := scanFrom?_cons h
      simp only [step?, stepText?] at hstep
      have numeric : ∀ {letter count}, (letter, count + 1) = ('x', 2) ∨ (letter, count + 1) = ('u', 4) →
          scanFrom? (.inText mark read (.hexadecimal (count + 1) 0)) after = some later →
          ∃ spelling characters rest, letter :: after = spelling ++ rest ∧
            scanFrom? (.inText mark (characters.reverse ++ read) .ordinary) rest = some later ∧
            ∀ more others, more <+: rest → Quotes mark more others →
              Quotes mark ('\\' :: (spelling ++ more)) (characters ++ others) := by
        intro letter count hletter hscan
        obtain ⟨digits, code, rest, rfl, hlength, hcode, hrest⟩ := hexadecimal_of_scanFrom? hscan
        exact ⟨letter :: digits, [Char.ofNat code], rest, rfl, hrest,
          fun more others _ hmore => .numeric hletter (.intro hlength hcode) hmore⟩
      split at hstep
      · rename_i hletter
        obtain rfl : letter = 'x' := by simpa using hletter
        obtain ⟨rfl, rfl⟩ := Prod.mk.inj (Option.some.inj hstep)
        exact numeric (.inl rfl) hlater
      split at hstep
      · rename_i _ hletter
        obtain rfl : letter = 'u' := by simpa using hletter
        obtain ⟨rfl, rfl⟩ := Prod.mk.inj (Option.some.inj hstep)
        exact numeric (.inr rfl) hlater
      split at hstep
      · rename_i _ _ hletter
        obtain rfl : letter = '0' := by simpa using hletter
        obtain ⟨rfl, rfl⟩ := Prod.mk.inj (Option.some.inj hstep)
        obtain ⟨hdigit, hrest⟩ := zero_of_scanFrom? hlater
        refine ⟨['0'], ['\x00'], after, rfl, hrest, fun more others hstart hmore => ?_⟩
        refine .zero (fun next hnext => hdigit next ?_) hmore
        obtain ⟨beyond, rfl⟩ := hstart
        cases more with
        | nil => cases hnext
        | cons first more => exact hnext
      split at hstep
      · cases hstep
      split at hstep
      · rename_i _ _ _ _ hletter
        obtain rfl : letter = '\r' := by simpa using hletter
        obtain ⟨rfl, rfl⟩ := Prod.mk.inj (Option.some.inj hstep)
        rcases brokenLine_of_scanFrom? hlater with ⟨rest, rfl, hrest⟩ | hrest
        · exact ⟨['\r', '\n'], [], rest, rfl, hrest,
            fun more others _ hmore => .brokenLine .two hmore⟩
        · exact ⟨['\r'], [], after, rfl, hrest,
            fun more others _ hmore => .brokenLine (.one rfl) hmore⟩
      split at hstep
      · rename_i hends
        obtain ⟨rfl, rfl⟩ := Prod.mk.inj (Option.some.inj hstep)
        exact ⟨[letter], [], after, rfl, hlater,
          fun more others _ hmore => .brokenLine (.one hends) hmore⟩
      · rename_i hx hu _ hdigit _ hends
        obtain ⟨rfl, rfl⟩ := Prod.mk.inj (Option.some.inj hstep)
        have hletter : isEscapable letter = true := by
          simp only [beq_iff_eq, Bool.not_eq_true] at hx hu hdigit hends
          simp [isEscapable, hx, hu, hdigit, hends]
        exact ⟨[letter], [escaped letter], after, rfl, hlater,
          fun more others _ hmore => .letter hletter hmore⟩

theorem wordEscape_of_scanFrom? (h : scanFrom? (.wordEscape read) text = some tokens) :
    ∃ digits code rest, text = 'u' :: digits ++ rest ∧ digits.length = 4 ∧
      Number.hexadecimal? digits = some code ∧
      scanFrom? (.inWord (Char.ofNat code :: read) false) rest = some tokens := by
  cases text with
  | nil => cases h
  | cons letter after =>
      obtain ⟨next, now, later, hstep, hlater, rfl⟩ := scanFrom?_cons h
      rw [step?] at hstep
      split at hstep
      · rename_i hletter
        obtain rfl : letter = 'u' := by simpa using hletter
        obtain ⟨rfl, rfl⟩ := Prod.mk.inj (Option.some.inj hstep)
        obtain ⟨digits, code, rest, rfl, hlength, hcode, hrest⟩ := wordDigits_of_scanFrom? hlater
        exact ⟨digits, code, rest, rfl, hlength, hcode, hrest⟩
      · cases hstep

/-! ### Quoted texts, words and numbers -/

theorem text_of_scanFrom? {mark : Char}
    (h : scanFrom? (.inText mark read .ordinary) text = some tokens) :
    ∃ spelling characters rest later, text = spelling ++ mark :: rest ∧
      Quotes mark spelling characters ∧ scanFrom? .between rest = some later ∧
      tokens = .text (String.ofList (read.reverse ++ characters)) :: later := by
  induction hlength : text.length using Nat.strongRecOn generalizing text read tokens with
  | _ length ih =>
  subst hlength
  cases text with
  | nil => cases h
  | cons character rest =>
      obtain ⟨next, now, later, hstep, hlater, rfl⟩ := scanFrom?_cons h
      simp only [step?, stepText?] at hstep
      split at hstep
      · rename_i hmark
        obtain rfl : character = mark := by simpa using hmark
        obtain ⟨rfl, rfl⟩ := Prod.mk.inj (Option.some.inj hstep)
        exact ⟨[], [], rest, later, rfl, .none, hlater, by rw [List.append_nil]; rfl⟩
      split at hstep
      · rename_i hmark hescape
        obtain rfl : character = '\\' := by simpa using hescape
        obtain ⟨rfl, rfl⟩ := Prod.mk.inj (Option.some.inj hstep)
        obtain ⟨escape, characters, after, rfl, hafter, hescapes⟩ :=
          escape_of_scanFrom? hlater
        obtain ⟨spelling, others, beyond, tokens, rfl, hquotes, hbeyond, rfl⟩ :=
          ih _ (by grind) hafter rfl
        exact ⟨'\\' :: (escape ++ spelling), characters ++ others, beyond, tokens, by simp,
          hescapes spelling others (List.prefix_append ..) hquotes, hbeyond, by simp⟩
      split at hstep
      · cases hstep
      · rename_i hmark hescape hline
        obtain ⟨rfl, rfl⟩ := Prod.mk.inj (Option.some.inj hstep)
        obtain ⟨spelling, characters, after, others, rfl, hquotes, hafter, rfl⟩ :=
          ih _ (by simp) hlater rfl
        refine ⟨character :: spelling, character :: characters, after, others, rfl, ?_, hafter,
          by simp⟩
        exact .plain (by simpa using hmark) (by simpa using hescape) (by simpa using hline) hquotes

theorem word_of_scanFrom? {plain : Bool} (h : scanFrom? (.inWord read plain) text = some tokens) :
    ∃ spelling characters unescaped rest later, text = spelling ++ rest ∧
      Follows spelling characters unescaped ∧ scanFrom? .between rest = some later ∧
      tokens = .word (String.ofList (read.reverse ++ characters)) (plain && unescaped) :: later := by
  induction hlength : text.length using Nat.strongRecOn
    generalizing text read plain tokens with
  | _ length ih =>
  subst hlength
  cases text with
  | nil =>
      obtain rfl : [finishWord read plain] = tokens := Option.some.inj h
      exact ⟨[], [], true, [], [], rfl, .none, rfl, by simp [finishWord]⟩
  | cons character rest =>
      obtain ⟨next, now, later, hstep, hlater, rfl⟩ := scanFrom?_cons h
      simp only [step?] at hstep
      split at hstep
      · rename_i hcontinues
        obtain ⟨rfl, rfl⟩ := Prod.mk.inj (Option.some.inj hstep)
        obtain ⟨spelling, characters, unescaped, after, others, rfl, hfollows, hafter, rfl⟩ :=
          ih _ (by simp) hlater rfl
        exact ⟨character :: spelling, character :: characters, unescaped, after, others, rfl,
          .plain hcontinues hfollows, hafter, by simp⟩
      split at hstep
      · rename_i hescape
        obtain rfl : character = '\\' := by simpa using hescape
        obtain ⟨rfl, rfl⟩ := Prod.mk.inj (Option.some.inj hstep)
        obtain ⟨digits, code, after, rfl, hlength, hcode, hafter⟩ := wordEscape_of_scanFrom? hlater
        obtain ⟨spelling, characters, unescaped, beyond, others, rfl, hfollows, hbeyond, rfl⟩ :=
          ih _ (by grind) hafter rfl
        exact ⟨'\\' :: 'u' :: digits ++ spelling, Char.ofNat code :: characters, false, beyond, others,
          by simp, .escape (.intro hlength hcode) hfollows, hbeyond, by simp⟩
      · obtain ⟨⟨mode, begun⟩, hbegin, hnext⟩ := Option.map_eq_some_iff.mp hstep
        obtain ⟨rfl, rfl⟩ := Prod.mk.inj hnext
        exact ⟨[], [], true, character :: rest, begun ++ later, rfl, .none,
          scanFrom?_eq_some hbegin hlater, by simp [finishWord]⟩

theorem number_of_scanFrom? (h : scanFrom? (.inNumber read) text = some tokens) :
    ∃ spelling value rest later, text = spelling ++ rest ∧
      Number.read? (read.reverse ++ spelling) = some value ∧ scanFrom? .between rest = some later ∧
      tokens = .number value :: later := by
  induction text generalizing read tokens with
  | nil =>
      obtain ⟨token, htoken, rfl⟩ := Option.map_eq_some_iff.mp h
      obtain ⟨value, hvalue, rfl⟩ := Option.map_eq_some_iff.mp htoken
      exact ⟨[], value, [], [], rfl, by simpa using hvalue, rfl, rfl⟩
  | cons character rest ih =>
      obtain ⟨next, now, later, hstep, hlater, rfl⟩ := scanFrom?_cons h
      rw [step?] at hstep
      split at hstep
      · obtain ⟨rfl, rfl⟩ := Prod.mk.inj (Option.some.inj hstep)
        obtain ⟨spelling, value, after, others, rfl, hvalue, hothers, hlater⟩ := ih hlater
        exact ⟨character :: spelling, value, after, others, rfl, by simpa using hvalue, hothers, hlater⟩
      · obtain ⟨token, htoken, hstep⟩ := Option.bind_eq_some_iff.mp hstep
        obtain ⟨⟨mode, begun⟩, hbegin, hstep⟩ := Option.bind_eq_some_iff.mp hstep
        obtain ⟨rfl, rfl⟩ := Prod.mk.inj (Option.some.inj hstep)
        obtain ⟨value, hvalue, rfl⟩ := Option.map_eq_some_iff.mp htoken
        exact ⟨[], value, character :: rest, begun ++ later, rfl, by simpa using hvalue,
          scanFrom?_eq_some hbegin hlater, rfl⟩

/-! ### Whole texts -/

/-- What a character between tokens can be: a part of a gap, a token by itself, or the first character
of a comment or of a longer token. -/
inductive Begins (character : Char) : Mode → List Token → Prop
  | blank (hblank : isBlank character = true) : Begins character .between []
  | token {token : Token} (hspells : Spells [character] token) : Begins character .between [token]
  | comment (hslash : character = '/') : Begins character .slash []
  | text (hmark : character = '"' ∨ character = '\'') :
      Begins character (.inText character [] .ordinary) []
  | escape (hescape : character = '\\') : Begins character (.wordEscape []) []
  | number (hstarts : startsNumber character = true) : Begins character (.inNumber [character]) []
  | word (hstarts : startsWord character = true) : Begins character (.inWord [character] true) []

theorem begins_of_mark {mark : Char} {next : Mode} {now : List Token}
    (hspells : Spells [mark] token) (hmark : (character == mark) = true)
    (h : some (Mode.between, [token]) = some (next, now)) : Begins character next now := by
  obtain rfl : character = mark := beq_iff_eq.mp hmark
  obtain ⟨rfl, rfl⟩ := Prod.mk.inj (Option.some.inj h)
  exact .token hspells

theorem begins_of_begin? {next : Mode} {now : List Token}
    (h : begin? character = some (next, now)) : Begins character next now := by
  rw [begin?] at h
  by_cases hblank : isBlank character = true
  · rw [if_pos hblank] at h
    obtain ⟨rfl, rfl⟩ := Prod.mk.inj (Option.some.inj h)
    exact .blank hblank
  rw [if_neg hblank] at h
  by_cases hopenBrace : (character == '\x7b') = true
  · rw [if_pos hopenBrace] at h
    exact begins_of_mark .openBrace hopenBrace h
  rw [if_neg hopenBrace] at h
  by_cases hcloseBrace : (character == '\x7d') = true
  · rw [if_pos hcloseBrace] at h
    exact begins_of_mark .closeBrace hcloseBrace h
  rw [if_neg hcloseBrace] at h
  by_cases hopenBracket : (character == '[') = true
  · rw [if_pos hopenBracket] at h
    exact begins_of_mark .openBracket hopenBracket h
  rw [if_neg hopenBracket] at h
  by_cases hcloseBracket : (character == ']') = true
  · rw [if_pos hcloseBracket] at h
    exact begins_of_mark .closeBracket hcloseBracket h
  rw [if_neg hcloseBracket] at h
  by_cases hcolon : (character == ':') = true
  · rw [if_pos hcolon] at h
    exact begins_of_mark .colon hcolon h
  rw [if_neg hcolon] at h
  by_cases hcomma : (character == ',') = true
  · rw [if_pos hcomma] at h
    exact begins_of_mark .comma hcomma h
  rw [if_neg hcomma] at h
  by_cases hslash : (character == '/') = true
  · rw [if_pos hslash] at h
    obtain ⟨rfl, rfl⟩ := Prod.mk.inj (Option.some.inj h)
    exact .comment (beq_iff_eq.mp hslash)
  rw [if_neg hslash] at h
  by_cases hmark : (character == '"' || character == '\'') = true
  · rw [if_pos hmark] at h
    obtain ⟨rfl, rfl⟩ := Prod.mk.inj (Option.some.inj h)
    exact .text (by simpa using hmark)
  rw [if_neg hmark] at h
  by_cases hescape : (character == '\\') = true
  · rw [if_pos hescape] at h
    obtain ⟨rfl, rfl⟩ := Prod.mk.inj (Option.some.inj h)
    exact .escape (beq_iff_eq.mp hescape)
  rw [if_neg hescape] at h
  by_cases hnumber : startsNumber character = true
  · rw [if_pos hnumber] at h
    obtain ⟨rfl, rfl⟩ := Prod.mk.inj (Option.some.inj h)
    exact .number hnumber
  rw [if_neg hnumber] at h
  by_cases hword : startsWord character = true
  · rw [if_pos hword] at h
    obtain ⟨rfl, rfl⟩ := Prod.mk.inj (Option.some.inj h)
    exact .word hword
  rw [if_neg hword] at h
  cases h

theorem isWritten_of_slash
    (ih : ∀ {rest tokens}, rest.length < text.length + 1 → scanFrom? .between rest = some tokens →
      IsWritten rest tokens)
    (h : scanFrom? .slash text = some tokens) : IsWritten ('/' :: text) tokens := by
  cases text with
  | nil => cases h
  | cons character rest =>
      obtain ⟨next, now, later, hstep, hlater, rfl⟩ := scanFrom?_cons h
      rw [step?] at hstep
      split at hstep
      · rename_i hslash
        obtain rfl : character = '/' := beq_iff_eq.mp hslash
        obtain ⟨rfl, rfl⟩ := Prod.mk.inj (Option.some.inj hstep)
        rcases lineComment_of_scanFrom? hlater with
          ⟨comment, ending, after, rfl, hcomment, hending, hafter⟩ | ⟨hcomment, rfl⟩
        · have hgap := IsGap.lineComment hcomment hending .none
          have hrest := (ih (by grind) hafter).after_gap hgap
          simpa using hrest
        · exact ⟨[], '/' :: '/' :: rest, rfl, .none, .inr ⟨[], rest, rfl, .none, hcomment⟩⟩
      split at hstep
      · rename_i hstar
        obtain rfl : character = '*' := beq_iff_eq.mp hstar
        obtain ⟨rfl, rfl⟩ := Prod.mk.inj (Option.some.inj hstep)
        obtain ⟨comment, after, rfl, hcomment, hafter⟩ := blockComment_of_scanFrom? hlater
        have hgap := IsGap.blockComment hcomment .none
        have hrest := (ih (by grind) hafter).after_gap hgap
        simpa using hrest
      · cases hstep

/-- A text that is scanned between tokens is written with the tokens that come out. -/
theorem isWritten_of_scanFrom? (h : scanFrom? .between text = some tokens) :
    IsWritten text tokens := by
  induction hlength : text.length using Nat.strongRecOn generalizing text tokens with
  | _ length ih =>
  subst hlength
  cases text with
  | nil =>
      obtain rfl : [] = tokens := Option.some.inj h
      exact ⟨[], [], rfl, .none, .inl .none⟩
  | cons character rest =>
      obtain ⟨next, now, later, hstep, hlater, rfl⟩ := scanFrom?_cons h
      cases begins_of_begin? hstep with
      | blank hblank => exact (ih _ (by simp) hlater rfl).after_gap (.blank hblank .none)
      | token hspells => exact (ih _ (by simp) hlater rfl).after_spelling hspells
      | comment hslash =>
          subst hslash
          exact isWritten_of_slash (fun hshorter hscan => ih _ hshorter hscan rfl) hlater
      | text hmark =>
          obtain ⟨spelling, characters, after, others, rfl, hquotes, hafter, rfl⟩ :=
            text_of_scanFrom? hlater
          have hrest := (ih _ (by grind) hafter rfl).after_spelling (.text hmark hquotes)
          simpa using hrest
      | escape hescape =>
          subst hescape
          obtain ⟨digits, code, between, rfl, hcount, hcode, hbetween⟩ := wordEscape_of_scanFrom? hlater
          obtain ⟨spelling, characters, unescaped, after, others, rfl, hfollows, hafter, rfl⟩ :=
            word_of_scanFrom? hbetween
          have hword : Follows ('\\' :: 'u' :: digits ++ spelling) (Char.ofNat code :: characters)
              false := .escape (.intro hcount hcode) hfollows
          have hrest := (ih _ (by grind) hafter rfl).after_spelling (.word (.inr rfl) hword)
          simpa using hrest
      | number hstarts =>
          obtain ⟨spelling, value, after, others, rfl, hvalue, hafter, rfl⟩ :=
            number_of_scanFrom? hlater
          have hrest := (ih _ (by grind) hafter rfl).after_spelling (.number hstarts hvalue)
          simpa using hrest
      | word hstarts =>
          obtain ⟨spelling, characters, unescaped, after, others, rfl, hfollows, hafter, rfl⟩ :=
            word_of_scanFrom? hlater
          have hfirst : continuesWord character = true := by simp [continuesWord, hstarts]
          have hrest := (ih _ (by grind) hafter rfl).after_spelling
            (.word (.inl hstarts) (.plain hfirst hfollows))
          simpa using hrest

end

end Cascade.Literal.Token
