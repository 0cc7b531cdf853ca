import Cascade.Proofs.Reading.Agreement
import Cascade.Proofs.Reading.Members
import Mathlib.Data.List.TakeWhile

/-!
Slashes in argument lists. A slash that is not quoted is part of no token: between two tokens it begins
a comment, and a comment goes to a star and a slash or to the end of its line. So a text with a slash
and nothing that quotes, closes a comment or closes an object is never read as named values, whatever
colons and keys it has; it is cut at its commas (`Arguments.read_of_slash`).
-/

namespace Cascade

namespace Literal

/-! ### Numbers -/

namespace Number

section

variable {text : List Char}

theorem slash_mem_digitsOf (h : '/' ∈ text) : '/' ∈ (digitsOf text).2 := by
  rw [← List.takeWhile_append_dropWhile (p := isDigit) (l := text), List.mem_append] at h
  refine h.resolve_left fun hmem => ?_
  exact absurd (List.mem_takeWhile_imp hmem) (by decide)

theorem hexadecimal?_of_slash (h : '/' ∈ text) : hexadecimal? text = none := by
  have hnone : ∀ text : List Char, text.foldl (fun value character => do
      return 16 * (← value) + (← hexValue? character)) none = none := by
    intro text
    induction text with
    | nil => rfl
    | cons character rest ih => exact ih
  have hstops : ∀ (value : Option Nat) (text : List Char), '/' ∈ text →
      text.foldl (fun value character => do
        return 16 * (← value) + (← hexValue? character)) value = none := by
    intro value text
    induction text generalizing value with
    | nil => exact fun h => by cases h
    | cons character rest ih =>
        intro h
        rcases List.mem_cons.mp h with rfl | h
        · cases value <;> exact hnone rest
        · exact ih _ h
  exact hstops (some 0) text h

theorem exponent?_of_slash (h : '/' ∈ text) : exponent? text = none := by
  cases text with
  | nil => rfl
  | cons mark rest =>
      rw [exponent?.eq_def]
      dsimp only
      split
      · rename_i hmark
        have hrest : '/' ∈ rest := by
          refine (List.mem_cons.mp h).resolve_left ?_
          rintro rfl
          exact absurd hmark (by decide)
        split
        · -- The digits would go to the end of the text, and the slash stands after them.
          rename_i heq
          have hnil := congrArg Prod.snd heq
          refine absurd (hnil ▸ slash_mem_digitsOf ?_) List.not_mem_nil
          split
          · exact (List.mem_cons.mp hrest).resolve_left (by decide)
          · exact (List.mem_cons.mp hrest).resolve_left (by decide)
          · exact hrest
        · rfl
      · rfl

theorem decimal?_of_slash (negative : Bool) (h : '/' ∈ text) : decimal? negative text = none := by
  have hafter := slash_mem_digitsOf h
  rw [decimal?.eq_def]
  dsimp only
  split
  · rfl
  split
  · rename_i heq
    rw [heq] at hafter
    cases hafter
  · rename_i rest heq
    rw [heq] at hafter
    have hfraction := slash_mem_digitsOf ((List.mem_cons.mp hafter).resolve_left (by decide))
    split
    · rfl
    · rw [if_neg, exponent?_of_slash hfraction]
      · rfl
      · rw [List.isEmpty_iff]
        exact List.ne_nil_of_mem hfraction
  · split
    · rfl
    · rw [exponent?_of_slash hafter]
      rfl

theorem unsigned?_of_slash (negative : Bool) (h : '/' ∈ text) : unsigned? negative text = none := by
  rw [unsigned?.eq_def]
  split
  · rename_i mark rest
    have hmark : '/' ∈ mark :: rest := (List.mem_cons.mp h).resolve_left (by decide)
    split
    · rename_i hhexadecimal
      have hrest : '/' ∈ rest := by
        refine (List.mem_cons.mp hmark).resolve_left ?_
        rintro rfl
        exact absurd hhexadecimal (by decide)
      split
      · rfl
      · rw [hexadecimal?_of_slash hrest]
        rfl
    · exact decimal?_of_slash negative h
  · split
    · rename_i heq
      exact absurd (heq ▸ h) (by decide)
    split
    · rename_i heq
      exact absurd (heq ▸ h) (by decide)
    · exact decimal?_of_slash negative h

theorem read?_of_slash (h : '/' ∈ text) : read? text = none := by
  rw [read?.eq_def]
  split
  · exact unsigned?_of_slash true ((List.mem_cons.mp h).resolve_left (by decide))
  · exact unsigned?_of_slash false ((List.mem_cons.mp h).resolve_left (by decide))
  · exact unsigned?_of_slash false h

end

end Number

/-! ### Tokens -/

/-- A character that neither quotes a text nor closes a comment. -/
def isMild (character : Char) : Bool :=
  character != '\'' && character != '"' && character != '*' && !Token.endsLine character

section

variable {text spelling gap characters : List Char} {token : Token} {tokens : List Token}

theorem IsGap.slash_not_mem (h : IsGap gap) (hmild : ∀ character ∈ gap, isMild character = true) :
    '/' ∉ gap := by
  induction h with
  | none => exact List.not_mem_nil
  | @blank character rest hblank hrest ih =>
      rw [List.forall_mem_cons] at hmild
      intro hmem
      rcases List.mem_cons.mp hmem with rfl | hmem
      · exact absurd hblank (by decide)
      · exact ih hmild.2 hmem
  | @lineComment comment rest ending hcomment hending hrest ih =>
      have hmem : ending ∈ '/' :: '/' :: (comment ++ ending :: rest) := by simp
      have hends := hmild ending hmem
      simp [isMild, hending] at hends
  | @blockComment comment rest hcomment hrest ih =>
      have hmem : '*' ∈ '/' :: '*' :: (comment ++ '*' :: '/' :: rest) := by simp
      exact absurd (hmild '*' hmem) (by decide)

theorem IsNumericEscape.slash_not_mem {letter character : Char} {count : Nat}
    (hletter : letter ≠ '/') (h : IsNumericEscape letter count spelling character) :
    '/' ∉ spelling := by
  obtain ⟨hlength, hcode⟩ := h
  intro hmem
  simp only [List.mem_cons] at hmem
  rcases hmem with hmem | hmem | hmem
  · cases hmem
  · exact hletter hmem.symm
  · cases (Number.hexadecimal?_of_slash hmem).symm.trans hcode

theorem Follows.slash_not_mem {plain : Bool} (h : Follows spelling characters plain) :
    '/' ∉ spelling := by
  induction h with
  | none => exact List.not_mem_nil
  | plain hcharacter hrest ih =>
      intro hmem
      rcases List.mem_cons.mp hmem with rfl | hmem
      · exact absurd hcharacter (by decide +kernel)
      · exact ih hmem
  | escape hescape hrest ih =>
      intro hmem
      exact (List.mem_append.mp hmem).elim (hescape.slash_not_mem (by decide)) ih

theorem Spells.slash_not_mem (h : Spells spelling token)
    (hmild : ∀ character ∈ spelling, isMild character = true) : '/' ∉ spelling := by
  cases h with
  | text hmark hquotes =>
      have hquote := hmild _ List.mem_cons_self
      rcases hmark with rfl | rfl <;> exact absurd hquote (by decide)
  | number hfirst hread => exact fun hmem => by cases (Number.read?_of_slash hmem).symm.trans hread
  | word hfirst hfollows => exact hfollows.slash_not_mem
  | _ => decide

theorem Lexes.slash_not_mem (h : Lexes text tokens)
    (hmild : ∀ character ∈ text, isMild character = true) : '/' ∉ text := by
  induction h with
  | none => exact List.not_mem_nil
  | token hgap hspells hrest ih =>
      simp only [List.forall_mem_append] at hmild
      obtain ⟨⟨hmildGap, hmildSpelling⟩, hmildRest⟩ := hmild
      intro hmem
      rcases List.mem_append.mp hmem with hmem | hmem
      · exact (List.mem_append.mp hmem).elim (hgap.slash_not_mem hmildGap)
          (hspells.slash_not_mem hmildSpelling)
      · exact ih hmildRest hmem

/-- The members of an object are not read from a text with a slash that nothing quotes or closes. -/
theorem readMembers?_of_slash (hslash : '/' ∈ text)
    (hmild : ∀ character ∈ text, isMild character = true) (hbrace : '\x7d' ∉ text) :
    readMembers? text = none := by
  rw [Option.eq_none_iff_forall_ne_some]
  intro entries hread
  obtain ⟨used, -, front, tail, htext, hfront, htail⟩ := exists_tokens_of_readMembers? hread
  have hmildAll : ∀ character ∈ text ++ ['\x7d'], isMild character = true := by
    rw [List.forall_mem_append, List.forall_mem_singleton]
    exact ⟨hmild, by decide⟩
  have hslashAll : '/' ∈ text ++ ['\x7d'] := List.mem_append_left _ hslash
  rw [htext, List.forall_mem_append] at hmildAll
  rw [htext, List.mem_append] at hslashAll
  -- The brace that closes the object is the one put after the text, so no comment follows it.
  have hbraceFront : '\x7d' ∈ front := by
    obtain ⟨first, last, rfl, -, hlast⟩ := hfront.split
    obtain ⟨gap, spelling, rfl, -, hspells⟩ := hlast.singleton
    cases hspells
    simp
  have htail : tail = [] := by
    rcases List.eq_nil_or_concat tail with rfl | ⟨more, ending, rfl⟩
    · rfl
    · rw [List.concat_eq_append, ← List.append_assoc] at htext
      obtain ⟨rfl, -⟩ := List.append_inj' htext rfl
      exact absurd (List.mem_append_left _ hbraceFront) hbrace
  rw [htail] at hslashAll
  exact hslashAll.elim (hfront.slash_not_mem hmildAll.1) List.not_mem_nil

end

end Literal

namespace Arguments

open Text

variable {text : List Char}

namespace Pair

theorem readQuoted?_eq_none (h : ∀ character ∈ text, Literal.isMild character = true) :
    readQuoted? text = none :=
  readQuoted?_of_isUnquoted
    ⟨fun hmem => absurd (h _ hmem) (by decide), fun hmem => absurd (h _ hmem) (by decide)⟩

theorem slash_mem_trimLeft (h : '/' ∈ text) : '/' ∈ Blank.trimLeft text := by
  rw [← List.takeWhile_append_dropWhile (p := Blank.isBlank) (l := text), List.mem_append] at h
  refine h.resolve_left fun hmem => ?_
  exact absurd (List.mem_takeWhile_imp hmem) (by decide)

theorem mild_trimLeft (h : ∀ character ∈ text, Literal.isMild character = true) :
    ∀ character ∈ Blank.trimLeft text, Literal.isMild character = true :=
  fun character hmem => h character ((List.dropWhile_suffix _).subset hmem)

theorem readValue?_of_slash (hslash : '/' ∈ text)
    (hmild : ∀ character ∈ text, Literal.isMild character = true) : readValue? text = none := by
  have hends : text.any endsBare = true := List.any_eq_true.mpr ⟨'/', hslash, by decide⟩
  simp only [readValue?, readQuoted?_eq_none (mild_trimLeft hmild), hends, Bool.or_true, if_true]

theorem read?_of_slash (hslash : '/' ∈ text)
    (hmild : ∀ character ∈ text, Literal.isMild character = true) : read? text = none := by
  have hbody := slash_mem_trimLeft hslash
  have hmildBody := mild_trimLeft hmild
  rw [read?]
  generalize Blank.trimLeft text = body at hbody hmildBody ⊢
  cases body with
  | nil => rfl
  | cons first rest =>
      rw [readKey?]
      by_cases hstarts : startsKey first = true
      · have hrest : '/' ∈ rest := by
          refine (List.mem_cons.mp hbody).resolve_left ?_
          rintro rfl
          exact absurd hstarts (by decide)
        have hafter : '/' ∈ Blank.trimLeft (rest.dropWhile continuesKey) := by
          refine slash_mem_trimLeft ?_
          rw [← List.takeWhile_append_dropWhile (p := continuesKey) (l := rest),
            List.mem_append] at hrest
          refine hrest.resolve_left fun hmem => ?_
          exact absurd (List.mem_takeWhile_imp hmem) (by decide +kernel)
        have hmildAfter : ∀ character ∈ Blank.trimLeft (rest.dropWhile continuesKey),
            Literal.isMild character = true := by
          refine mild_trimLeft fun character hmem => hmildBody character ?_
          exact List.mem_cons_of_mem _ ((List.dropWhile_suffix _).subset hmem)
        simp only [if_pos hstarts, Option.bind_eq_bind, Option.bind_some]
        split
        · rename_i value hcolon
          rw [hcolon, List.mem_cons] at hafter
          rw [hcolon, List.forall_mem_cons] at hmildAfter
          rw [readValue?_of_slash (hafter.resolve_left (by decide)) hmildAfter.2]
          rfl
        · rfl
      · rw [if_neg hstarts, readQuoted?_eq_none hmildBody]
        rfl

theorem mapM_eq_none {α β : Type} {give : α → Option β} {items : List α} {item : α}
    (hmem : item ∈ items) (h : give item = none) : items.mapM give = none := by
  induction items with
  | nil => cases hmem
  | cons first rest ih =>
      rw [List.mapM_cons]
      rcases List.mem_cons.mp hmem with rfl | hmem
      · rw [h]
        rfl
      · rw [ih hmem]
        cases give first <;> rfl

theorem readAll?_of_slash (hslash : '/' ∈ text)
    (hmild : ∀ character ∈ text, Literal.isMild character = true) : readAll? text = none := by
  obtain ⟨piece, hpiece, hmem⟩ : ∃ piece ∈ Pieces.split ',' text, '/' ∈ piece := by
    by_contra hnone
    simp only [not_exists, not_and] at hnone
    have hjoin := Pieces.not_mem_join (show '/' ∉ [','] by decide) hnone
    rw [Pieces.join_split] at hjoin
    exact hjoin hslash
  have hmildPiece : ∀ character ∈ piece, Literal.isMild character = true :=
    fun character h => hmild character ((Pieces.not_mem_of_mem_split hpiece).2 h)
  rw [readAll?, mapM_eq_none hpiece (read?_of_slash hmem hmildPiece)]
  rfl

end Pair

theorem slash_mem_trim (h : '/' ∈ text) : '/' ∈ Blank.trim text := by
  by_contra hnot
  exact (Blank.pads_trim text).not_mem (by decide) hnot h

/-- A text with a slash is cut at its commas, if it has no quotation mark, no star, no closing brace
and is a single line: each piece is trimmed and none is lost. -/
theorem read_of_slash (hslash : '/' ∈ text) (hsingle : '\'' ∉ text) (hdouble : '"' ∉ text)
    (hstar : '*' ∉ text) (hbrace : '\x7d' ∉ text)
    (hline : ∀ character ∈ text, Literal.Token.endsLine character = false) :
    ∃ cuts, (∀ cut ∈ cuts, ',' ∉ cut) ∧ Pieces.join [','] cuts = Blank.trim text ∧
      read text = .positional (cuts.map fun cut => String.ofList (Blank.trim cut)) := by
  have hbody := slash_mem_trim hslash
  have hmild : ∀ character ∈ Blank.trim text, Literal.isMild character = true := by
    intro character hmem
    have hmem := Blank.mem_of_mem_trim hmem
    have hends := hline character hmem
    have hne : ∀ {mark : Char}, mark ∉ text → character ≠ mark := by
      rintro mark hmark rfl
      exact hmark hmem
    simp [Literal.isMild, hends, hne hsingle, hne hdouble, hne hstar]
  have hnamed : readNamed? (Blank.trim text) = none := by
    rw [readNamed?, Pair.readAll?_of_slash hbody hmild, Option.or_none]
    exact Literal.readMembers?_of_slash hbody hmild fun hmem => hbrace (Blank.mem_of_mem_trim hmem)
  refine ⟨Pieces.split ',' (Blank.trim text), fun cut hcut => (Pieces.not_mem_of_mem_split hcut).1,
    Pieces.join_split .., ?_⟩
  have hnotEmpty : (Blank.trim text).isEmpty = false := by
    rw [List.isEmpty_eq_false_iff]
    exact List.ne_nil_of_mem hbody
  simp only [read, hnotEmpty, hnamed, ite_self, pieces, Bool.false_eq_true, if_false]

/-- An address with a port and a path, and a text that looks like a named value. -/
def addresses : List Char :=
  " http://host:8080/, \x7b a: b/c,".toList

theorem read_of_slash_addresses :
    ('/' ∈ addresses ∧ '\'' ∉ addresses ∧ '"' ∉ addresses ∧ '*' ∉ addresses ∧
      '\x7d' ∉ addresses ∧
      ∀ character ∈ addresses, Literal.Token.endsLine character = false) ∧
    ∃ cuts, (∀ cut ∈ cuts, ',' ∉ cut) ∧ Pieces.join [','] cuts = Blank.trim addresses ∧
      read addresses = .positional (cuts.map fun cut => String.ofList (Blank.trim cut)) := by
  have hall : addresses.all (fun character => !Literal.Token.endsLine character) = true := by
    decide +kernel
  have hline : ∀ character ∈ addresses, Literal.Token.endsLine character = false :=
    fun character hmem => Bool.not_eq_true' _ |>.mp (List.all_eq_true.mp hall character hmem)
  have hslash : '/' ∈ addresses := by decide +kernel
  have hsingle : '\'' ∉ addresses := by decide +kernel
  have hdouble : '"' ∉ addresses := by decide +kernel
  have hstar : '*' ∉ addresses := by decide +kernel
  have hbrace : '\x7d' ∉ addresses := by decide +kernel
  exact ⟨⟨hslash, hsingle, hdouble, hstar, hbrace, hline⟩,
    read_of_slash hslash hsingle hdouble hstar hbrace hline⟩

end Arguments

end Cascade
