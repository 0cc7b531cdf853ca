import Cascade.Proofs.Reading.Agreement
import Mathlib.Logic.Relation

/-!
Spaces beside commas. Between tokens a space leaves nothing behind, and a piece between commas is trimmed,
so a text without quotation marks is read alike with or without spaces beside its commas
(`Arguments.read_of_respaced`). The exception is a key with a colon and nothing after it: a single space
there counts as a value, which is then empty (`Arguments.read_spacedColon_ne`).
-/

namespace Cascade

open Text
open Arguments.Pair (IsUnquoted)

/-- A space is put in before or after a comma. -/
inductive AddsSpace : List Char → List Char → Prop
  | before (front back : List Char) :
      AddsSpace (front ++ ',' :: back) (front ++ ' ' :: ',' :: back)
  | after (front back : List Char) :
      AddsSpace (front ++ ',' :: back) (front ++ ',' :: ' ' :: back)

/-- Texts that come from each other by putting in and taking out spaces beside commas. -/
def Respaced : List Char → List Char → Prop :=
  Relation.EqvGen AddsSpace

variable {text other : List Char}

namespace AddsSpace

theorem comma_mem (h : AddsSpace text other) : ',' ∈ text := by
  cases h <;> simp

theorem mem_iff (h : AddsSpace text other) {character : Char} (hspace : character ≠ ' ') :
    character ∈ other ↔ character ∈ text := by
  cases h <;> simp [hspace]

theorem within (h : AddsSpace text other) (before after : List Char) :
    AddsSpace (before ++ text ++ after) (before ++ other ++ after) := by
  cases h with
  | before front back =>
      have hspace := AddsSpace.before (before ++ front) (back ++ after)
      simpa using hspace
  | after front back =>
      have hspace := AddsSpace.after (before ++ front) (back ++ after)
      simpa using hspace

theorem trim (h : AddsSpace text other) :
    Blank.trim other = Blank.trim text ∨ AddsSpace (Blank.trim text) (Blank.trim other) := by
  have hcomma : Blank.isBlank ',' = false := by decide
  cases h with
  | before front back =>
      have hother : front ++ ' ' :: ',' :: back = (front ++ [' ']) ++ ',' :: back := by simp
      rw [hother, Blank.trim_append_cons hcomma, Blank.trim_append_cons hcomma, Blank.trimLeft_append]
      split
      · rename_i hnil
        rw [hnil]
        exact .inl rfl
      · rw [List.append_assoc]
        exact .inr (.before _ _)
  | after front back =>
      rw [Blank.trim_append_cons hcomma, Blank.trim_append_cons hcomma, Blank.trimRight]
      split
      · rename_i hnil
        rw [hnil]
        exact .inl rfl
      · exact .inr (.after _ _)

theorem exists_piece (h : AddsSpace text other) :
    ∃ front piece spaced back, Pieces.split ',' text = front ++ piece :: back ∧
      Pieces.split ',' other = front ++ spaced :: back ∧
      (spaced = piece ++ [' '] ∧ back ≠ [] ∨ spaced = ' ' :: piece) := by
  cases h with
  | before front back =>
      -- the space ends a piece that is not the last one
      obtain ⟨pieces, last, hfront, hspaced⟩ :=
        Pieces.exists_split_append (show ',' ∉ [' '] by decide) front
      refine ⟨pieces, last, last ++ [' '], Pieces.split ',' back, ?_, ?_,
        .inl ⟨rfl, Pieces.split_ne_nil _ _⟩⟩
      · rw [Pieces.split_append_mark, hfront, List.append_assoc, List.singleton_append]
      · have hother : front ++ ' ' :: ',' :: back = (front ++ [' ']) ++ ',' :: back := by simp
        rw [hother, Pieces.split_append_mark, hspaced, List.append_assoc, List.singleton_append]
  | after front back =>
      obtain ⟨piece, others, hback⟩ := List.exists_cons_of_ne_nil (Pieces.split_ne_nil ',' back)
      refine ⟨Pieces.split ',' front, piece, ' ' :: piece, others, ?_, ?_, .inr rfl⟩
      · rw [Pieces.split_append_mark, hback]
      · rw [Pieces.split_append_mark, Pieces.split, if_neg (by decide), hback]

theorem map_trim_eq (h : AddsSpace text other) :
    (Pieces.split ',' other).map Blank.trim = (Pieces.split ',' text).map Blank.trim := by
  obtain ⟨front, piece, spaced, back, htext, hother, hspaced⟩ := h.exists_piece
  have htrim : Blank.trim spaced = Blank.trim piece := by
    rcases hspaced with ⟨rfl, -⟩ | rfl
    · exact Blank.trim_append_of_isAllBlank rfl piece
    · rfl
  simp only [htext, hother, List.map_append, List.map_cons, htrim]

end AddsSpace

namespace Respaced

theorem image_eq {β : Type} {image : List Char → β}
    (hkeeps : ∀ {text other}, AddsSpace text other → image other = image text)
    (h : Respaced text other) : image other = image text := by
  induction h with
  | rel text other h => exact hkeeps h
  | refl text => rfl
  | symm text other h ih => exact ih.symm
  | trans text middle other hfirst hsecond ihfirst ihsecond => exact ihsecond.trans ihfirst

theorem mem_iff (h : Respaced text other) {character : Char} (hspace : character ≠ ' ') :
    character ∈ other ↔ character ∈ text :=
  iff_of_eq (h.image_eq fun hadds => propext (hadds.mem_iff hspace))

theorem map_trim_eq (h : Respaced text other) :
    (Pieces.split ',' other).map Blank.trim = (Pieces.split ',' text).map Blank.trim :=
  h.image_eq AddsSpace.map_trim_eq

theorem isUnquoted (h : Respaced text other) (hunquoted : IsUnquoted text) : IsUnquoted other :=
  ⟨mt (h.mem_iff (by decide)).mp hunquoted.1, mt (h.mem_iff (by decide)).mp hunquoted.2⟩

end Respaced

/-! ### Tokens -/

namespace Literal

namespace Token

def Mode.isUnquoted : Mode → Bool
  | .inText _ _ _ => false
  | _ => true

section

variable {mode next : Mode} {character : Char} {now : List Token} {rest : List Char}

theorem isUnquoted_of_begin? (hsingle : character ≠ '\'') (hdouble : character ≠ '"')
    (h : begin? character = some (next, now)) : next.isUnquoted = true := by
  cases begins_of_begin? h with
  | text hmark => exact absurd hmark (by simp [hsingle, hdouble])
  | _ => rfl

theorem isUnquoted_of_step? (hmode : mode.isUnquoted = true) (hsingle : character ≠ '\'')
    (hdouble : character ≠ '"') (h : step? mode character = some (next, now)) :
    next.isUnquoted = true := by
  cases mode with
  | between => exact isUnquoted_of_begin? hsingle hdouble h
  | inText mark read inner => cases hmode
  | inNumber read =>
      rw [step?] at h
      split at h
      · obtain ⟨rfl, rfl⟩ := Prod.mk.inj (Option.some.inj h)
        rfl
      · obtain ⟨token, -, h⟩ := Option.bind_eq_some_iff.mp h
        obtain ⟨⟨begun, more⟩, hbegin, h⟩ := Option.bind_eq_some_iff.mp h
        obtain ⟨rfl, rfl⟩ := Prod.mk.inj (Option.some.inj h)
        exact isUnquoted_of_begin? hsingle hdouble hbegin
  | inWord read plain =>
      rw [step?] at h
      split at h
      · obtain ⟨rfl, rfl⟩ := Prod.mk.inj (Option.some.inj h)
        rfl
      split at h
      · obtain ⟨rfl, rfl⟩ := Prod.mk.inj (Option.some.inj h)
        rfl
      · obtain ⟨⟨begun, more⟩, hbegin, h⟩ := Option.map_eq_some_iff.mp h
        obtain ⟨rfl, rfl⟩ := Prod.mk.inj h
        exact isUnquoted_of_begin? hsingle hdouble hbegin
  | slash | lineComment | blockComment afterStar | wordEscape read =>
      simp only [step?] at h
      split at h
      all_goals grind [Mode.isUnquoted]
  | wordDigits read remaining value =>
      obtain ⟨digit, -, h⟩ := Option.map_eq_some_iff.mp h
      grind [Mode.isUnquoted]

theorem scanFrom?_append_congr {front first second : List Char} (hunquoted : IsUnquoted front)
    (hends : ∀ {mode : Mode}, mode.isUnquoted = true → scanFrom? mode first = scanFrom? mode second)
    (hmode : mode.isUnquoted = true) :
    scanFrom? mode (front ++ first) = scanFrom? mode (front ++ second) := by
  induction front generalizing mode with
  | nil => exact hends hmode
  | cons character front ih =>
      obtain ⟨hsingle, hdouble⟩ : character ≠ '\'' ∧ character ≠ '"' :=
        ⟨fun h => hunquoted.1 (by simp [h]), fun h => hunquoted.2 (by simp [h])⟩
      rw [List.cons_append, List.cons_append, scanFrom?, scanFrom?]
      cases hstep : step? mode character with
      | none => rfl
      | some pair =>
          obtain ⟨next, now⟩ := pair
          have hnext := isUnquoted_of_step? hmode hsingle hdouble hstep
          have hrest := hunquoted.of_subset (List.subset_cons_self character front)
          simp only [Option.bind_eq_bind, Option.bind_some, ih hrest hnext]

theorem scanFrom?_of_silent (h : step? mode character = some (next, [])) (rest : List Char) :
    scanFrom? mode (character :: rest) = scanFrom? next rest := by
  rw [scanFrom?, h]
  cases hrest : scanFrom? next rest <;> simp [hrest]

theorem scanFrom?_comma_space (hcomma : step? mode ',' = some (next, now))
    (hspace : step? next ' ' = some (next, [])) (rest : List Char) :
    scanFrom? mode (',' :: ' ' :: rest) = scanFrom? mode (',' :: rest) := by
  rw [scanFrom?, scanFrom?, hcomma]
  simp only [Option.bind_eq_bind, Option.bind_some, scanFrom?_of_silent hspace]

theorem scanFrom?_spaced_comma (hmode : mode.isUnquoted = true) (rest : List Char) :
    scanFrom? mode (' ' :: ',' :: rest) = scanFrom? mode (',' :: rest) ∧
      scanFrom? mode (',' :: ' ' :: rest) = scanFrom? mode (',' :: rest) := by
  have hspace : separates ' ' = true := by decide +kernel
  have hcomma : separates ',' = true := by decide +kernel
  have hbetween : scanFrom? .between (' ' :: ',' :: rest) = scanFrom? .between (',' :: rest) ∧
      scanFrom? .between (',' :: ' ' :: rest) = scanFrom? .between (',' :: rest) :=
    ⟨scanFrom?_of_silent rfl _, scanFrom?_comma_space rfl rfl _⟩
  have hbare (hbare : mode.isBare = true) :
      scanFrom? mode (' ' :: ',' :: rest) = scanFrom? mode (',' :: rest) ∧
        scanFrom? mode (',' :: ' ' :: rest) = scanFrom? mode (',' :: rest) := by
    simp only [scanFrom?_of_separates hbare hspace, scanFrom?_of_separates hbare hcomma, hbetween,
      and_self]
  cases mode with
  | inText mark read inner => cases hmode
  | slash => exact ⟨rfl, rfl⟩
  | lineComment => exact ⟨scanFrom?_of_silent rfl _, scanFrom?_comma_space rfl rfl _⟩
  | blockComment afterStar =>
      have hpass (afterStar : Bool) (character : Char) (hmark : character = ' ' ∨ character = ',')
          (rest : List Char) : scanFrom? (.blockComment afterStar) (character :: rest) =
            scanFrom? (.blockComment false) rest := by
        rcases hmark with rfl | rfl <;> cases afterStar <;> exact scanFrom?_of_silent rfl rest
      simp only [hpass, true_or, or_true, and_self]
  | between | inNumber read | inWord read plain | wordEscape read | wordDigits read remaining value =>
      exact hbare rfl

end

theorem scan?_of_addsSpace (hunquoted : IsUnquoted text) (h : AddsSpace text other) :
    scan? other = scan? text := by
  cases h with
  | before front back =>
      exact scanFrom?_append_congr (hunquoted.of_subset (List.subset_append_left ..))
        (fun hmode => (scanFrom?_spaced_comma hmode back).1) rfl
  | after front back =>
      exact scanFrom?_append_congr (hunquoted.of_subset (List.subset_append_left ..))
        (fun hmode => (scanFrom?_spaced_comma hmode back).2) rfl

end Token

theorem readMembers?_of_addsSpace (hunquoted : IsUnquoted text) (h : AddsSpace text other) :
    readMembers? other = readMembers? text := by
  have hbraces : IsUnquoted (['\x7b'] ++ text ++ ['\x7d']) := by
    simpa [IsUnquoted] using hunquoted
  have hscan := Token.scan?_of_addsSpace hbraces (h.within ['\x7b'] ['\x7d'])
  rw [readMembers?, readMembers?, read?, read?]
  simp only [List.singleton_append] at hscan
  rw [hscan]

end Literal

namespace Arguments

namespace Pair

/-! ### Pairs -/

/-- A key and a colon with nothing after it but blanks. -/
def LacksValue (piece : List Char) : Prop :=
  ∃ key gap, IsKey key ∧ Blank.isAllBlank gap = true ∧ Blank.trim piece = key ++ gap ++ [':']

theorem LacksValue.getLast? {piece : List Char} (h : LacksValue piece) :
    (Blank.trim piece).getLast? = some ':' := by
  obtain ⟨key, gap, -, -, htrim⟩ := h
  rw [htrim, List.getLast?_concat]

/-- No key and colon stand before a comma with nothing but blanks between. -/
def HasValues (text : List Char) : Prop :=
  ∀ piece ∈ (Pieces.split ',' text).dropLast, ¬ LacksValue piece

theorem HasValues.of_map_trim_eq (hvalued : HasValues text)
    (h : (Pieces.split ',' other).map Blank.trim = (Pieces.split ',' text).map Blank.trim) :
    HasValues other := by
  rintro piece hpiece ⟨key, gap, hkey, hgap, htrim⟩
  have hmem : Blank.trim piece ∈ ((Pieces.split ',' other).map Blank.trim).dropLast := by
    rw [← List.map_dropLast]
    exact List.mem_map_of_mem hpiece
  rw [h, ← List.map_dropLast] at hmem
  obtain ⟨same, hsame, heq⟩ := List.mem_map.mp hmem
  exact hvalued same hsame ⟨key, gap, hkey, hgap, heq.trans htrim⟩

section

variable {piece rest : List Char}

theorem IsUnquoted.append_space (h : IsUnquoted rest) : IsUnquoted (rest ++ [' ']) := by
  simpa [IsUnquoted] using h

theorem IsUnquoted.trimLeft (h : IsUnquoted rest) : IsUnquoted (Blank.trimLeft rest) :=
  h.of_subset (List.dropWhile_suffix _).subset

theorem readValue?_append_space (hunquoted : IsUnquoted rest) (hne : rest ≠ []) :
    readValue? (rest ++ [' ']) = readValue? rest := by
  have hends : (rest ++ [' ']).any endsBare = rest.any endsBare := by
    simp [endsBare]
  have htrim : Blank.trim (rest ++ [' ']) = Blank.trim rest := Blank.trim_append_of_isAllBlank rfl rest
  have hempty : (rest ++ [' ']).isEmpty = rest.isEmpty := by
    rw [List.isEmpty_eq_false_iff.mpr hne, List.isEmpty_eq_false_iff.mpr (by simp)]
  simp only [readValue?, readQuoted?_of_isUnquoted hunquoted.trimLeft,
    readQuoted?_of_isUnquoted hunquoted.append_space.trimLeft, hends, htrim, hempty]

theorem readKey?_append_space (hunquoted : IsUnquoted rest) (hne : rest ≠ []) :
    readKey? (rest ++ [' ']) =
      (readKey? rest).map fun (key, afterKey) => (key, afterKey ++ [' ']) := by
  cases hread : readKey? rest with
  | none =>
      obtain ⟨first, others, rfl⟩ := List.exists_cons_of_ne_nil hne
      have hstarts : startsKey first = false := by
        by_contra hstarts
        rw [readKey?, if_pos (by simpa using hstarts)] at hread
        cases hread
      rw [List.cons_append, readKey?, if_neg (by simp [hstarts]), ← List.cons_append,
        readQuoted?_of_isUnquoted hunquoted.append_space]
      rfl
  | some pair =>
      obtain ⟨key, afterKey⟩ := pair
      obtain ⟨hkey, rfl, hafter⟩ := isKey_of_readKey? hunquoted hread
      rw [List.append_assoc, readKey?_of_isKey hkey, Option.map_some]
      cases afterKey with
      | nil =>
          rintro character ⟨⟩
          decide +kernel
      | cons first others => exact hafter

theorem read?_append_space (hunquoted : IsUnquoted piece) (hvalue : ¬ LacksValue piece) :
    read? (piece ++ [' ']) = read? piece := by
  have hspace : Blank.trimLeft [' '] = [] := rfl
  rw [read?, read?, Blank.trimLeft_append]
  split
  · rename_i hnil
    rw [hnil, hspace]
  rename_i hne
  rw [readKey?_append_space hunquoted.trimLeft hne]
  cases hread : readKey? (Blank.trimLeft piece) with
  | none => rfl
  | some pair =>
      obtain ⟨key, afterKey⟩ := pair
      obtain ⟨hkey, hpiece, -⟩ := isKey_of_readKey? hunquoted.trimLeft hread
      have hafterKey : IsUnquoted (Blank.trimLeft afterKey) :=
        (hunquoted.trimLeft.of_subset (hpiece ▸ List.subset_append_right key afterKey)).trimLeft
      simp only [Option.map_some, Option.bind_eq_bind, Option.bind_some, Blank.trimLeft_append, hspace]
      cases hafter : Blank.trimLeft afterKey with
      | nil => rfl
      | cons first rest =>
          rw [if_neg (List.cons_ne_nil first rest), List.cons_append]
          by_cases hcolon : first = ':'
          · subst hcolon
            have hrest : IsUnquoted rest :=
              hafterKey.of_subset (hafter ▸ List.subset_cons_self ':' rest)
            have hne : rest ≠ [] := by
              rintro rfl
              obtain ⟨gap, hgap, hcut⟩ := exists_blanks afterKey
              refine hvalue ⟨key, gap, hkey, hgap, ?_⟩
              rw [Blank.trim, hpiece, hcut, hafter, ← List.append_assoc]
              exact Blank.trimRight_append_singleton (by decide) _
            simp only [readValue?_append_space hrest hne]
          · simp [hcolon]

theorem readAll?_of_addsSpace (hunquoted : IsUnquoted text) (hvalued : HasValues text)
    (h : AddsSpace text other) : readAll? other = readAll? text := by
  obtain ⟨front, piece, spaced, back, htext, hother, hspaced⟩ := h.exists_piece
  have hread : read? spaced = read? piece := by
    rcases hspaced with ⟨rfl, hback⟩ | rfl
    · have hmem : piece ∈ Pieces.split ',' text := by simp [htext]
      have hsubset := (Pieces.not_mem_of_mem_split hmem).2
      refine read?_append_space (hunquoted.of_subset hsubset) (hvalued piece ?_)
      rw [htext, List.dropLast_append_of_ne_nil (List.cons_ne_nil _ _), List.dropLast_cons_of_ne_nil hback]
      simp
    · rfl
  simp only [readAll?, htext, hother, List.mapM_append, List.mapM_cons, hread]

end

end Pair

theorem read_of_addsSpace (hunquoted : IsUnquoted text) (hvalued : Pair.HasValues text)
    (h : AddsSpace text other) : read other = read text := by
  rcases h.trim with heq | hbody
  · rw [read, read, heq]
  have hunquoted : IsUnquoted (Blank.trim text) := hunquoted.of_subset fun _ => Blank.mem_of_mem_trim
  have hvalued : Pair.HasValues (Blank.trim text) :=
    hvalued.of_map_trim_eq (Pieces.map_trim_split_trim (by decide) text)
  have hempty : (Blank.trim other).isEmpty = (Blank.trim text).isEmpty := by
    have hcomma : ',' ∈ Blank.trim other := (hbody.mem_iff (by decide)).mpr hbody.comma_mem
    rw [List.isEmpty_eq_false_iff.mpr (List.ne_nil_of_mem hcomma),
      List.isEmpty_eq_false_iff.mpr (List.ne_nil_of_mem hbody.comma_mem)]
  have hcolon : (Blank.trim other).contains ':' = (Blank.trim text).contains ':' := by
    rw [Bool.eq_iff_iff, List.contains_iff_mem, List.contains_iff_mem]
    exact hbody.mem_iff (by decide)
  have hnamed : readNamed? (Blank.trim other) = readNamed? (Blank.trim text) := by
    rw [readNamed?, readNamed?, Literal.readMembers?_of_addsSpace hunquoted hbody,
      Pair.readAll?_of_addsSpace hunquoted hvalued hbody]
  have hpieces : pieces (Blank.trim other) = pieces (Blank.trim text) := by
    have hmap := congrArg (List.map String.ofList) hbody.map_trim_eq
    rw [List.map_map, List.map_map] at hmap
    exact hmap
  simp only [read, hempty, hcolon, hnamed, hpieces]

/-- A text without quotation marks is read alike when spaces are put in or taken out beside its commas, if
no key and colon stand before a comma with nothing between. -/
theorem read_of_respaced (hunquoted : Pair.IsUnquoted text) (hvalued : Pair.HasValues text)
    (h : Respaced text other) : read other = read text := by
  induction h with
  | rel text other h => exact read_of_addsSpace hunquoted hvalued h
  | refl text => rfl
  | symm text other h ih =>
      have hback : Respaced other text := .symm _ _ h
      exact (ih (hback.isUnquoted hunquoted) (hvalued.of_map_trim_eq hback.map_trim_eq)).symm
  | trans text middle other hfirst hsecond ihfirst ihsecond =>
      have hthere : Respaced text middle := hfirst
      have hmiddle := ihsecond (hthere.isUnquoted hunquoted) (hvalued.of_map_trim_eq hthere.map_trim_eq)
      exact hmiddle.trans (ihfirst hunquoted hvalued)

/-- Words and a number, with a space before the second comma only. -/
def closeWords : List Char :=
  "to: a b,n: 3 ,m: c".toList

/-- The same with a space after the first comma only. -/
def looseWords : List Char :=
  "to: a b, n: 3,m: c".toList

theorem respaced_closeWords : Respaced closeWords looseWords :=
  .trans _ "to: a b, n: 3 ,m: c".toList _ (.rel _ _ (.after "to: a b".toList "n: 3 ,m: c".toList))
    (.symm _ _ (.rel _ _ (.before "to: a b, n: 3".toList "m: c".toList)))

theorem read_of_respaced_closeWords :
    (Pair.IsUnquoted closeWords ∧ Pair.HasValues closeWords ∧ Respaced closeWords looseWords) ∧
    (read closeWords).kind = .named ∧ read looseWords = read closeWords := by
  have hunquoted : Pair.IsUnquoted closeWords := ⟨by decide, by decide⟩
  have hvalued : Pair.HasValues closeWords := by
    have hlast : ∀ piece ∈ (Pieces.split ',' closeWords).dropLast,
        (Blank.trim piece).getLast? ≠ some ':' := by decide
    exact fun piece hpiece hlacks => hlast piece hpiece hlacks.getLast?
  exact ⟨⟨hunquoted, hvalued, respaced_closeWords⟩, by decide +kernel,
    read_of_respaced hunquoted hvalued respaced_closeWords⟩

/-- A space between a colon and a comma is an empty value: without it the text has no named values. -/
theorem read_spacedColon_ne :
    (Pair.IsUnquoted "a:,b: 1".toList ∧ Respaced "a:,b: 1".toList "a: ,b: 1".toList) ∧
    (read "a:,b: 1".toList).kind = .positional ∧ (read "a: ,b: 1".toList).kind = .named := by
  refine ⟨⟨⟨by decide, by decide⟩, .rel _ _ (.before "a:".toList "b: 1".toList)⟩, ?_, ?_⟩
  all_goals decide +kernel

end Arguments

end Cascade
