import Cascade.Proofs.Reading.Agreement
import Cascade.Proofs.Registry.Entries

/-!
Bare pairs. A text of pairs of an identifier and a value without marks is always read as named values:
a value that is the literal of a scalar stands for that scalar, and any other for its own text. Objects
and relaxed pairs have the same entries where both read the text (`Arguments.read_barePairs`).
-/

namespace Cascade

open Text

/-- Null, a truth value or a number. -/
inductive Value.IsScalar : Value → Prop
  | null : IsScalar .null
  | boolean (flag : Bool) : IsScalar (.boolean flag)
  | integer (number : Int) : IsScalar (.integer number)
  | float (number : Binary64) : IsScalar (.float number)

namespace Arguments

namespace Pair

/-- The comma, the colon, the quotation marks, the curly and square brackets, and the slash. -/
def reservedMarks : List Char :=
  [',', ':', '\'', '"', '\x7b', '\x7d', '[', ']', '/']

/-- A trimmed text that is not empty and has no reserved mark. -/
structure IsBareValue (text : List Char) : Prop where
  ne_nil : text ≠ []
  trim_eq : Blank.trim text = text
  unmarked : ∀ mark ∈ reservedMarks, mark ∉ text

instance : DecidablePred IsBareValue := fun text =>
  decidable_of_iff
    (text ≠ [] ∧ Blank.trim text = text ∧
      reservedMarks.all (fun mark => mark ∉ text) = true)
    ⟨fun h => ⟨h.1, h.2.1, fun mark hmark => of_decide_eq_true (List.all_eq_true.mp h.2.2 mark hmark)⟩,
      fun h => ⟨h.ne_nil, h.trim_eq, List.all_eq_true.mpr fun mark hmark =>
        decide_eq_true (h.unmarked mark hmark)⟩⟩

/-- What a bare value means: the scalar of which it is a literal, or else its own text. -/
inductive Means (text : String) : Value → Prop
  | scalar {value : Value} (hread : Literal.read? text.toList = some value) (hscalar : value.IsScalar) :
      Means text value
  | text (hnone : ∀ value, Literal.read? text.toList = some value → ¬ value.IsScalar) :
      Means text (.text text)

def barePair (pair : String × String) : List Char :=
  pair.1.toList ++ ':' :: ' ' :: pair.2.toList

/-- The text of pairs with a comma and a space between them. -/
def barePairs (pairs : List (String × String)) : List Char :=
  Pieces.join [',', ' '] (pairs.map barePair)

/-- Pairs of an identifier and a bare value, at least one. -/
structure AreBare (pairs : List (String × String)) : Prop where
  ne_nil : pairs ≠ []
  keys : ∀ pair ∈ pairs, IsKey pair.1.toList
  values : ∀ pair ∈ pairs, IsBareValue pair.2.toList

theorem means_bareValue (text : String) : Means text (bareValue text.toList) := by
  have hnot : ∀ value : Value, ¬ value.IsScalar → Literal.read? text.toList = some value →
      Means text (.text (String.ofList text.toList)) := by
    intro value hvalue hread
    rw [String.ofList_toList]
    refine .text fun other hother => ?_
    rw [hread] at hother
    exact Option.some.inj hother ▸ hvalue
  cases hread : Literal.read? text.toList with
  | none =>
      rw [bareValue, hread, String.ofList_toList]
      exact .text fun value h => by simp [hread] at h
  | some value =>
      rw [bareValue, hread]
      cases value with
      | null => exact .scalar hread .null
      | boolean flag => exact .scalar hread (.boolean flag)
      | integer number => exact .scalar hread (.integer number)
      | float number => exact .scalar hread (.float number)
      | text _ | list _ | sequence _ | map _ =>
          refine hnot _ ?_ hread
          rintro ⟨⟩

/-! ### One pair -/

namespace IsKey

variable {key : List Char}

theorem ne_nil (h : IsKey key) : key ≠ [] := by
  cases h
  exact List.cons_ne_nil _ _

theorem trimLeft_append (h : IsKey key) (rest : List Char) :
    Blank.trimLeft (key ++ rest) = key ++ rest := by
  cases h with
  | intro hfirst hfollows =>
      rw [List.cons_append]
      refine Blank.trimLeft_of_not_isBlank ?_ _
      by_contra hblank
      have hnot := Literal.Token.of_mem_codes (fun character => !startsKey character) (by decide +kernel)
        (Literal.Token.mem_blankCodes (by simpa using hblank))
      simp [hfirst] at hnot

theorem not_mem (h : IsKey key) {mark : Char} (hstarts : startsKey mark = false)
    (hcontinues : continuesKey mark = false) : mark ∉ key := by
  cases h with
  | intro hfirst hfollows =>
      rintro hmem
      rcases List.mem_cons.mp hmem with rfl | hmem
      · rw [hstarts] at hfirst
        cases hfirst
      · rw [hfollows mark hmem] at hcontinues
        cases hcontinues

end IsKey

section

variable {pair : String × String} {pairs : List (String × String)}

theorem IsBareValue.readValue? {text : List Char} (h : IsBareValue text) :
    readValue? (' ' :: text) = some (bareValue text) := by
  have hleft : Blank.trimLeft (' ' :: text) = text := Blank.trimLeft_of_trim h.trim_eq
  have htrim : Blank.trim (' ' :: text) = text := h.trim_eq
  have hquoted : readQuoted? text = none :=
    readQuoted?_of_isUnquoted ⟨h.unmarked _ (by decide), h.unmarked _ (by decide)⟩
  have hends : (' ' :: text).any endsBare = false := by
    rw [List.any_eq_false, List.forall_mem_cons]
    refine ⟨by decide, fun character hmem => ?_⟩
    have hne : ∀ mark ∈ reservedMarks, character ≠ mark := fun mark hmark heq =>
      h.unmarked mark hmark (heq ▸ hmem)
    simp only [reservedMarks, List.forall_mem_cons] at hne
    simp [endsBare, hne]
  simp only [Pair.readValue?, hleft, hquoted, hends, htrim, List.isEmpty_cons, Bool.or_self,
    Bool.false_eq_true, if_false]

theorem read?_barePair (hkey : IsKey pair.1.toList) (hvalue : IsBareValue pair.2.toList) :
    read? (barePair pair) = some (pair.1, bareValue pair.2.toList) := by
  have hcolon : ∀ character ∈ (':' :: ' ' :: pair.2.toList).head?, continuesKey character = false := by
    rintro character ⟨⟩
    decide +kernel
  rw [read?, barePair, hkey.trimLeft_append, readKey?_of_isKey hkey hcolon]
  simp [Blank.trimLeft_of_not_isBlank (show Blank.isBlank ':' = false by decide), hvalue.readValue?]

theorem not_mem_barePair (hkey : IsKey pair.1.toList) (hvalue : IsBareValue pair.2.toList) {mark : Char}
    (hmark : mark ∈ [',', '\'', '"']) : mark ∉ barePair pair := by
  obtain ⟨hstarts, hcontinues, hbetween, hunmarked⟩ : startsKey mark = false ∧
      continuesKey mark = false ∧ mark ∉ [':', ' '] ∧ mark ∉ pair.2.toList := by
    simp only [List.mem_cons, List.not_mem_nil, or_false] at hmark
    rcases hmark with rfl | rfl | rfl
    all_goals
      exact ⟨by decide, by decide +kernel, by decide, hvalue.unmarked _ (by decide)⟩
  have hname := hkey.not_mem hstarts hcontinues
  simp only [List.mem_cons, List.not_mem_nil, or_false, not_or] at hbetween
  simp only [barePair, List.mem_append, List.mem_cons, not_or]
  exact ⟨hname, hbetween.1, hbetween.2, hunmarked⟩

/-! ### All pairs -/

theorem split_barePairs (h : AreBare (pair :: pairs)) :
    Pieces.split ',' (barePairs (pair :: pairs)) =
      barePair pair :: pairs.map fun pair => ' ' :: barePair pair := by
  have hcomma : ∀ other ∈ pair :: pairs, ',' ∉ barePair other := fun other hmem =>
    not_mem_barePair (h.keys other hmem) (h.values other hmem) (by simp)
  obtain ⟨hfirst, hrest⟩ := List.forall_mem_cons.mp hcomma
  rw [barePairs, List.map_cons, Pieces.join_mark_append, List.map_map]
  refine Pieces.split_join (List.cons_ne_nil _ _) fun piece hmem => ?_
  rcases List.mem_cons.mp hmem with rfl | hmem
  · exact hfirst
  · obtain ⟨other, hother, rfl⟩ := List.mem_map.mp hmem
    simpa using hrest other hother

theorem mapM_eq_some {α β : Type} {give : α → Option β} {taken : α → β} {items : List α}
    (h : ∀ item ∈ items, give item = some (taken item)) : items.mapM give = some (items.map taken) := by
  induction items with
  | nil => rfl
  | cons first rest ih =>
      obtain ⟨hfirst, hrest⟩ := List.forall_mem_cons.mp h
      rw [List.mapM_cons, hfirst, ih hrest]
      rfl

theorem readAll?_barePairs (h : AreBare pairs) :
    readAll? (barePairs pairs) =
      some (Entries.ofList (pairs.map fun pair => (pair.1, bareValue pair.2.toList))) := by
  cases pairs with
  | nil => exact absurd rfl h.ne_nil
  | cons pair pairs =>
      have hread : ∀ other ∈ pair :: pairs,
          read? (barePair other) = some (other.1, bareValue other.2.toList) := fun other hmem =>
        read?_barePair (h.keys other hmem) (h.values other hmem)
      obtain ⟨hfirst, hrest⟩ := List.forall_mem_cons.mp hread
      have hspaced : ∀ other ∈ pairs, (read? ∘ fun pair => ' ' :: barePair pair) other =
          some (other.1, bareValue other.2.toList) := hrest
      rw [readAll?, split_barePairs h, List.mapM_cons, hfirst, List.mapM_map, mapM_eq_some hspaced]
      rfl

theorem exists_barePairs_cons (pair : String × String) (pairs : List (String × String)) :
    ∃ rest, barePairs (pair :: pairs) = pair.1.toList ++ ':' :: rest := by
  cases pairs with
  | nil => exact ⟨_, rfl⟩
  | cons next others =>
      refine ⟨' ' :: pair.2.toList ++ [',', ' '] ++ barePairs (next :: others), ?_⟩
      rw [barePairs, List.map_cons, List.map_cons, Pieces.join]
      · simp [barePairs, barePair]
      · exact List.cons_ne_nil _ _

theorem trim_barePairs (h : AreBare pairs) : Blank.trim (barePairs pairs) = barePairs pairs := by
  have hleft : Blank.trimLeft (barePairs pairs) = barePairs pairs := by
    obtain ⟨pair, others, rfl⟩ := List.exists_cons_of_ne_nil h.ne_nil
    obtain ⟨rest, hrest⟩ := exists_barePairs_cons pair others
    rw [hrest, (h.keys pair List.mem_cons_self).trimLeft_append]
  obtain ⟨others, pair, rfl⟩ := (List.eq_nil_or_concat pairs).resolve_left h.ne_nil
  obtain ⟨front, hfront⟩ := Pieces.exists_join_concat [',', ' '] (others.map barePair) (barePair pair)
  have hvalue : IsBareValue pair.2.toList := h.values pair (by simp)
  have htext : barePairs (others.concat pair) =
      (front ++ pair.1.toList ++ [':', ' ']) ++ pair.2.toList := by
    rw [barePairs, List.concat_eq_append, List.map_append, List.map_singleton, hfront, barePair]
    simp
  have hright : Blank.trimRight pair.2.toList = pair.2.toList := by
    have htrim := hvalue.trim_eq
    rwa [Blank.trim, Blank.trimLeft_of_trim hvalue.trim_eq] at htrim
  rw [Blank.trim, hleft, htext, Blank.trimRight_append_of_ne_nil (by rw [hright]; exact hvalue.ne_nil),
    hright]

theorem isUnescaped_barePairs (h : AreBare pairs) : IsUnescaped (barePairs pairs) := by
  have hquote : ∀ mark ∈ ['\'', '"'], mark ∉ barePairs pairs := by
    intro mark hmark
    have hseparator : mark ∉ [',', ' '] := by
      simp only [List.mem_cons, List.not_mem_nil, or_false] at hmark
      rcases hmark with rfl | rfl <;> decide
    refine Pieces.not_mem_join hseparator fun piece hpiece => ?_
    obtain ⟨pair, hpair, rfl⟩ := List.mem_map.mp hpiece
    exact not_mem_barePair (h.keys pair hpair) (h.values pair hpair) (List.mem_cons_of_mem _ hmark)
  exact fun _ => ⟨hquote _ (by decide), hquote _ (by decide)⟩

end

end Pair

open Pair in
/-- Bare pairs are read as named values: each key once, in the order of the first occurrences, with what
the value of its last occurrence means. The relaxed pairs have the same entries as the members of an
object where the text is that too. -/
theorem read_barePairs {pairs : List (String × String)} (h : AreBare pairs) :
    ∃ entries, read (barePairs pairs) = .named entries ∧
      entries.names = (pairs.map Prod.fst).eraseDups ∧
      (∀ front key value back, pairs = front ++ (key, value) :: back → key ∉ back.map Prod.fst →
        ∃ meant, Means value meant ∧ entries.get? key = some meant) ∧
      readAll? (barePairs pairs) = some entries ∧
      ∀ members, Literal.readMembers? (barePairs pairs) = some members → members = entries := by
  have hpairs := readAll?_barePairs h
  have hagree : ∀ members, Literal.readMembers? (barePairs pairs) = some members →
      members = Entries.ofList (pairs.map fun pair => (pair.1, bareValue pair.2.toList)) :=
    fun members hmembers => entries_eq_of_isUnescaped (isUnescaped_barePairs h) hmembers hpairs
  have hnamed : readNamed? (barePairs pairs) =
      some (Entries.ofList (pairs.map fun pair => (pair.1, bareValue pair.2.toList))) := by
    rw [readNamed?, hpairs]
    cases hmembers : Literal.readMembers? (barePairs pairs) with
    | none => rfl
    | some members => rw [hagree members hmembers, Option.some_or]
  have hcolon : ':' ∈ barePairs pairs := by
    obtain ⟨pair, others, rfl⟩ := List.exists_cons_of_ne_nil h.ne_nil
    obtain ⟨rest, hrest⟩ := exists_barePairs_cons pair others
    simp [hrest]
  refine ⟨_, ?_, ?_, ?_, hpairs, hagree⟩
  · have hempty : (barePairs pairs).isEmpty = false :=
      List.isEmpty_eq_false_iff.mpr (List.ne_nil_of_mem hcolon)
    rw [read, trim_barePairs h]
    simp only [hempty, hnamed, List.contains_iff_mem.mpr hcolon, Bool.false_eq_true, if_false, if_true]
  · rw [Entries.names_ofList, List.map_map]
    rfl
  · rintro front key value back rfl hback
    refine ⟨bareValue value.toList, means_bareValue value, ?_⟩
    rw [List.map_append, List.map_cons]
    refine Entries.get?_ofList _ _ ?_
    rwa [List.map_map]

def sameScalar : Value → Value → Bool
  | .null, .null => true
  | .boolean flag, .boolean other => flag == other
  | .integer number, .integer other => number == other
  | .float number, .float other => number == other
  | _, _ => false

theorem eq_of_sameScalar {first second : Value} (h : sameScalar first second = true) :
    first.IsScalar ∧ first = second := by
  cases first <;> cases second <;> simp only [sameScalar, Bool.false_eq_true, beq_iff_eq] at h <;>
    exact ⟨by constructor, by simp [h]⟩

namespace Pair

theorem Means.eq_scalar {text : String} {meant scalar : Value} (h : Means text meant)
    (hread : (Literal.read? text.toList).any (sameScalar scalar) = true) : meant = scalar := by
  obtain ⟨value, hvalue, hsame⟩ := (Option.any_eq_true _ _).mp hread
  obtain ⟨hscalar, rfl⟩ := eq_of_sameScalar hsame
  cases h with
  | scalar hother => exact Option.some.inj (hother.symm.trans hvalue)
  | text hnone => exact absurd hscalar (hnone scalar hvalue)

theorem Means.eq_text {text : String} {meant : Value} (h : Means text meant)
    (hread : (Literal.read? text.toList).isNone = true) : meant = .text text := by
  cases h with
  | scalar hother => simp [hother] at hread
  | text _ => rfl

end Pair

/-- Words, a number, and a key that comes again with a null. -/
def wordPairs : List (String × String) :=
  [("say", "two words"), ("$n_1", "-2.5e1"), ("say", "null"), ("größe", "3 \\ 4")]

/-- The last value of the repeated key counts, the number is minus twenty-five, and what is no scalar
stands for itself. -/
theorem read_barePairs_wordPairs :
    Pair.AreBare wordPairs ∧
    ∃ entries, read (Pair.barePairs wordPairs) = .named entries ∧
      entries.names = ["say", "$n_1", "größe"] ∧
      entries.get? "say" = some .null ∧
      entries.get? "$n_1" = some (.float (.finite true ⟨0x4039000000000000, by decide⟩)) ∧
      entries.get? "größe" = some (.text "3 \\ 4") := by
  have hbare : Pair.AreBare wordPairs :=
    ⟨List.cons_ne_nil _ _, by decide +kernel, by decide⟩
  obtain ⟨entries, hread, hnames, hvalues, -, -⟩ := read_barePairs hbare
  obtain ⟨said, hsaid, hsay⟩ := hvalues (wordPairs.take 2) "say" "null" (wordPairs.drop 3) rfl
    (by decide)
  obtain ⟨number, hnumber, hcount⟩ := hvalues (wordPairs.take 1) "$n_1" "-2.5e1" (wordPairs.drop 2) rfl
    (by decide)
  obtain ⟨text, htext, hsize⟩ := hvalues (wordPairs.take 3) "größe" "3 \\ 4" [] rfl (by decide)
  obtain rfl : said = .null := hsaid.eq_scalar (by decide +kernel)
  obtain rfl : number = .float (.finite true ⟨0x4039000000000000, by decide⟩) :=
    hnumber.eq_scalar (by decide +kernel)
  obtain rfl : text = .text "3 \\ 4" := htext.eq_text (by decide +kernel)
  exact ⟨hbare, entries, hread, hnames.trans (by decide), hsay, hcount, hsize⟩

end Arguments

end Cascade
