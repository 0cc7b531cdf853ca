import Cascade.Proofs.Config.Substitution
import Mathlib.Data.List.Forall2

/-!
References in texts. A text is cut at its references: the first one that stands in it, then the first
one in what follows, and so on. Main statement: replacing the references is one pass over these cuts,
in which nothing that is put in is looked at again, and everything besides the texts of a value stays as
it is (`Config.replaces_in_one_pass`).
-/

namespace Cascade.Config

/-! ### Names and references -/

def IsVariable (name : List Char) : Prop :=
  ∃ first rest, name = first :: rest ∧ startsVariable first = true ∧
    ∀ character ∈ rest, continuesVariable character = true

def referenceTo (name : List Char) : List Char :=
  '%' :: (name ++ ['%'])

def IsFree (text : List Char) : Prop :=
  ∀ front name back, IsVariable name → text ≠ front ++ (referenceTo name ++ back)

theorem continuesVariable_of_startsVariable {character : Char}
    (h : startsVariable character = true) : continuesVariable character = true := by
  rw [startsVariable, Bool.or_eq_true] at h
  rw [continuesVariable, Bool.or_eq_true]
  exact h.imp_left fun halpha => by rw [Char.isAlphanum, halpha, Bool.true_or]

namespace IsVariable

variable {name : List Char} {character : Char}

theorem continues (h : IsVariable name) : ∀ character ∈ name, continuesVariable character = true := by
  obtain ⟨first, rest, rfl, hfirst, hrest⟩ := h
  exact List.forall_mem_cons.mpr ⟨continuesVariable_of_startsVariable hfirst, hrest⟩

theorem sign_not_mem (h : IsVariable name) : '%' ∉ name := by
  intro hmem
  cases h.continues '%' hmem

theorem singleton (h : startsVariable character = true) : IsVariable [character] :=
  ⟨character, [], rfl, h, List.forall_mem_nil _⟩

theorem concat (h : IsVariable name) (hcharacter : continuesVariable character = true) :
    IsVariable (name ++ [character]) := by
  obtain ⟨first, rest, rfl, hfirst, hrest⟩ := h
  refine ⟨first, rest ++ [character], rfl, hfirst, fun other hother => ?_⟩
  rcases List.mem_append.mp hother with hold | hnew
  · exact hrest other hold
  · exact List.mem_singleton.mp hnew ▸ hcharacter

theorem isEmpty_eq_false {read : List Char} (h : IsVariable read.reverse) : read.isEmpty = false := by
  obtain ⟨first, rest, hreverse, -⟩ := h
  cases read with
  | nil => cases hreverse
  | cons => rfl

theorem eq_of_append_eq (h : IsVariable name) {read rest back : List Char}
    (hread : ∀ other ∈ read, continuesVariable other = true)
    (hcharacter : continuesVariable character = false)
    (heq : read ++ character :: rest = name ++ '%' :: back) : character = '%' := by
  have hsign : continuesVariable '%' = false := by decide
  have hleft : (read ++ character :: rest).dropWhile continuesVariable = character :: rest := by
    rw [List.dropWhile_append_of_pos hread, List.dropWhile_cons_of_neg (by simp [hcharacter])]
  have hright : (name ++ '%' :: back).dropWhile continuesVariable = '%' :: back := by
    rw [List.dropWhile_append_of_pos h.continues, List.dropWhile_cons_of_neg (by simp [hsign])]
  rw [heq, hright] at hleft
  exact (List.cons.inj hleft).1.symm

end IsVariable

/-- What has been read of a reference that was begun can be a beginning of a name. -/
def Reference.IsOpen : Reference → Prop
  | outside => True
  | inside read => read = [] ∨ IsVariable read.reverse

theorem Reference.IsOpen.sign_not_mem {read : List Char} (h : (inside read).IsOpen) :
    '%' ∉ read.reverse := by
  rcases h with rfl | hread
  · exact List.not_mem_nil
  · exact hread.sign_not_mem

/-! ### Cuts -/

/-- A text cut at some references: what stands before each with the name in it, and what follows the
last. -/
structure Cut where
  pieces : List (List Char × List Char)
  last : List Char

namespace Cut

def text (cut : Cut) : List Char :=
  (cut.pieces.flatMap fun piece => piece.1 ++ referenceTo piece.2) ++ cut.last

/-- What stands for a reference: the value of its variable as it is, or the reference itself if the
variable is not set. -/
def standIn (environment : Environment) (name : List Char) : List Char :=
  match environment.get? (String.ofList name) with
  | some value => value.toList
  | none => referenceTo name

/-- The text with other texts in the places of the references. -/
def replaced (environment : Environment) (cut : Cut) : List Char :=
  (cut.pieces.flatMap fun piece => piece.1 ++ standIn environment piece.2) ++ cut.last

def names (cut : Cut) : List String :=
  cut.pieces.map fun piece => String.ofList piece.2

/-- The names of the variables that are not set. -/
def unset (environment : Environment) (cut : Cut) : List String :=
  cut.names.filter fun name => (environment.get? name).isNone

/-- Each reference is the first one in what follows the one before it. -/
inductive IsLeftmost : Cut → Prop
  | done (last : List Char) (free : IsFree last) : IsLeftmost ⟨[], last⟩
  | next (before name : List Char) (pieces : List (List Char × List Char)) (last : List Char)
      (named : IsVariable name) (free : IsFree before)
      (first : ∀ front other back, IsVariable other →
        text ⟨(before, name) :: pieces, last⟩ = front ++ (referenceTo other ++ back) →
          before.length ≤ front.length)
      (rest : IsLeftmost ⟨pieces, last⟩) : IsLeftmost ⟨(before, name) :: pieces, last⟩

def after (written : List Char) : Cut → Cut
  | ⟨[], last⟩ => ⟨[], written ++ last⟩
  | ⟨(before, name) :: pieces, last⟩ => ⟨(written ++ before, name) :: pieces, last⟩

def found (name : List Char) (cut : Cut) : Cut :=
  ⟨([], name) :: cut.pieces, cut.last⟩

section

variable (written name : List Char) (environment : Environment) (cut : Cut)

theorem text_after : (cut.after written).text = written ++ cut.text := by
  rcases cut with ⟨_ | ⟨⟨before, name⟩, pieces⟩, last⟩ <;> simp [after, text]

theorem replaced_after : (cut.after written).replaced environment =
    written ++ cut.replaced environment := by
  rcases cut with ⟨_ | ⟨⟨before, name⟩, pieces⟩, last⟩ <;> simp [after, replaced]

theorem unset_after : (cut.after written).unset environment = cut.unset environment := by
  rcases cut with ⟨_ | ⟨⟨before, name⟩, pieces⟩, last⟩ <;> rfl

theorem text_found : (cut.found name).text = referenceTo name ++ cut.text := by
  simp [found, text]

theorem replaced_found : (cut.found name).replaced environment =
    standIn environment name ++ cut.replaced environment := by
  simp [found, replaced]

end

theorem replaced_eq_text {environment : Environment} {cut : Cut}
    (h : ∀ name ∈ cut.names, environment.get? name = none) : cut.replaced environment = cut.text := by
  have hsame : ∀ piece ∈ cut.pieces,
      piece.1 ++ standIn environment piece.2 = piece.1 ++ referenceTo piece.2 := by
    intro piece hmem
    rw [standIn, h _ (List.mem_map.mpr ⟨piece, hmem, rfl⟩)]
  rw [replaced, text, List.flatMap_congr hsame]

theorem exists_append_of_length_le {front back before after : List Char}
    (h : front ++ back = before ++ after) (hlength : front.length ≤ before.length) :
    ∃ between, before = front ++ between ∧ back = between ++ after := by
  rcases List.append_eq_append_iff.mp h with hbetween | ⟨rest, rfl, rfl⟩
  · exact hbetween
  · rw [List.length_append] at hlength
    obtain rfl := List.eq_nil_of_length_eq_zero (l := rest) (by omega)
    exact ⟨[], by simp, rfl⟩

/-- Characters in which no reference begins can be put in front. -/
theorem IsLeftmost.after {cut : Cut} {written : List Char} (h : cut.IsLeftmost)
    (hskip : ∀ front name back, IsVariable name →
      written ++ cut.text = front ++ (referenceTo name ++ back) → written.length ≤ front.length) :
    (cut.after written).IsLeftmost := by
  cases h with
  | done last free =>
      refine .done _ fun front name back hname heq => ?_
      obtain ⟨between, rfl, hlast⟩ :=
        exists_append_of_length_le heq (hskip front name back hname heq)
      exact free between name back hname hlast
  | next before name pieces last named free first rest =>
      have hfirst : ∀ front other back, IsVariable other →
          text ⟨(written ++ before, name) :: pieces, last⟩ =
            front ++ (referenceTo other ++ back) →
          (written ++ before).length ≤ front.length := by
        intro front other back hother heq
        have hwhole : written ++ text ⟨(before, name) :: pieces, last⟩ =
            front ++ (referenceTo other ++ back) := by
          rw [← heq]
          simp [text]
        obtain ⟨between, rfl, hrest⟩ :=
          exists_append_of_length_le hwhole (hskip front other back hother hwhole)
        have hbetween := first between other back hother hrest
        rw [List.length_append, List.length_append]
        omega
      refine .next _ name pieces last named (fun front other back hother heq => ?_) hfirst rest
      -- A reference in front of the first one would begin too early.
      have hearly := hfirst front other
        (back ++ referenceTo name ++ text ⟨pieces, last⟩) hother (by simp [text, heq])
      have hlength := congrArg List.length heq
      simp only [List.length_append, referenceTo, List.length_cons] at hearly hlength
      omega

theorem IsLeftmost.found {cut : Cut} {name : List Char} (h : cut.IsLeftmost)
    (hname : IsVariable name) : (cut.found name).IsLeftmost :=
  .next [] name cut.pieces cut.last hname
    (fun front other back _ heq => by simp [referenceTo] at heq)
    (fun front _ _ _ _ => Nat.zero_le front.length) h

end Cut

/-! ### Reading a text -/

section Reading

variable {read rest front back : List Char} {character : Char}

theorem length_le_of_sign_not_mem (h : '%' ∉ read) (heq : read ++ rest = front ++ '%' :: back) :
    read.length ≤ front.length := by
  by_contra hlt
  obtain ⟨between, rfl, hbetween⟩ := Cut.exists_append_of_length_le heq.symm (by omega)
  cases between with
  | nil => simp at hlt
  | cons first more =>
      obtain rfl := (List.cons.inj hbetween).1
      exact h (List.mem_append_right front List.mem_cons_self)

theorem isFree_text {state : Reference} (h : state.IsOpen) : IsFree state.text := by
  intro front name back hname heq
  cases state with
  | outside => simp [Reference.text, referenceTo] at heq
  | inside read =>
      rw [Reference.text, referenceTo] at heq
      rcases front with _ | ⟨first, front⟩
      all_goals
        refine h.sign_not_mem ?_
        rw [(List.cons.inj heq).2]
        simp

/-- Whether a name that was begun goes on with a character. -/
def Reference.goesOn (read : List Char) (character : Char) : Bool :=
  if read.isEmpty then startsVariable character else continuesVariable character

theorem Reference.IsOpen.goesOn (h : (inside read).IsOpen)
    (hcontinues : Reference.goesOn read character = true) : (inside (character :: read)).IsOpen := by
  refine .inr ?_
  rw [List.reverse_cons]
  rcases h with rfl | hread
  · exact .singleton hcontinues
  · refine hread.concat ?_
    rw [Reference.goesOn] at hcontinues
    split at hcontinues
    · exact continuesVariable_of_startsVariable hcontinues
    · exact hcontinues

theorem length_le_of_broken {name : List Char} (h : (Reference.inside read).IsOpen)
    (hbreaks : Reference.goesOn read character = false)
    (hne : character ≠ '%') (hname : IsVariable name)
    (heq : (Reference.inside read).text ++ [character] ++ rest = front ++ (referenceTo name ++ back)) :
    ((Reference.inside read).text ++ [character]).length ≤ front.length := by
  have hnone : '%' ∉ read.reverse ++ [character] := by
    rw [List.mem_append, List.mem_singleton, not_or]
    exact ⟨h.sign_not_mem, Ne.symm hne⟩
  rcases front with _ | ⟨first, front⟩
  · -- The reference would be the one that was begun.
    have hsame : read.reverse ++ character :: rest = name ++ '%' :: back := by
      simpa [Reference.text, referenceTo] using heq
    rcases h with rfl | hread
    · obtain ⟨first, others, rfl, hfirst, -⟩ := hname
      obtain rfl := (List.cons.inj hsame).1
      cases (hbreaks : startsVariable character = false).symm.trans hfirst
    · rw [Reference.goesOn, hread.isEmpty_eq_false] at hbreaks
      exact absurd (hname.eq_of_append_eq hread.continues hbreaks hsame) hne
  · have hlater : (read.reverse ++ [character]) ++ rest = front ++ '%' :: (name ++ '%' :: back) := by
      have htail := (List.cons.inj heq).2
      simpa [referenceTo] using htail
    have hlength := length_le_of_sign_not_mem hnone hlater
    simpa [Reference.text] using hlength

/-- A text after what has been read of a reference is cut at its references, and in every environment
these are replaced. -/
def Cut.IsOf (state : Reference) (text : List Char) (cut : Cut) : Prop :=
  cut.text = state.text ++ text ∧ cut.IsLeftmost ∧ ∀ environment,
    substituteFrom environment state text = ⟨cut.replaced environment, cut.unset environment⟩

/-- Characters that are no reference are passed over. -/
theorem Cut.IsOf.after {state later : Reference} {text more written : List Char} {cut : Cut}
    (h : cut.IsOf later more) (htext : state.text ++ text = written ++ (later.text ++ more))
    (hstep : ∀ environment, substituteFrom environment state text =
      (substituteFrom environment later more).after written)
    (hskip : ∀ front name back, IsVariable name →
      written ++ (later.text ++ more) = front ++ (referenceTo name ++ back) →
      written.length ≤ front.length) :
    (cut.after written).IsOf state text := by
  obtain ⟨hcut, hleftmost, hreplaced⟩ := h
  refine ⟨by rw [cut.text_after, hcut, htext], hleftmost.after fun front name back hname heq => ?_,
    fun environment => ?_⟩
  · exact hskip front name back hname (hcut ▸ heq)
  · rw [hstep, hreplaced, cut.replaced_after, cut.unset_after]
    rfl

section Steps

variable {cut : Cut}

theorem Cut.IsOf.of_goesOn (h : cut.IsOf (.inside (character :: read)) rest)
    (hcontinues : Reference.goesOn read character = true) :
    cut.IsOf (.inside read) (character :: rest) := by
  obtain ⟨hcut, hleftmost, hreplaced⟩ := h
  refine ⟨?_, hleftmost, fun environment => ?_⟩
  · rw [hcut]
    simp [Reference.text]
  · rw [Reference.goesOn] at hcontinues
    simp only [substituteFrom, hcontinues, if_true, hreplaced]

theorem Cut.IsOf.after_sign (h : cut.IsOf (.inside []) rest) :
    (cut.after ['%']).IsOf (.inside []) ('%' :: rest) := by
  refine h.after rfl (fun environment => ?_) fun front name back hname heq => ?_
  · have hstarts : startsVariable '%' = false := by decide
    simp [substituteFrom, hstarts]
  · rcases front with _ | ⟨first, front⟩
    · have hsame : '%' :: rest = name ++ '%' :: back := by
        simpa [Reference.text, referenceTo] using heq
      obtain ⟨first, others, rfl, hfirst, -⟩ := hname
      obtain rfl := (List.cons.inj hsame).1
      cases hfirst
    · exact Nat.le_add_left 1 front.length

theorem Cut.IsOf.found (h : cut.IsOf .outside rest) (hread : IsVariable read.reverse) :
    (cut.found read.reverse).IsOf (.inside read) ('%' :: rest) := by
  obtain ⟨hcut, hleftmost, hreplaced⟩ := h
  refine ⟨?_, hleftmost.found hread, fun environment => ?_⟩
  · rw [cut.text_found, hcut]
    simp [Reference.text, referenceTo]
  · have hends : continuesVariable '%' = false := by decide
    rw [cut.replaced_found, Cut.standIn]
    simp only [substituteFrom, hread.isEmpty_eq_false, hends, Bool.false_eq_true, if_false, if_true, hreplaced]
    cases henvironment : environment.get? (String.ofList read.reverse) with
    | some value => simp [Substitution.after, Cut.found, Cut.unset, Cut.names, henvironment]
    | none =>
        simp [Reference.text, referenceTo, Cut.found, Cut.unset, Cut.names, henvironment]

theorem Cut.IsOf.after_broken (h : cut.IsOf .outside rest) (hopen : (Reference.inside read).IsOpen)
    (hbreaks : Reference.goesOn read character = false) (hne : character ≠ '%') :
    (cut.after ((Reference.inside read).text ++ [character])).IsOf (.inside read)
      (character :: rest) := by
  refine h.after (by simp [Reference.text]) (fun environment => ?_)
    fun front name back hname heq => length_le_of_broken hopen hbreaks hne hname heq
  rw [Reference.goesOn] at hbreaks
  simp only [substituteFrom, hbreaks, Bool.false_eq_true, if_false, if_neg hne]

theorem Cut.IsOf.after_plain (h : cut.IsOf .outside rest) (hne : character ≠ '%') :
    (cut.after [character]).IsOf .outside (character :: rest) := by
  refine h.after rfl (fun environment => ?_) fun front name back hname heq => ?_
  · rw [substituteFrom, if_neg hne]
  · exact length_le_of_sign_not_mem (by simpa using Ne.symm hne) heq

end Steps

theorem exists_isOf (text : List Char) (state : Reference) (h : state.IsOpen) :
    ∃ cut : Cut, cut.IsOf state text := by
  induction text generalizing state with
  | nil =>
      refine ⟨⟨[], state.text⟩, ?_, .done _ (isFree_text h), fun environment => ?_⟩
      · rw [List.append_nil]
        rfl
      · rw [substituteFrom]
        rfl
  | cons character rest ih =>
      cases state with
      | outside =>
          by_cases hsign : character = '%'
          · subst hsign
            obtain ⟨cut, hcut, hleftmost, hreplaced⟩ := ih (.inside []) (.inl rfl)
            refine ⟨cut, hcut, hleftmost, fun environment => ?_⟩
            rw [substituteFrom, if_pos rfl, hreplaced]
          · obtain ⟨cut, hcut⟩ := ih .outside trivial
            exact ⟨_, hcut.after_plain hsign⟩
      | inside read =>
          cases hcontinues : Reference.goesOn read character with
          | true =>
              obtain ⟨cut, hcut⟩ := ih _ (h.goesOn hcontinues)
              exact ⟨cut, hcut.of_goesOn hcontinues⟩
          | false =>
              obtain ⟨cut, hcut⟩ := ih .outside trivial
              by_cases hsign : character = '%'
              · subst hsign
                rcases h with rfl | hread
                · obtain ⟨other, hother⟩ := ih (.inside []) (.inl rfl)
                  exact ⟨_, hother.after_sign⟩
                · exact ⟨_, hcut.found hread⟩
              · exact ⟨_, hcut.after_broken h hcontinues hsign⟩

end Reading

end Cascade.Config

namespace Cascade

/-! ### Values -/

namespace Value

mutual

/-- The texts in a value in order. A fixed sequence is looked at as a whole. -/
def texts : Value → List String
  | text characters => [characters]
  | list items => textsOfItems items
  | map entries => textsOfEntries entries
  | _ => []

def textsOfItems : List Value → List String
  | [] => []
  | item :: rest => texts item ++ textsOfItems rest

/-- The texts in the values of entries. -/
def textsOfEntries : List (String × Value) → List String
  | [] => []
  | (_, value) :: rest => texts value ++ textsOfEntries rest

end

mutual

/-- What a value is besides its texts: each of them is made empty. -/
def skeleton : Value → Value
  | text _ => text ""
  | list items => list (skeletonOfItems items)
  | map entries => map (skeletonOfEntries entries)
  | value => value

/-- What items are besides their texts. -/
def skeletonOfItems : List Value → List Value
  | [] => []
  | item :: rest => skeleton item :: skeletonOfItems rest

/-- What entries are besides the texts in their values. -/
def skeletonOfEntries : List (String × Value) → List (String × Value)
  | [] => []
  | (name, value) :: rest => (name, skeleton value) :: skeletonOfEntries rest

end

theorem texts_list (items : List Value) : (list items).texts = items.flatMap texts := by
  rw [texts]
  induction items with
  | nil => rfl
  | cons item rest ih => rw [textsOfItems, ih, List.flatMap_cons]

theorem texts_map (entries : List (String × Value)) :
    (map entries).texts = entries.flatMap fun entry => entry.2.texts := by
  rw [texts]
  induction entries with
  | nil => rfl
  | cons entry rest ih => rw [textsOfEntries, ih, List.flatMap_cons]

theorem skeleton_list (items : List Value) : (list items).skeleton = list (items.map skeleton) := by
  rw [skeleton]
  congr 1
  induction items with
  | nil => rfl
  | cons item rest ih => rw [skeletonOfItems, ih, List.map_cons]

theorem skeleton_map (entries : List (String × Value)) :
    (map entries).skeleton = map (Entries.mapValues skeleton entries) := by
  rw [skeleton]
  congr 1
  induction entries with
  | nil => rfl
  | cons entry rest ih =>
      rw [skeletonOfEntries, ih]
      rfl

end Value

namespace Config

section

variable (environment : Environment) (value : Value)

theorem substitute_list (items : List Value) : substitute environment (.list items) =
    (.list (substituteItems environment items).1, (substituteItems environment items).2) :=
  rfl

theorem skeleton_substitute : (substitute environment value).1.skeleton = value.skeleton := by
  induction value using Value.inside_induction with
  | list items ih =>
      rw [substitute_list, substituteItems_eq, Value.skeleton_list, Value.skeleton_list,
        List.map_map]
      exact congrArg Value.list (List.map_congr_left ih)
  | map entries ih =>
      rw [substitute_map, substituteEntries_eq, Value.skeleton_map, Value.skeleton_map,
        Entries.mapValues, Entries.mapValues, List.map_map]
      exact congrArg Value.map (List.map_congr_left fun entry hentry =>
        congrArg (Prod.mk entry.1) (ih entry hentry))
  | _ => rfl

theorem texts_substitute : (substitute environment value).1.texts =
    value.texts.map fun characters => (substituteText environment characters).1 := by
  induction value using Value.inside_induction with
  | list items ih =>
      rw [substitute_list, substituteItems_eq, Value.texts_list, Value.texts_list,
        List.flatMap_map, List.map_flatMap]
      exact List.flatMap_congr ih
  | map entries ih =>
      rw [substitute_map, substituteEntries_eq, Value.texts_map, Value.texts_map,
        Entries.mapValues, List.flatMap_map, List.map_flatMap]
      exact List.flatMap_congr ih
  | _ => rfl

theorem unset_substitute : (substitute environment value).2 =
    value.texts.flatMap fun characters => (substituteText environment characters).2 := by
  induction value using Value.inside_induction with
  | text characters => exact (List.append_nil _).symm
  | list items ih =>
      rw [substitute_list, substituteItems_eq, Value.texts_list, List.flatMap_assoc]
      exact List.flatMap_congr ih
  | map entries ih =>
      rw [substitute_map, substituteEntries_eq, Value.texts_map, List.flatMap_assoc]
      exact List.flatMap_congr ih
  | _ => rfl

theorem substitute_of_texts {value : Value} (h : ∀ characters ∈ value.texts,
      (substituteText environment characters).1 = characters) :
    (substitute environment value).1 = value := by
  induction value using Value.inside_induction with
  | text characters =>
      exact congrArg Value.text (h characters (List.mem_singleton_self characters))
  | list items ih =>
      rw [Value.texts_list] at h
      rw [substitute_list, substituteItems_eq]
      have hsame : items.map (fun item => (substitute environment item).1) = items.map id :=
        List.map_congr_left fun item hitem => ih item hitem fun characters hmem =>
          h characters (List.mem_flatMap.mpr ⟨item, hitem, hmem⟩)
      rw [hsame, List.map_id]
  | map entries ih =>
      rw [Value.texts_map] at h
      have hsame : Entries.mapValues (fun value => (substitute environment value).1) entries =
          entries.map id :=
        List.map_congr_left fun entry hentry => congrArg (Prod.mk entry.1) <|
          ih entry hentry fun characters hmem =>
            h characters (List.mem_flatMap.mpr ⟨entry, hentry, hmem⟩)
      rw [substitute_map, substituteEntries_eq, hsame, List.map_id]
  | _ => rfl

end

/-! ### One pass -/

theorem exists_cut (characters : String) : ∃ cut : Cut, cut.text = characters.toList ∧
    cut.IsLeftmost ∧ ∀ environment, substituteText environment characters =
      (String.ofList (cut.replaced environment), cut.unset environment) := by
  obtain ⟨cut, hcut, hleftmost, hreplaced⟩ := exists_isOf characters.toList .outside trivial
  refine ⟨cut, hcut, hleftmost, fun environment => ?_⟩
  rw [substituteText, hreplaced]

/-- The references in a value are replaced in one pass. Every text in it is cut at its references from
left to right, whatever the environment is. Then all besides the texts stays as it is, in each text the
values of the variables stand for the references, the references to other variables stay and are missed
in their order, and without a variable for any reference the value stays as it is. -/
theorem replaces_in_one_pass (value : Value) : ∃ cuts : List Cut,
    List.Forall₂ (fun characters cut => cut.text = characters.toList ∧ cut.IsLeftmost)
        value.texts cuts ∧
      ∀ environment : Environment,
        (substitute environment value).1.skeleton = value.skeleton ∧
        (substitute environment value).1.texts =
          cuts.map (fun cut => String.ofList (cut.replaced environment)) ∧
        (substitute environment value).2 = cuts.flatMap (Cut.unset environment) ∧
        ((∀ cut ∈ cuts, ∀ name ∈ cut.names, environment.get? name = none) →
          (substitute environment value).1 = value) := by
  choose cutOf htext hleftmost hreplaced using exists_cut
  refine ⟨value.texts.map cutOf, ?_, fun environment => ⟨skeleton_substitute environment value,
    ?_, ?_, fun hunset => ?_⟩⟩
  · rw [List.forall₂_map_right_iff, List.forall₂_same]
    exact fun characters _ => ⟨htext characters, hleftmost characters⟩
  · rw [texts_substitute, List.map_map]
    exact List.map_congr_left fun characters _ => congrArg Prod.fst (hreplaced characters environment)
  · rw [unset_substitute, List.flatMap_map]
    exact List.flatMap_congr fun characters _ => congrArg Prod.snd (hreplaced characters environment)
  · refine substitute_of_texts environment fun characters hmem => ?_
    rw [hreplaced, Cut.replaced_eq_text (hunset _ (List.mem_map_of_mem hmem)), htext,
      String.ofList_toList]

end Config

end Cascade
