import Cascade.Arguments.Reader
import Cascade.Proofs.Reading.Lexing

/-!
Reading the members of an object from a text that is put between braces. The text is a member list, or
a member list that the text closes itself: then a line comment hides the brace that was put after it,
and what the comment says is lost.
-/

namespace Cascade.Literal

/-- What is read from the front of tokens is what the tokens denote, for each way of reading and any
fuel. -/
structure ReadsDenoted (fuel : Nat) : Prop where
  value : ∀ {tokens rest : List Token} {value : Value}, value? fuel tokens = some (value, rest) →
    ∃ used, tokens = used ++ rest ∧ Denotes used value
  members : ∀ {tokens rest : List Token} {pairs : List (String × Value)},
    members? fuel tokens = some (pairs, rest) →
      ∃ used, tokens = used ++ .closeBrace :: rest ∧ DenotesMembers used pairs
  items : ∀ {tokens rest : List Token} {values : List Value},
    items? fuel tokens = some (values, rest) →
      ∃ used, tokens = used ++ .closeBracket :: rest ∧ DenotesItems used values

section

variable {fuel : Nat} {tokens rest : List Token}

namespace ReadsDenoted

theorem value_succ (ih : ReadsDenoted fuel) {value : Value}
    (h : value? (fuel + 1) tokens = some (value, rest)) :
    ∃ used, tokens = used ++ rest ∧ Denotes used value := by
  rw [value?.eq_def] at h
  dsimp only at h
  split at h
  · obtain ⟨rfl, rfl⟩ := Prod.mk.inj (Option.some.inj h)
    exact ⟨_, rfl, .text _⟩
  · obtain ⟨rfl, rfl⟩ := Prod.mk.inj (Option.some.inj h)
    exact ⟨_, rfl, .number _⟩
  · obtain ⟨constant, hconstant, h⟩ := Option.map_eq_some_iff.mp h
    obtain ⟨rfl, rfl⟩ := Prod.mk.inj h
    exact ⟨_, rfl, .constant hconstant⟩
  · obtain ⟨⟨pairs, after⟩, hmembers, h⟩ := Option.map_eq_some_iff.mp h
    obtain ⟨rfl, rfl⟩ := Prod.mk.inj h
    obtain ⟨used, rfl, hused⟩ := ih.members hmembers
    exact ⟨_, by simp, .object hused⟩
  · obtain ⟨⟨values, after⟩, hitems, h⟩ := Option.map_eq_some_iff.mp h
    obtain ⟨rfl, rfl⟩ := Prod.mk.inj h
    obtain ⟨used, rfl, hused⟩ := ih.items hitems
    exact ⟨_, by simp, .list hused⟩
  · cases h

theorem member_succ (ih : ReadsDenoted fuel) {key : Token} {name : String}
    (hkey : NamesMember key name) {pairs : List (String × Value)}
    (h : (match value? fuel tokens with
      | some (value, .comma :: rest) =>
          (members? fuel rest).map fun (pairs, rest) => ((name, value) :: pairs, rest)
      | some (value, .closeBrace :: rest) => some ([(name, value)], rest)
      | _ => none) = some (pairs, rest)) :
    ∃ used, key :: .colon :: tokens = used ++ .closeBrace :: rest ∧ DenotesMembers used pairs := by
  split at h
  · rename_i value after hvalue
    obtain ⟨⟨others, last⟩, hmembers, h⟩ := Option.map_eq_some_iff.mp h
    obtain ⟨rfl, rfl⟩ := Prod.mk.inj h
    obtain ⟨used, rfl, hused⟩ := ih.value hvalue
    obtain ⟨more, rfl, hmore⟩ := ih.members hmembers
    exact ⟨_, by simp, .member hkey hused hmore⟩
  · rename_i value after hvalue
    obtain ⟨rfl, rfl⟩ := Prod.mk.inj (Option.some.inj h)
    obtain ⟨used, rfl, hused⟩ := ih.value hvalue
    exact ⟨_, by simp, .last hkey hused⟩
  · cases h

theorem members_succ (ih : ReadsDenoted fuel) {pairs : List (String × Value)}
    (h : members? (fuel + 1) tokens = some (pairs, rest)) :
    ∃ used, tokens = used ++ .closeBrace :: rest ∧ DenotesMembers used pairs := by
  rw [members?.eq_def] at h
  dsimp only at h
  split at h
  · obtain ⟨rfl, rfl⟩ := Prod.mk.inj (Option.some.inj h)
    exact ⟨[], rfl, .none⟩
  · exact ih.member_succ (.text _) h
  · exact ih.member_succ (.word _ _) h
  · cases h

theorem items_succ (ih : ReadsDenoted fuel) {values : List Value}
    (h : items? (fuel + 1) tokens = some (values, rest)) :
    ∃ used, tokens = used ++ .closeBracket :: rest ∧ DenotesItems used values := by
  rw [items?.eq_def] at h
  dsimp only at h
  split at h
  · obtain ⟨rfl, rfl⟩ := Prod.mk.inj (Option.some.inj h)
    exact ⟨[], rfl, .none⟩
  split at h
  · rename_i value after hvalue
    obtain ⟨⟨others, last⟩, hitems, h⟩ := Option.map_eq_some_iff.mp h
    obtain ⟨rfl, rfl⟩ := Prod.mk.inj h
    obtain ⟨used, rfl, hused⟩ := ih.value hvalue
    obtain ⟨more, rfl, hmore⟩ := ih.items hitems
    exact ⟨_, by simp, .item hused hmore⟩
  · rename_i value after hvalue
    obtain ⟨rfl, rfl⟩ := Prod.mk.inj (Option.some.inj h)
    obtain ⟨used, rfl, hused⟩ := ih.value hvalue
    exact ⟨_, rfl, .last hused⟩
  · cases h

end ReadsDenoted

theorem readsDenoted (fuel : Nat) : ReadsDenoted fuel := by
  induction fuel with
  | zero =>
      refine ⟨fun h => ?_, fun h => ?_, fun h => ?_⟩
      · rw [value?] at h
        cases h
      · rw [members?] at h
        cases h
      · rw [items?] at h
        cases h
  | succ fuel ih => exact ⟨ih.value_succ, ih.members_succ, ih.items_succ⟩

end

/-! ### Braces -/

theorem spells_openBrace {rest : List Char} {token : Token} (h : Spells ('\x7b' :: rest) token) :
    token = .openBrace ∧ rest = [] := by
  cases h with
  | openBrace => exact ⟨rfl, rfl⟩
  | text hmark hquotes => rcases hmark with hmark | hmark <;> cases hmark
  | number hfirst hread => exact absurd hfirst (by decide)
  | word hfirst hfollows => exact absurd hfirst (by decide +kernel)

theorem spells_closeBrace {rest : List Char} {token : Token} (h : Spells ('\x7d' :: rest) token) :
    token = .closeBrace ∧ rest = [] := by
  cases h with
  | closeBrace => exact ⟨rfl, rfl⟩
  | text hmark hquotes => rcases hmark with hmark | hmark <;> cases hmark
  | number hfirst hread => exact absurd hfirst (by decide)
  | word hfirst hfollows => exact absurd hfirst (by decide +kernel)

theorem Spells.ne_nil {spelling : List Char} {token : Token} (h : Spells spelling token) :
    spelling ≠ [] := by
  cases h <;> simp

theorem lexes_cons {character : Char} {text front : List Char} {tokens : List Token}
    (hblank : Token.isBlank character = false) (hslash : character ≠ '/')
    (h : Lexes front tokens) (hfront : front = character :: text) :
    ∃ spelling rest token later, text = spelling ++ rest ∧ tokens = token :: later ∧
      Spells (character :: spelling) token ∧ Lexes rest later := by
  cases h with
  | none => cases hfront
  | @token gap spelling rest token later hgap hspells hrest =>
      cases gap with
      | nil =>
          cases spelling with
          | nil => exact absurd rfl hspells.ne_nil
          | cons first spelling =>
              obtain ⟨rfl, rfl⟩ := List.cons.inj hfront
              exact ⟨spelling, rest, token, later, rfl, rfl, hspells, hrest⟩
      | cons first gap =>
          obtain ⟨rfl, -⟩ := List.cons.inj hfront
          rcases hgap.head with h | h
          · rw [hblank] at h
            cases h
          · exact absurd h hslash

theorem Token.IsTail.head {character : Char} {text : List Char}
    (h : Token.IsTail (character :: text)) : Token.isBlank character = true ∨ character = '/' := by
  rcases h with h | ⟨gap, comment, htext, hgap, -⟩
  · exact h.head
  · cases gap with
    | nil => exact .inr (List.cons.inj htext).1
    | cons first gap =>
        obtain ⟨rfl, -⟩ := List.cons.inj htext
        exact hgap.head

theorem isWritten_openBrace {text : List Char} {tokens : List Token}
    (h : Token.IsWritten ('\x7b' :: text) tokens) :
    ∃ later, tokens = .openBrace :: later ∧ Token.IsWritten text later := by
  obtain ⟨front, tail, htext, hfront, htail⟩ := h
  cases front with
  | nil =>
      rw [List.nil_append] at htext
      rcases (htext ▸ htail).head with h | h
      · exact absurd h (by decide)
      · cases h
  | cons first front =>
      obtain ⟨rfl, rfl⟩ := List.cons.inj htext
      obtain ⟨spelling, rest, token, later, rfl, rfl, hspells, hrest⟩ :=
        lexes_cons (by decide) (by decide) hfront rfl
      obtain ⟨rfl, rfl⟩ := spells_openBrace hspells
      exact ⟨later, rfl, rest, tail, rfl, hrest, htail⟩

theorem Token.IsTail.of_append_closeBrace {text : List Char}
    (h : Token.IsTail (text ++ ['\x7d'])) :
    ∃ gap comment, text = gap ++ '/' :: '/' :: comment ∧ IsGap gap ∧
      ∀ character ∈ comment, Token.endsLine character = false := by
  rcases h with h | ⟨gap, comment, htext, hgap, hcomment⟩
  · rcases h.getLast (List.getLast?_concat ..) with h | h | h
    · exact absurd h (by decide)
    · exact absurd h (by decide)
    · cases h
  · rcases List.eq_nil_or_concat comment with rfl | ⟨comment, last, rfl⟩
    · have hslash : (text ++ ['\x7d']).getLast? = (gap ++ ['/', '/']).getLast? := congrArg _ htext
      simp at hslash
    · rw [List.concat_eq_append, ← List.cons_append, ← List.cons_append, ← List.append_assoc] at htext
      obtain ⟨rfl, -⟩ := List.append_inj' htext rfl
      refine ⟨gap, comment, rfl, hgap, fun character hmem => hcomment character ?_⟩
      rw [List.concat_eq_append]
      exact List.mem_append_left _ hmem

theorem exists_tokens_of_readMembers? {body : List Char} {entries : Entries Value}
    (h : readMembers? body = some entries) :
    ∃ used, (∃ pairs, entries = Entries.ofList pairs ∧ DenotesMembers used pairs) ∧
      Token.IsWritten (body ++ ['\x7d']) (used ++ [.closeBrace]) := by
  have hread : read? ('\x7b' :: body ++ ['\x7d']) = some (.map entries) := by
    rw [readMembers?] at h
    split at h
    · rename_i others hread
      rw [hread, Option.some.inj h]
    · cases h
  rw [read?] at hread
  obtain ⟨tokens, hscan, hread⟩ := Option.bind_eq_some_iff.mp hread
  split at hread
  · rename_i value hvalue
    obtain rfl := Option.some.inj hread
    obtain ⟨used, rfl, hused⟩ := (readsDenoted _).value hvalue
    rw [List.append_nil] at hscan
    obtain ⟨later, rfl, hlater⟩ := isWritten_openBrace (Token.isWritten_of_scanFrom? hscan)
    cases hused with
    | object hmembers => exact ⟨_, ⟨_, rfl, hmembers⟩, hlater⟩
  · cases hread

/-- A text is read as the members of an object. Then it is a member list and every pair of it counts,
or it is a member list, a closing brace and a line comment, and then every pair before the brace
counts. -/
theorem member_list_of_read {body : List Char} {entries : Entries Value}
    (h : readMembers? body = some entries) :
    ∃ pairs, entries = Entries.ofList pairs ∧
      (IsMemberList body pairs ∨
        ∃ members gap comment, body = members ++ '\x7d' :: (gap ++ '/' :: '/' :: comment) ∧
          IsMemberList members pairs ∧ IsGap gap ∧
            ∀ character ∈ comment, Token.endsLine character = false) := by
  obtain ⟨used, ⟨pairs, rfl, hpairs⟩, hwritten⟩ := exists_tokens_of_readMembers? h
  obtain ⟨front, tail, htext, hfront, htail⟩ := hwritten
  obtain ⟨first, last, rfl, hfirst, hlast⟩ := hfront.split
  obtain ⟨gap, spelling, rfl, hgap, hspells⟩ := hlast.singleton
  obtain rfl : spelling = ['\x7d'] := by
    cases hspells
    rfl
  have hlist : IsMemberList (first ++ gap) pairs := ⟨first, gap, used, rfl, hfirst, hgap, hpairs⟩
  refine ⟨pairs, rfl, ?_⟩
  -- The brace of the last token is the one put after the text exactly if nothing follows it.
  rcases List.eq_nil_or_concat tail with rfl | ⟨more, ending, rfl⟩
  · rw [List.append_nil, ← List.append_assoc] at htext
    obtain ⟨rfl, -⟩ := List.append_inj' htext rfl
    exact .inl hlist
  · rw [List.concat_eq_append] at htext htail
    rw [← List.append_assoc] at htext
    obtain ⟨rfl, hending⟩ := List.append_inj' htext rfl
    obtain ⟨between, comment, rfl, hbetween, hcomment⟩ :=
      Token.IsTail.of_append_closeBrace (hending ▸ htail)
    exact .inr ⟨first ++ gap, between, comment, by simp, hlist, hbetween, hcomment⟩

/-- Two pairs with a comment between them, and a comma after the items of a list. -/
def commentedPairs : List Char :=
  "a: 1, /* \x7d */ 'b': [true, ]".toList

theorem member_list_of_read_commentedPairs :
    ∃ entries, readMembers? commentedPairs = some entries ∧
      ∃ pairs, entries = Entries.ofList pairs ∧
        (IsMemberList commentedPairs pairs ∨
          ∃ members gap comment,
            commentedPairs = members ++ '\x7d' :: (gap ++ '/' :: '/' :: comment) ∧
              IsMemberList members pairs ∧ IsGap gap ∧
                ∀ character ∈ comment, Token.endsLine character = false) := by
  have hread : (readMembers? commentedPairs).isSome = true := by decide +kernel
  obtain ⟨entries, hentries⟩ := Option.isSome_iff_exists.mp hread
  exact ⟨entries, hentries, member_list_of_read hentries⟩

/-- A text that closes the object itself and goes on with a line comment is read without the comment,
although it is no member list. -/
theorem comment_after_brace_dropped :
    readMembers? "\x7d // a: 1".toList = some [] ∧
      ¬ ∃ pairs, IsMemberList "\x7d // a: 1".toList pairs := by
  refine ⟨rfl, ?_⟩
  rintro ⟨pairs, front, gap, tokens, htext, hfront, hgap, hmembers⟩
  cases front with
  | nil =>
      obtain rfl := htext
      have hstart : IsGap ('\x7d' :: " // a: 1".toList) := hgap
      rcases hstart.head with h | h
      · exact absurd h (by decide)
      · cases h
  | cons first front =>
      obtain ⟨hfirst, -⟩ := List.cons.inj htext
      obtain ⟨spelling, rest, token, later, -, rfl, hspells, -⟩ :=
        lexes_cons (by decide) (by decide) hfront (congrArg (· :: front) hfirst.symm)
      obtain ⟨rfl, -⟩ := spells_closeBrace hspells
      cases hmembers with
      | last hkey _ => cases hkey
      | member hkey _ _ => cases hkey

end Cascade.Literal
