import Cascade.Proofs.Reading.Bare
import Mathlib.Data.List.TakeWhile

/-!
The two readings of named values agree: a text without escapes that is both the members of an object
and relaxed pairs has the same entries either way. An escape makes the difference: between quotation
marks it stands for another character in an object, and for itself in a relaxed pair.
-/

namespace Cascade.Arguments.Pair

open Literal (NamesMember Token value? members?)
open Literal.Token (IsBare scanFrom? separates)

/-- The tokens of a relaxed value in an object: a quoted text, or a bare value that stands for what a
single one of its tokens denotes. -/
inductive Leaves : List Token → Value → Prop
  | quoted (characters : String) : Leaves [.text characters] (.text characters)
  | bare {tokens : List Token} {value : Value} (hbare : ∀ token ∈ tokens, IsBare token)
      (hvalue : ∀ token, tokens = [token] → ∀ fuel scalar rest,
        value? (fuel + 1) (token :: rest) = some (scalar, rest) → scalar = value) :
      Leaves tokens value

def IsUnquoted (text : List Char) : Prop :=
  '\'' ∉ text ∧ '"' ∉ text

theorem IsUnquoted.of_subset {text part : List Char} (h : IsUnquoted text) (hsubset : part ⊆ text) :
    IsUnquoted part :=
  h.imp (mt (hsubset ·)) (mt (hsubset ·))

/-- A text in which nothing that is quoted has an escape: it has no backslash or no quotation mark. -/
def IsUnescaped (text : List Char) : Prop :=
  '\\' ∈ text → IsUnquoted text

theorem IsUnescaped.of_subset {text part : List Char} (h : IsUnescaped text) (hsubset : part ⊆ text) :
    IsUnescaped part := fun hescape =>
  (h (hsubset hescape)).of_subset hsubset

theorem IsUnescaped.of_suffix {text part : List Char} (h : IsUnescaped text) (hsuffix : part <:+ text) :
    IsUnescaped part :=
  h.of_subset hsuffix.subset

/-- An identifier. -/
inductive IsKey : List Char → Prop
  | intro {first : Char} {rest : List Char} (hfirst : startsKey first = true)
      (hrest : ∀ character ∈ rest, continuesKey character = true) : IsKey (first :: rest)

instance : DecidablePred IsKey
  | [] => .isFalse nofun
  | first :: rest =>
      decidable_of_iff (startsKey first = true ∧ rest.all continuesKey = true)
        ⟨fun h => .intro h.1 (List.all_eq_true.mp h.2),
          fun (.intro hfirst hrest) => ⟨hfirst, List.all_eq_true.mpr hrest⟩⟩

section

variable {piece text rest : List Char} {tokens : List Token}

theorem readKey?_of_isKey {key : List Char} (hkey : IsKey key)
    (hrest : ∀ character ∈ rest.head?, continuesKey character = false) :
    readKey? (key ++ rest) = some (key, rest) := by
  have hstop : rest.takeWhile continuesKey = [] ∧ rest.dropWhile continuesKey = rest := by
    cases rest with
    | nil => exact ⟨rfl, rfl⟩
    | cons first others => simp [hrest first rfl]
  cases hkey with
  | intro hfirst hfollows =>
      rw [List.cons_append, readKey?, if_pos hfirst, List.takeWhile_append_of_pos hfollows,
        List.dropWhile_append_of_pos hfollows, hstop.1, hstop.2, List.append_nil]

theorem read?_of_scan? {token : Token} {value : Value} (hscan : Token.scan? text = some [token])
    (hvalue : value? 2 [token] = some (value, [])) : Literal.read? text = some value := by
  have hlength : value? ([token].length + 1) [token] = some (value, []) := hvalue
  rw [Literal.read?, hscan, Option.bind_eq_bind, Option.bind_some, hlength]

theorem bareValue_of_scan? {token : Token} (hscan : Token.scan? text = some [token])
    (hbare : IsBare token) {fuel : Nat} {scalar : Value} {after : List Token}
    (h : value? (fuel + 1) (token :: after) = some (scalar, after)) : scalar = bareValue text := by
  cases hbare with
  | integer number =>
      rw [value?] at h
      obtain ⟨rfl, -⟩ := Prod.mk.inj (Option.some.inj h)
      rw [bareValue, read?_of_scan? hscan (by rw [value?])]
  | float number =>
      rw [value?] at h
      obtain ⟨rfl, -⟩ := Prod.mk.inj (Option.some.inj h)
      rw [bareValue, read?_of_scan? hscan (by rw [value?])]
  | word name plain =>
      cases plain with
      | false => simp [value?] at h
      | true =>
          rw [value?] at h
          obtain ⟨value, hvalue, hscalar⟩ := Option.map_eq_some_iff.mp h
          obtain ⟨rfl, -⟩ := Prod.mk.inj hscalar
          rw [bareValue, read?_of_scan? hscan (by rw [value?, hvalue, Option.map_some])]
          rw [Literal.constant?] at hvalue
          repeat' split at hvalue
          all_goals cases hvalue <;> rfl

theorem readQuoted?_eq_some {inner after : List Char} (h : readQuoted? text = some (inner, after)) :
    ∃ mark, (mark = '"' ∨ mark = '\'') ∧ text = mark :: (inner ++ mark :: after) ∧ mark ∉ inner := by
  cases text with
  | nil => cases h
  | cons mark rest =>
      rw [readQuoted?] at h
      split at h
      · rename_i hmark
        split at h
        · rename_i closing beyond hclosing
          obtain ⟨rfl, rfl⟩ := Prod.mk.inj (Option.some.inj h)
          have hsame : closing = mark := by
            have hhead := List.head?_dropWhile_not (· != mark) rest
            rw [hclosing] at hhead
            simpa using hhead
          subst hsame
          refine ⟨closing, by simpa [or_comm] using hmark, ?_, fun hmem => ?_⟩
          · rw [← hclosing, List.takeWhile_append_dropWhile]
          · simpa using List.mem_takeWhile_imp hmem
        · cases h
      · cases h

theorem readQuoted?_of_isUnquoted (h : IsUnquoted text) : readQuoted? text = none := by
  rw [Option.eq_none_iff_forall_ne_some]
  rintro ⟨inner, after⟩ hquoted
  obtain ⟨mark, hmark, rfl, -⟩ := readQuoted?_eq_some hquoted
  rcases hmark with rfl | rfl
  · exact h.2 List.mem_cons_self
  · exact h.1 List.mem_cons_self

theorem isKey_of_readKey? {key afterKey : List Char} (hunquoted : IsUnquoted text)
    (h : readKey? text = some (key, afterKey)) :
    IsKey key ∧ text = key ++ afterKey ∧
      ∀ character ∈ afterKey.head?, continuesKey character = false := by
  cases text with
  | nil => cases h
  | cons first others =>
      rw [readKey?] at h
      split at h
      · rename_i hstarts
        obtain ⟨rfl, rfl⟩ := Prod.mk.inj (Option.some.inj h)
        refine ⟨.intro hstarts fun _ hmem => List.mem_takeWhile_imp hmem, ?_, fun character hmem => ?_⟩
        · rw [List.cons_append, List.takeWhile_append_dropWhile]
        · have hhead := List.head?_dropWhile_not continuesKey others
          rw [Option.mem_def.mp hmem] at hhead
          simpa using hhead
      · rw [readQuoted?_of_isUnquoted hunquoted] at h
        cases h

theorem exists_blanks (text : List Char) :
    ∃ blanks, Text.Blank.isAllBlank blanks = true ∧ text = blanks ++ Text.Blank.trimLeft text :=
  ⟨text.takeWhile Text.Blank.isBlank, List.all_takeWhile, (List.takeWhile_append_dropWhile ..).symm⟩

theorem text_of_readQuoted? {inner after : List Char} (hescape : IsUnescaped text)
    (hquoted : readQuoted? text = some (inner, after))
    (h : scanFrom? .between (text ++ rest) = some tokens) :
    ∃ later, scanFrom? .between (after ++ rest) = some later ∧
      tokens = .text (String.ofList inner) :: later := by
  obtain ⟨mark, hmark, rfl, hinner⟩ := readQuoted?_eq_some hquoted
  rw [List.cons_append, List.append_assoc, List.cons_append] at h
  obtain ⟨next, now, later, hstep, hlater, rfl⟩ := Token.scanFrom?_cons h
  have hbegin : Token.step? .between mark = some (.inText mark [] .ordinary, []) := by
    rcases hmark with rfl | rfl <;> rfl
  rw [hbegin] at hstep
  obtain ⟨rfl, rfl⟩ := Prod.mk.inj (Option.some.inj hstep)
  have hplain : '\\' ∉ inner := by
    intro hmem
    obtain ⟨hsingle, hdouble⟩ := hescape (by simp [hmem])
    rcases hmark with rfl | rfl
    · exact hdouble List.mem_cons_self
    · exact hsingle List.mem_cons_self
  obtain ⟨last, hlast, rfl⟩ := Token.quoted_of_scanFrom? hinner hplain hlater
  exact ⟨last, hlast, rfl⟩

theorem leaves_of_readValue? {value : Value} {stop : Char} (hstop : separates stop = true)
    (hescape : IsUnescaped text) (hcomma : ',' ∉ text) (hvalue : readValue? text = some value)
    (h : scanFrom? .between (text ++ stop :: rest) = some tokens) :
    ∃ used later, Leaves used value ∧ scanFrom? .between (stop :: rest) = some later ∧
      tokens = used ++ later := by
  rw [readValue?] at hvalue
  split at hvalue
  · rename_i quoted after hquoted
    split at hvalue
    · rename_i hafter
      obtain rfl := Option.some.inj hvalue
      obtain ⟨blanks, hblanks, htext⟩ := exists_blanks text
      rw [htext, List.append_assoc] at h
      obtain ⟨later, hlater, rfl⟩ :=
        text_of_readQuoted? (hescape.of_suffix (List.dropWhile_suffix _)) hquoted
          (Token.scanFrom?_blanks hblanks h)
      exact ⟨_, later, .quoted _, Token.scanFrom?_blanks hafter hlater, rfl⟩
    · cases hvalue
  · rename_i hbare
    split at hvalue
    · cases hvalue
    · rename_i hplain
      obtain rfl := Option.some.inj hvalue
      have htext : ∀ character ∈ text, Token.isReserved character = false := by
        intro character hmem
        rw [Bool.not_eq_true, Bool.or_eq_false_iff, List.any_eq_false] at hplain
        have hcharacter : character ≠ ',' := fun h => hcomma (h ▸ hmem)
        simp [Token.isReserved, hplain.2 character hmem, hcharacter]
      obtain ⟨used, later, hused, hall, hlater, rfl⟩ := Token.bare_of_scanFrom? rfl htext hstop h
      refine ⟨used, later, .bare hall fun token hsingle fuel scalar after hread => ?_, hlater, rfl⟩
      subst hsingle
      exact bareValue_of_scan? (Token.scan?_trim htext hused) (hall token (by simp)) hread

theorem colon_of_scanFrom? {after : List Char} (hcolon : Text.Blank.trimLeft text = ':' :: after)
    (h : scanFrom? .between (text ++ rest) = some tokens) :
    ∃ later, scanFrom? .between (after ++ rest) = some later ∧ tokens = .colon :: later := by
  obtain ⟨blanks, hblanks, htext⟩ := exists_blanks text
  rw [htext, hcolon, List.append_assoc] at h
  obtain ⟨next, now, later, hstep, hlater, rfl⟩ :=
    Token.scanFrom?_cons (Token.scanFrom?_blanks hblanks h)
  have hbegin : Token.step? .between ':' = some (.between, [.colon]) := rfl
  rw [hbegin] at hstep
  obtain ⟨rfl, rfl⟩ := Prod.mk.inj (Option.some.inj hstep)
  exact ⟨later, hlater, rfl⟩

theorem exists_cons_of_trimLeft {after : List Char}
    (hcolon : Text.Blank.trimLeft text = ':' :: after) :
    ∃ first others, text = first :: others ∧ separates first = true := by
  cases text with
  | nil => cases hcolon
  | cons first others =>
      refine ⟨first, others, rfl, ?_⟩
      by_cases hblank : Text.Blank.isBlank first = true
      · exact Token.separates_of_isBlank hblank
      · rw [Text.Blank.trimLeft_of_not_isBlank (by simpa using hblank)] at hcolon
        obtain ⟨rfl, -⟩ := List.cons.inj hcolon
        decide +kernel

theorem key_of_readKey? {key afterKey after : List Char} (hescape : IsUnescaped text)
    (hkey : readKey? text = some (key, afterKey))
    (hcolon : Text.Blank.trimLeft afterKey = ':' :: after)
    (h : scanFrom? .between (text ++ rest) = some tokens) :
    ∃ token later, NamesMember token (String.ofList key) ∧
      scanFrom? .between (afterKey ++ rest) = some later ∧ tokens = token :: later := by
  cases text with
  | nil => cases hkey
  | cons first others =>
      rw [readKey?] at hkey
      split at hkey
      · rename_i hstarts
        obtain ⟨rfl, rfl⟩ := Prod.mk.inj (Option.some.inj hkey)
        rw [List.cons_append] at h
        obtain ⟨next, now, later, hstep, hlater, rfl⟩ := Token.scanFrom?_cons h
        rw [Token.step?, Token.begin?_of_startsKey hstarts] at hstep
        obtain ⟨rfl, rfl⟩ := Prod.mk.inj (Option.some.inj hstep)
        obtain ⟨separator, beyond, hafter, hseparates⟩ := exists_cons_of_trimLeft hcolon
        rw [← List.takeWhile_append_dropWhile (p := continuesKey) (l := others), hafter,
          List.append_assoc] at hlater
        obtain ⟨last, hlast, rfl⟩ :=
          Token.key_of_scanFrom? (fun _ hmem => List.mem_takeWhile_imp hmem) hseparates hlater
        exact ⟨_, last, .word _ true, by rwa [hafter], rfl⟩
      · obtain ⟨later, hlater, rfl⟩ := text_of_readQuoted? hescape hkey h
        exact ⟨_, later, .text _, hlater, rfl⟩

theorem readKey?_suffix {key afterKey : List Char} (h : readKey? text = some (key, afterKey)) :
    afterKey <:+ text := by
  cases text with
  | nil => cases h
  | cons first others =>
      rw [readKey?] at h
      split at h
      · obtain ⟨rfl, rfl⟩ := Prod.mk.inj (Option.some.inj h)
        exact (List.dropWhile_suffix _).trans (List.suffix_cons ..)
      · obtain ⟨mark, -, htext, -⟩ := readQuoted?_eq_some h
        exact ⟨mark :: (key ++ [mark]), by simp [htext]⟩

theorem leaves_of_read? {key : String} {value : Value} {stop : Char} (hstop : separates stop = true)
    (hescape : IsUnescaped piece) (hcomma : ',' ∉ piece) (hpair : read? piece = some (key, value))
    (h : scanFrom? .between (piece ++ stop :: rest) = some tokens) :
    ∃ token used later, NamesMember token key ∧ Leaves used value ∧
      scanFrom? .between (stop :: rest) = some later ∧ tokens = token :: .colon :: (used ++ later) := by
  obtain ⟨⟨name, afterKey⟩, hkey, hpair⟩ := Option.bind_eq_some_iff.mp hpair
  dsimp only at hpair
  split at hpair
  · rename_i after hcolon
    obtain ⟨found, hvalue, hpair⟩ := Option.bind_eq_some_iff.mp hpair
    obtain ⟨rfl, rfl⟩ := Prod.mk.inj (Option.some.inj hpair)
    obtain ⟨blanks, hblanks, hpiece⟩ := exists_blanks piece
    have hcolonSuffix : ':' :: after <:+ afterKey := hcolon ▸ List.dropWhile_suffix _
    have hkeySuffix : afterKey <:+ piece := (readKey?_suffix hkey).trans (List.dropWhile_suffix _)
    have hsuffix : after <:+ piece := (List.suffix_cons ..).trans (hcolonSuffix.trans hkeySuffix)
    have hplain : IsUnescaped (Text.Blank.trimLeft piece) :=
      hescape.of_suffix (List.dropWhile_suffix _)
    rw [hpiece, List.append_assoc] at h
    obtain ⟨token, later, htoken, hlater, rfl⟩ :=
      key_of_readKey? hplain hkey hcolon (Token.scanFrom?_blanks hblanks h)
    obtain ⟨last, hlast, rfl⟩ := colon_of_scanFrom? hcolon hlater
    obtain ⟨used, tail, hused, htail, rfl⟩ := leaves_of_readValue? hstop
      (hescape.of_suffix hsuffix) (fun hmem => hcomma (hsuffix.subset hmem)) hvalue hlast
    exact ⟨token, used, tail, htoken, hused, htail, rfl⟩
  · cases hpair

/-- A mark that ends a member. -/
inductive EndsMember : Char → Token → Prop
  | comma : EndsMember ',' .comma
  | closeBrace : EndsMember '\x7d' .closeBrace

theorem value?_of_isBare {token : Token} (hbare : IsBare token) {fuel : Nat} {scalar : Value}
    {after later : List Token} (h : value? (fuel + 1) (token :: later) = some (scalar, after)) :
    after = later := by
  cases hbare with
  | integer number =>
      rw [value?] at h
      exact (Prod.mk.inj (Option.some.inj h)).2.symm
  | float number =>
      rw [value?] at h
      exact (Prod.mk.inj (Option.some.inj h)).2.symm
  | word name plain =>
      cases plain with
      | false => simp [value?] at h
      | true =>
          rw [value?] at h
          obtain ⟨value, -, hscalar⟩ := Option.map_eq_some_iff.mp h
          exact (Prod.mk.inj hscalar).2.symm

theorem Leaves.value_eq {used : List Token} {value scalar : Value} {fuel : Nat} {stop : Char}
    {ending last : Token} {after later : List Token} (hused : Leaves used value)
    (hending : EndsMember stop ending) (hlast : last = .comma ∨ last = .closeBrace)
    (h : value? fuel (used ++ ending :: later) = some (scalar, last :: after)) :
    scalar = value ∧ last = ending ∧ after = later := by
  cases fuel with
  | zero =>
      rw [value?] at h
      cases h
  | succ fuel =>
      cases hused with
      | quoted characters =>
          rw [List.singleton_append, value?] at h
          obtain ⟨rfl, htokens⟩ := Prod.mk.inj (Option.some.inj h)
          obtain ⟨rfl, rfl⟩ := List.cons.inj htokens
          exact ⟨rfl, rfl, rfl⟩
      | bare hbare hvalue =>
          cases used with
          | nil => cases hending <;> simp [value?] at h
          | cons token more =>
              have htokens := value?_of_isBare (hbare token List.mem_cons_self) h
              cases more with
              | nil =>
                  obtain ⟨rfl, rfl⟩ := List.cons.inj htokens
                  exact ⟨hvalue token rfl fuel scalar _ h, rfl, rfl⟩
              | cons next others =>
                  obtain ⟨rfl, -⟩ := List.cons.inj htokens
                  have hnext := hbare last (List.mem_cons_of_mem _ List.mem_cons_self)
                  rcases hlast with rfl | rfl <;> cases hnext

theorem members?_member {token : Token} {name : String} (hname : NamesMember token name) (fuel : Nat) :
    members? (fuel + 1) (token :: .colon :: tokens) =
      match value? fuel tokens with
      | some (value, .comma :: rest) =>
          (members? fuel rest).map fun (pairs, rest) => ((name, value) :: pairs, rest)
      | some (value, .closeBrace :: rest) => some ([(name, value)], rest)
      | _ => none := by
  cases hname <;> rfl

theorem members_eq {pieces : List (List Char)} {pairs others : List (String × Value)}
    {fuel : Nat} {after : List Token} (hescape : ∀ piece ∈ pieces, IsUnescaped piece)
    (hcomma : ∀ piece ∈ pieces, ',' ∉ piece) (hne : pieces ≠ [])
    (hpairs : pieces.mapM read? = some pairs)
    (hscan : scanFrom? .between (Text.Pieces.join [','] pieces ++ ['\x7d']) = some tokens)
    (hmembers : members? fuel tokens = some (others, after)) : others = pairs := by
  induction pieces generalizing pairs others fuel tokens with
  | nil => exact absurd rfl hne
  | cons piece pieces ih =>
      obtain ⟨⟨name, value⟩, hpiece, hpairs⟩ := Option.bind_eq_some_iff.mp
        ((List.mapM_cons ..).symm.trans hpairs)
      obtain ⟨more, hmore, hpairs⟩ := Option.bind_eq_some_iff.mp hpairs
      obtain rfl := Option.some.inj hpairs
      obtain ⟨hplain, hothers⟩ := List.forall_mem_cons.mp hescape
      obtain ⟨hwhole, hrest⟩ := List.forall_mem_cons.mp hcomma
      cases fuel with
      | zero =>
          rw [members?] at hmembers
          cases hmembers
      | succ fuel =>
          cases pieces with
          | nil =>
              obtain rfl : [] = more := Option.some.inj hmore
              obtain ⟨token, used, later, hname, hused, hlater, rfl⟩ :=
                leaves_of_read? (by decide +kernel) hplain hwhole hpiece hscan
              obtain rfl : [.closeBrace] = later := Option.some.inj hlater
              rw [members?_member hname] at hmembers
              split at hmembers
              · rename_i hvalue
                cases (hused.value_eq .closeBrace (.inl rfl) hvalue).2.1
              · rename_i hvalue
                obtain ⟨rfl, -, -⟩ := hused.value_eq .closeBrace (.inr rfl) hvalue
                exact (Prod.mk.inj (Option.some.inj hmembers)).1.symm
              · cases hmembers
          | cons next pieces =>
              rw [Text.Pieces.join, List.append_assoc, List.append_assoc] at hscan
              · obtain ⟨token, used, later, hname, hused, hlater, rfl⟩ :=
                  leaves_of_read? (by decide +kernel) hplain hwhole hpiece hscan
                obtain ⟨mode, now, last, hstep, hlast, rfl⟩ := Token.scanFrom?_cons hlater
                have hbegin : Token.step? .between ',' = some (.between, [.comma]) := rfl
                rw [hbegin] at hstep
                obtain ⟨rfl, rfl⟩ := Prod.mk.inj (Option.some.inj hstep)
                rw [members?_member hname] at hmembers
                split at hmembers
                · rename_i hvalue
                  obtain ⟨rfl, -, rfl⟩ := hused.value_eq .comma (.inl rfl) hvalue
                  obtain ⟨⟨found, last⟩, hfound, hmembers⟩ := Option.map_eq_some_iff.mp hmembers
                  obtain ⟨rfl, rfl⟩ := Prod.mk.inj hmembers
                  rw [ih hothers hrest (List.cons_ne_nil _ _) hmore hlast hfound]
                · rename_i hvalue
                  cases (hused.value_eq .comma (.inr rfl) hvalue).2.1
                · cases hmembers
              · exact List.cons_ne_nil _ _

end

theorem exists_members_of_readMembers? {body : List Char} {entries : Entries Value}
    (h : Literal.readMembers? body = some entries) :
    ∃ members, (∃ fuel tokens after, scanFrom? .between (body ++ ['\x7d']) = some tokens ∧
      members? fuel tokens = some (members, after)) ∧ entries = Entries.ofList members := by
  rw [Literal.readMembers?] at h
  split at h
  · rename_i found hread
    obtain rfl := Option.some.inj h
    obtain ⟨tokens, hscan, hread⟩ := Option.bind_eq_some_iff.mp hread
    obtain ⟨mode, now, later, hstep, hlater, rfl⟩ := Token.scanFrom?_cons hscan
    have hbegin : Token.step? .between '\x7b' = some (.between, [.openBrace]) := rfl
    rw [hbegin] at hstep
    obtain ⟨rfl, rfl⟩ := Prod.mk.inj (Option.some.inj hstep)
    rw [List.singleton_append, List.length_cons, value?] at hread
    split at hread
    · rename_i value hvalue
      obtain ⟨⟨members, after⟩, hmembers, hvalue⟩ := Option.map_eq_some_iff.mp hvalue
      obtain ⟨rfl, rfl⟩ := Prod.mk.inj hvalue
      have hfound : Entries.ofList members = found := by simpa using hread
      exact ⟨members, ⟨_, later, [], hlater, hmembers⟩, hfound.symm⟩
    · cases hread
  · cases h

theorem entries_eq_of_isUnescaped {body : List Char} {entries others : Entries Value}
    (hescape : IsUnescaped body) (hmembers : Literal.readMembers? body = some entries)
    (hpairs : readAll? body = some others) : entries = others := by
  obtain ⟨pairs, hread, rfl⟩ := Option.map_eq_some_iff.mp hpairs
  obtain ⟨members, hmembersOf, rfl⟩ : ∃ members, (∃ fuel tokens after,
      scanFrom? .between (body ++ ['\x7d']) = some tokens ∧
        members? fuel tokens = some (members, after)) ∧ entries = Entries.ofList members :=
    exists_members_of_readMembers? hmembers
  obtain ⟨fuel, tokens, after, hscan, hmembers⟩ := hmembersOf
  rw [← Text.Pieces.join_split ',' body] at hscan
  exact congrArg Entries.ofList (members_eq
    (fun piece hmem => hescape.of_subset (Text.Pieces.not_mem_of_mem_split hmem).2)
    (fun piece hmem => (Text.Pieces.not_mem_of_mem_split hmem).1)
    (Text.Pieces.split_ne_nil ',' body) hread hscan hmembers)

/-- A text without escapes that is both the members of an object and relaxed pairs has the same entries
either way. -/
theorem entries_agree {body : List Char} {entries others : Entries Value} (hescape : '\\' ∉ body)
    (hmembers : Literal.readMembers? body = some entries) (hpairs : readAll? body = some others) :
    entries = others :=
  entries_eq_of_isUnescaped (fun hmem => absurd hmem hescape) hmembers hpairs

/-- A key and a value between quotation marks, a number, and a word with blanks around. -/
def plainPairs : List Char :=
  "a : 1, 'b' : \" x/y \", $c: \t-2.5e1 , d:null".toList

theorem entries_agree_plainPairs :
    ∃ entries others, '\\' ∉ plainPairs ∧ Literal.readMembers? plainPairs = some entries ∧
      readAll? plainPairs = some others ∧ entries = others := by
  have hescape : '\\' ∉ plainPairs := by decide
  obtain ⟨entries, hentries⟩ := Option.isSome_iff_exists.mp
    (by decide +kernel : (Literal.readMembers? plainPairs).isSome = true)
  obtain ⟨others, hothers⟩ := Option.isSome_iff_exists.mp
    (by decide +kernel : (readAll? plainPairs).isSome = true)
  exact ⟨entries, others, hescape, hentries, hothers, entries_agree hescape hentries hothers⟩

/-- Whether entries are one text under a name. -/
def isText (name characters : String) : Option (Entries Value) → Bool
  | some [(found, .text read)] => found == name && read == characters
  | _ => false

theorem eq_of_isText {name characters : String} {entries : Option (Entries Value)}
    (h : isText name characters entries = true) : entries = some [(name, .text characters)] := by
  rw [isText.eq_def] at h
  split at h
  · obtain ⟨rfl, rfl⟩ : _ = name ∧ _ = characters := by simpa using h
    rfl
  · cases h

/-- A tab that is written as an escape. -/
def escapedTab : List Char :=
  "a: 'x\\ty'".toList

/-- An escape between quotation marks stands for one character in an object, and for itself in a relaxed
pair. -/
theorem entries_differ_at_escapedTab :
    ∃ entries others, Literal.readMembers? escapedTab = some entries ∧
      readAll? escapedTab = some others ∧ entries ≠ others := by
  have hmembers : Literal.readMembers? escapedTab = some [("a", .text "x\ty")] :=
    eq_of_isText (by decide +kernel)
  have hpairs : readAll? escapedTab = some [("a", .text "x\\ty")] :=
    eq_of_isText (by decide +kernel)
  refine ⟨_, _, hmembers, hpairs, fun h => ?_⟩
  simp at h

end Cascade.Arguments.Pair
