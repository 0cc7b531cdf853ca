import Cascade.Literal.Reader

/-!
The grammar of literals, apart from how they are read: what may stand between tokens, how a token is
spelled, and which tokens denote a value, the members of an object and the items of a list. A member
list (`IsMemberList`) is a text of pairs between commas, with at most one comma after the last.
-/

namespace Cascade.Literal

/-- Blanks and closed comments, which may stand between tokens. -/
inductive IsGap : List Char → Prop
  | none : IsGap []
  | blank {character : Char} {rest : List Char} (hblank : Token.isBlank character = true)
      (hrest : IsGap rest) : IsGap (character :: rest)
  | lineComment {comment rest : List Char} {ending : Char}
      (hcomment : ∀ character ∈ comment, Token.endsLine character = false)
      (hending : Token.endsLine ending = true) (hrest : IsGap rest) :
      IsGap ('/' :: '/' :: (comment ++ ending :: rest))
  | blockComment {comment rest : List Char} (hcomment : ¬ ['*', '/'] <:+: comment)
      (hrest : IsGap rest) : IsGap ('/' :: '*' :: (comment ++ '*' :: '/' :: rest))

/-- A backslash, a letter, and as many hexadecimal digits as the letter asks for stand for the
character with that number. -/
inductive IsNumericEscape (letter : Char) (count : Nat) : List Char → Char → Prop
  | intro {digits : List Char} {code : Nat} (hlength : digits.length = count)
      (hcode : Number.hexadecimal? digits = some code) :
      IsNumericEscape letter count ('\\' :: letter :: digits) (Char.ofNat code)

/-- A letter that stands for one character after a backslash. -/
def isEscapable (letter : Char) : Bool :=
  letter != 'x' && letter != 'u' && !Number.isDigit letter && !Token.endsLine letter

/-- The end of a line: one character, or a carriage return with the line feed after it. -/
inductive IsLineEnd : List Char → Prop
  | one {ending : Char} (hending : Token.endsLine ending = true) : IsLineEnd [ending]
  | two : IsLineEnd ['\r', '\n']

/-- A text between quotation marks, and the characters that it stands for. -/
inductive Quotes (mark : Char) : List Char → List Char → Prop
  | none : Quotes mark [] []
  | plain {character : Char} {rest characters : List Char} (hmark : character ≠ mark)
      (hescape : character ≠ '\\') (hline : character ≠ '\n' ∧ character ≠ '\r')
      (hrest : Quotes mark rest characters) :
      Quotes mark (character :: rest) (character :: characters)
  | letter {letter : Char} {rest characters : List Char} (hletter : isEscapable letter = true)
      (hrest : Quotes mark rest characters) :
      Quotes mark ('\\' :: letter :: rest) (Token.escaped letter :: characters)
  | zero {rest characters : List Char}
      (hdigit : ∀ next ∈ rest.head?, Number.isDigit next = false)
      (hrest : Quotes mark rest characters) :
      Quotes mark ('\\' :: '0' :: rest) ('\x00' :: characters)
  | numeric {letter character : Char} {count : Nat} {spelling rest characters : List Char}
      (hletter : (letter, count) = ('x', 2) ∨ (letter, count) = ('u', 4))
      (hescape : IsNumericEscape letter count spelling character)
      (hrest : Quotes mark rest characters) :
      Quotes mark (spelling ++ rest) (character :: characters)
  | brokenLine {ending rest characters : List Char} (hending : IsLineEnd ending)
      (hrest : Quotes mark rest characters) : Quotes mark ('\\' :: (ending ++ rest)) characters

/-- What follows in a word, the characters that it stands for, and whether no escape is among it. -/
inductive Follows : List Char → List Char → Bool → Prop
  | none : Follows [] [] true
  | plain {character : Char} {rest characters : List Char} {plain : Bool}
      (hcharacter : Token.continuesWord character = true) (hrest : Follows rest characters plain) :
      Follows (character :: rest) (character :: characters) plain
  | escape {character : Char} {spelling rest characters : List Char} {plain : Bool}
      (hescape : IsNumericEscape 'u' 4 spelling character) (hrest : Follows rest characters plain) :
      Follows (spelling ++ rest) (character :: characters) false

/-- The spelling of a token. -/
inductive Spells : List Char → Token → Prop
  | openBrace : Spells ['\x7b'] .openBrace
  | closeBrace : Spells ['\x7d'] .closeBrace
  | openBracket : Spells ['['] .openBracket
  | closeBracket : Spells [']'] .closeBracket
  | colon : Spells [':'] .colon
  | comma : Spells [','] .comma
  | text {mark : Char} {spelling characters : List Char} (hmark : mark = '"' ∨ mark = '\'')
      (hquotes : Quotes mark spelling characters) :
      Spells (mark :: (spelling ++ [mark])) (.text (String.ofList characters))
  | number {first : Char} {rest : List Char} {value : Value}
      (hfirst : Token.startsNumber first = true)
      (hread : Number.read? (first :: rest) = some value) : Spells (first :: rest) (.number value)
  | word {first : Char} {rest characters : List Char} {plain : Bool}
      (hfirst : Token.startsWord first = true ∨ first = '\\')
      (hfollows : Follows (first :: rest) characters plain) :
      Spells (first :: rest) (.word (String.ofList characters) plain)

/-- A text of tokens, each with a gap before it. -/
inductive Lexes : List Char → List Token → Prop
  | none : Lexes [] []
  | token {gap spelling rest : List Char} {token : Token} {tokens : List Token} (hgap : IsGap gap)
      (hspells : Spells spelling token) (hrest : Lexes rest tokens) :
      Lexes (gap ++ spelling ++ rest) (token :: tokens)

/-- The name that a token gives to a member. -/
inductive NamesMember : Token → String → Prop
  | text (name : String) : NamesMember (.text name) name
  | word (name : String) (plain : Bool) : NamesMember (.word name plain) name

mutual

/-- Tokens that denote a value. -/
inductive Denotes : List Token → Value → Prop
  | text (characters : String) : Denotes [.text characters] (.text characters)
  | number (value : Value) : Denotes [.number value] value
  | constant {name : String} {value : Value} (hname : constant? name = some value) :
      Denotes [.word name true] value
  | object {tokens : List Token} {pairs : List (String × Value)}
      (hmembers : DenotesMembers tokens pairs) :
      Denotes (.openBrace :: (tokens ++ [.closeBrace])) (.map (Entries.ofList pairs))
  | list {tokens : List Token} {values : List Value} (hitems : DenotesItems tokens values) :
      Denotes (.openBracket :: (tokens ++ [.closeBracket])) (.list values)

/-- Tokens that denote the members of an object. -/
inductive DenotesMembers : List Token → List (String × Value) → Prop
  | none : DenotesMembers [] []
  | last {key : Token} {name : String} {tokens : List Token} {value : Value}
      (hkey : NamesMember key name) (hvalue : Denotes tokens value) :
      DenotesMembers (key :: .colon :: tokens) [(name, value)]
  | member {key : Token} {name : String} {tokens rest : List Token} {value : Value}
      {pairs : List (String × Value)} (hkey : NamesMember key name) (hvalue : Denotes tokens value)
      (hrest : DenotesMembers rest pairs) :
      DenotesMembers (key :: .colon :: (tokens ++ .comma :: rest)) ((name, value) :: pairs)

/-- Tokens that denote the items of a list. -/
inductive DenotesItems : List Token → List Value → Prop
  | none : DenotesItems [] []
  | last {tokens : List Token} {value : Value} (hvalue : Denotes tokens value) :
      DenotesItems tokens [value]
  | item {tokens rest : List Token} {value : Value} {values : List Value}
      (hvalue : Denotes tokens value) (hrest : DenotesItems rest values) :
      DenotesItems (tokens ++ .comma :: rest) (value :: values)

end

/-- A text of the members of an object: pairs of a key and a value between commas, with gaps between
the tokens. -/
def IsMemberList (body : List Char) (pairs : List (String × Value)) : Prop :=
  ∃ front gap tokens, body = front ++ gap ∧ Lexes front tokens ∧ IsGap gap ∧
    DenotesMembers tokens pairs

namespace IsGap

theorem append {front back : List Char} (hfront : IsGap front) (hback : IsGap back) :
    IsGap (front ++ back) := by
  induction hfront with
  | none => exact hback
  | blank hblank hrest ih => exact .blank hblank ih
  | lineComment hcomment hending hrest ih =>
      have h := IsGap.lineComment hcomment hending ih
      simpa using h
  | blockComment hcomment hrest ih =>
      have h := IsGap.blockComment hcomment ih
      simpa using h

theorem head {character : Char} {rest : List Char} (h : IsGap (character :: rest)) :
    Token.isBlank character = true ∨ character = '/' := by
  cases h with
  | blank hblank hrest => exact .inl hblank
  | lineComment hcomment hending hrest => exact .inr rfl
  | blockComment hcomment hrest => exact .inr rfl

theorem getLast {gap : List Char} (h : IsGap gap) {last : Char} (hlast : gap.getLast? = some last) :
    Token.isBlank last = true ∨ Token.endsLine last = true ∨ last = '/' := by
  have hends : ∀ (front : List Char) {rest : List Char} {ending : Char},
      (front ++ ending :: rest).getLast? = some last → rest.getLast? = some last ∨ ending = last := by
    intro front rest ending h
    cases rest with
    | nil => exact .inr (by simpa using h)
    | cons next others => exact .inl (by simpa using h)
  induction h with
  | none => cases hlast
  | blank hblank _ ih =>
      rcases hends [] hlast with hlast | rfl
      · exact ih hlast
      · exact .inl hblank
  | @lineComment comment _ _ _ hending _ ih =>
      rcases hends ('/' :: '/' :: comment) hlast with hlast | rfl
      · exact ih hlast
      · exact .inr (.inl hending)
  | @blockComment comment _ _ _ ih =>
      rcases hends ('/' :: '*' :: (comment ++ ['*'])) (by simpa using hlast) with hlast | rfl
      · exact ih hlast
      · exact .inr (.inr rfl)

end IsGap

namespace Lexes

/-- The text of tokens can be cut between any two of them. -/
theorem split {text : List Char} {front back : List Token} (h : Lexes text (front ++ back)) :
    ∃ first second, text = first ++ second ∧ Lexes first front ∧ Lexes second back := by
  induction front generalizing text with
  | nil => exact ⟨[], text, rfl, .none, h⟩
  | cons token rest ih =>
      cases h with
      | token hgap hspells hrest =>
          obtain ⟨first, second, rfl, hfirst, hsecond⟩ := ih hrest
          exact ⟨_, second, by simp only [List.append_assoc], .token hgap hspells hfirst, hsecond⟩

theorem singleton {text : List Char} {token : Token} (h : Lexes text [token]) :
    ∃ gap spelling, text = gap ++ spelling ∧ IsGap gap ∧ Spells spelling token := by
  cases h with
  | token hgap hspells hrest =>
      cases hrest
      exact ⟨_, _, List.append_nil _, hgap, hspells⟩

end Lexes

end Cascade.Literal
