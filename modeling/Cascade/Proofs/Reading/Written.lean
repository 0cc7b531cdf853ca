import Cascade.Invocation
import Cascade.Proofs.Reading.Padding
import Mathlib.Data.List.Forall2

/-!
Reading undoes writing. A chain of calls whose names and values hold none of the marks that cut a text
can be written in many ways: with either pair of marks, with or without an empty argument list, with
blanks around names, values and elements, and with blank elements in between. Reading any of these
texts gives back the calls (`PlainCall.readChain_of_writesChain`).
-/

namespace Cascade

open Text

/-- A value that an argument list can hold as it is: it has no blank at its ends and none of the marks
that cut arguments, pairs and chains. Brackets of every kind are allowed. -/
structure IsPlainValue (value : String) : Prop where
  trimmed_eq : trimmed value = value
  comma : ',' ∉ value.toList
  colon : ':' ∉ value.toList
  star : cascadeMark ∉ value.toList

/-- Values that an argument list can hold. There is at least one, and a single one is not empty, since
an empty argument list has no value. -/
structure ArePlainValues (values : List String) : Prop where
  ne_nil : values ≠ []
  ne_blank : values ≠ [""]
  plain : ∀ value ∈ values, IsPlainValue value

/-- A name and values, or none, that can be written as a call. -/
structure PlainCall where
  name : String
  values : Option (List String)
  trimmed_name : trimmed name = name
  name_ne_empty : name ≠ ""
  round : '(' ∉ name.toList
  square : '[' ∉ name.toList
  star : cascadeMark ∉ name.toList
  plain : ∀ list ∈ values, ArePlainValues list

namespace PlainCall

/-- The arguments of a call: none, or its values by position. -/
def arguments (call : PlainCall) : Arguments :=
  match call.values with
  | none => .absent
  | some values => .positional values

/-- What a program passes for the arguments of a call: null, or the list of the values. -/
def given (call : PlainCall) : GivenArguments :=
  match call.values with
  | none => .value .null
  | some values => .value (.list (values.map .text))

/-- The texts between the marks of an argument list: blanks for no values, or the values with blanks
around each of them and commas in between. -/
inductive WritesBody : Option (List String) → List Char → Prop
  | blank {body : List Char} : Blank.isAllBlank body = true → WritesBody none body
  | pieces {values : List String} {pieces : List (List Char)} :
      List.Forall₂ (fun value piece => Blank.Pads value.toList piece) values pieces →
      WritesBody (some values) (Pieces.join [','] pieces)

/-- The texts that write a call: its name alone if it has no values, or its name and an argument list.
Square marks are allowed if no value has a round opening one. -/
inductive Writes (call : PlainCall) : List Char → Prop
  | name {text : List Char} : call.values = none → Blank.Pads call.name.toList text →
      Writes call text
  | list {gap body text : List Char} {opening closing : Char} :
      (opening, closing) ∈ Call.marks →
      (opening = '(' ∨ ∀ values ∈ call.values, ∀ value ∈ values, '(' ∉ value.toList) →
      Blank.isAllBlank gap = true → WritesBody call.values body →
      Blank.Pads (call.name.toList ++ gap ++ opening :: (body ++ [closing])) text →
      Writes call text

/-- The elements of a text that writes calls: one for each call, and blank ones anywhere. -/
inductive WritesElements : List PlainCall → List (List Char) → Prop
  | nil : WritesElements [] []
  | blank {calls : List PlainCall} {text : List Char} {texts : List (List Char)} :
      Blank.isAllBlank text = true → WritesElements calls texts → WritesElements calls (text :: texts)
  | call {call : PlainCall} {calls : List PlainCall} {text : List Char}
      {texts : List (List Char)} :
      Writes call text → WritesElements calls texts →
      WritesElements (call :: calls) (text :: texts)

/-- The texts that write a chain of calls. -/
def WritesChain (calls : List PlainCall) (text : String) : Prop :=
  ∃ texts, WritesElements calls texts ∧ text.toList = Pieces.join [cascadeMark] texts

theorem toArguments_given (call : PlainCall) : call.given.toArguments = .ok call.arguments := by
  unfold given arguments
  cases call.values with
  | none => rfl
  | some values =>
      simp [GivenArguments.toArguments, Arguments.ofValue, Function.comp_def, Value.toText]

/-! ### Argument lists -/

theorem trim_of_trimmed {text : String} (h : trimmed text = text) :
    Blank.trim text.toList = text.toList := by
  rw [← String.toList_ofList (l := Blank.trim text.toList)]
  exact congrArg String.toList h

theorem map_trim_of_pads {values : List String} {pieces : List (List Char)}
    (hplain : ∀ value ∈ values, IsPlainValue value)
    (h : List.Forall₂ (fun value piece => Blank.Pads value.toList piece) values pieces) :
    pieces.map Blank.trim = values.map String.toList := by
  induction h with
  | nil => rfl
  | @cons value piece values pieces hpads _ ih =>
      obtain ⟨hvalue, hvalues⟩ := List.forall_mem_cons.mp hplain
      rw [List.map_cons, List.map_cons, ih hvalues, hpads.trim_eq, trim_of_trimmed hvalue.trimmed_eq]

theorem not_mem_of_pads {values : List String} {pieces : List (List Char)} {character : Char}
    (hcharacter : Blank.isBlank character = false)
    (hvalues : ∀ value ∈ values, character ∉ value.toList)
    (h : List.Forall₂ (fun value piece => Blank.Pads value.toList piece) values pieces) :
    ∀ piece ∈ pieces, character ∉ piece := by
  induction h with
  | nil => simp
  | cons hpads _ ih =>
      obtain ⟨hvalue, hothers⟩ := List.forall_mem_cons.mp hvalues
      exact List.forall_mem_cons.mpr ⟨hpads.not_mem hcharacter hvalue, ih hothers⟩

namespace WritesBody

variable {body : List Char}

theorem not_mem {values : Option (List String)} (h : WritesBody values body) {character : Char}
    (hcharacter : Blank.isBlank character = false) (hcomma : character ≠ ',')
    (hvalues : ∀ list ∈ values, ∀ value ∈ list, character ∉ value.toList) : character ∉ body := by
  cases h with
  | blank hblank => exact Blank.not_mem_of_isAllBlank hblank hcharacter
  | pieces hpads =>
      exact Pieces.not_mem_join (by simpa using hcomma)
        (not_mem_of_pads hcharacter (hvalues _ rfl) hpads)

theorem read_none (h : WritesBody none body) : Arguments.read body = .absent := by
  cases h with
  | blank hblank => simp [Arguments.read, (Blank.trim_eq_nil_iff body).mpr hblank]

theorem read_some {values : List String} (h : WritesBody (some values) body)
    (hplain : ArePlainValues values) : Arguments.read body = .positional values := by
  obtain _ | @⟨_, pieces, hpads⟩ := h
  have hne : pieces ≠ [] := by
    rintro rfl
    exact hplain.ne_nil (List.forall₂_nil_right_iff.mp hpads)
  have hcut : (Pieces.split ',' (Blank.trim (Pieces.join [','] pieces))).map Blank.trim =
      values.map String.toList := by
    rw [Pieces.map_trim_split_trim rfl, Pieces.split_join hne, map_trim_of_pads hplain.plain hpads]
    exact not_mem_of_pads rfl (fun value hmem => (hplain.plain value hmem).comma) hpads
  have hbody : Blank.trim (Pieces.join [','] pieces) ≠ [] := by
    intro hnil
    rw [hnil] at hcut
    obtain ⟨value, hvalue, htext⟩ := List.map_eq_singleton_iff.mp hcut.symm
    refine hplain.ne_blank ?_
    rw [hvalue, String.toList_eq_nil_iff.mp htext]
  have hcolon : ':' ∉ Blank.trim (Pieces.join [','] pieces) := by
    intro hmem
    exact Pieces.not_mem_join (by decide)
      (not_mem_of_pads rfl (fun value hmem => (hplain.plain value hmem).colon) hpads)
      (Blank.mem_of_mem_trim hmem)
  have hpieces : Arguments.pieces (Blank.trim (Pieces.join [','] pieces)) = values := by
    have hstrings := congrArg (List.map String.ofList) hcut
    simpa [Arguments.pieces, List.map_map, Function.comp_def] using hstrings
  simp [Arguments.read, hbody, hcolon, hpieces]

end WritesBody

/-! ### Calls -/

theorem read_body {call : PlainCall} {body : List Char} (h : WritesBody call.values body) :
    Arguments.read body = call.arguments := by
  unfold arguments
  cases hvalues : call.values with
  | none => exact (hvalues ▸ h).read_none
  | some values => exact (hvalues ▸ h).read_some (call.plain values hvalues)

theorem toList_name_ne_nil (call : PlainCall) : call.name.toList ≠ [] :=
  fun h => call.name_ne_empty (String.toList_eq_nil_iff.mp h)

theorem trim_name_append (call : PlainCall) {gap : List Char} (hgap : Blank.isAllBlank gap = true) :
    Blank.trim (call.name.toList ++ gap) = call.name.toList := by
  rw [Blank.trim_append_of_isAllBlank hgap, trim_of_trimmed call.trimmed_name]

theorem trim_list (call : PlainCall) {closing : Char} (hclosing : Blank.isBlank closing = false)
    (rest : List Char) : Blank.trim (call.name.toList ++ (rest ++ [closing])) =
      call.name.toList ++ (rest ++ [closing]) := by
  rw [Blank.trim, Blank.trimLeft_append_of_ne_nil
    (Blank.trimLeft_of_trim (trim_of_trimmed call.trimmed_name)) call.toList_name_ne_nil,
    ← List.append_assoc, Blank.trimRight_append_singleton hclosing]

theorem marksOf?_of_not_mem {token : List Char} (hround : '(' ∉ token) (hsquare : '[' ∉ token) :
    Call.marksOf? token = none := by
  simp [Call.marksOf?, Call.marks, hround, hsquare]

theorem marksOf?_list (call : PlainCall) {gap body : List Char} {opening closing : Char}
    (hmarks : (opening, closing) ∈ Call.marks) (hround : opening = '(' ∨ '(' ∉ body)
    (hgap : Blank.isAllBlank gap = true) :
    Call.marksOf? (call.name.toList ++ gap ++ opening :: (body ++ [closing])) =
      some (opening, closing) := by
  simp only [Call.marks, List.mem_cons, Prod.mk.injEq, List.not_mem_nil, or_false] at hmarks
  obtain ⟨rfl, rfl⟩ | ⟨rfl, rfl⟩ := hmarks
  · simp [Call.marksOf?, Call.marks]
  · have hgap : '(' ∉ gap := Blank.not_mem_of_isAllBlank hgap rfl
    have hbody : '(' ∉ body := hround.resolve_left (by decide)
    simp [Call.marksOf?, Call.marks, call.round, hgap, hbody]

theorem readTrimmed_list (call : PlainCall) {gap body : List Char} {opening closing : Char}
    (hmarks : (opening, closing) ∈ Call.marks) (hround : opening = '(' ∨ '(' ∉ body)
    (hgap : Blank.isAllBlank gap = true) (hbody : WritesBody call.values body) :
    Call.readTrimmed (call.name.toList ++ gap ++ opening :: (body ++ [closing])) =
      .ok ⟨call.name, call.arguments⟩ := by
  have hfound := call.marksOf?_list hmarks hround hgap
  have hopening : Blank.isBlank opening = false ∧ opening ∉ call.name.toList := by
    simp only [Call.marks, List.mem_cons, Prod.mk.injEq, List.not_mem_nil, or_false] at hmarks
    obtain ⟨rfl, rfl⟩ | ⟨rfl, rfl⟩ := hmarks
    · exact ⟨rfl, call.round⟩
    · exact ⟨rfl, call.square⟩
  have hfront : ∀ character ∈ call.name.toList ++ gap, (character != opening) = true := by
    intro character hmem
    rw [bne_iff_ne]
    rintro rfl
    exact (List.mem_append.mp hmem).elim hopening.2 (Blank.not_mem_of_isAllBlank hgap hopening.1)
  have htake : (call.name.toList ++ gap ++ opening :: (body ++ [closing])).takeWhile (· != opening) =
      call.name.toList ++ gap := by
    rw [List.takeWhile_append_of_pos hfront]
    simp
  have hdrop : (call.name.toList ++ gap ++ opening :: (body ++ [closing])).dropWhile (· != opening) =
      opening :: (body ++ [closing]) := by
    rw [List.dropWhile_append_of_pos hfront]
    simp
  have hlast : (call.name.toList ++ gap ++ opening :: (body ++ [closing])).getLast? =
      some closing := by
    rw [← List.cons_append, ← List.append_assoc, List.getLast?_concat]
  rw [Call.readTrimmed, hfound]
  simp only [htake, hdrop, hlast, call.trim_name_append hgap]
  simp [call.name_ne_empty, read_body hbody]

namespace Writes

variable {call : PlainCall} {text : List Char}

theorem readTrimmed_trim (h : Writes call text) :
    Call.readTrimmed (Blank.trim text) = .ok ⟨call.name, call.arguments⟩ := by
  cases h with
  | name hvalues hpads =>
      rw [hpads.trim_eq, trim_of_trimmed call.trimmed_name]
      simp [Call.readTrimmed, marksOf?_of_not_mem call.round call.square, call.name_ne_empty,
        arguments, hvalues]
  | @list gap body _ opening closing hmarks hround hgap hbody hpads =>
      have hclosing : Blank.isBlank closing = false := by
        simp only [Call.marks, List.mem_cons, Prod.mk.injEq, List.not_mem_nil, or_false] at hmarks
        obtain ⟨-, rfl⟩ | ⟨-, rfl⟩ := hmarks <;> rfl
      have htrim := call.trim_list hclosing (gap ++ opening :: body)
      simp only [List.append_assoc, List.cons_append] at htrim hpads
      rw [hpads.trim_eq, htrim]
      have hread := call.readTrimmed_list hmarks
        (hround.imp_right (hbody.not_mem rfl (by decide))) hgap hbody
      simpa only [List.append_assoc, List.cons_append] using hread

theorem trim_ne_nil (h : Writes call text) : Blank.trim text ≠ [] := by
  intro hnil
  have hread := h.readTrimmed_trim
  rw [hnil] at hread
  cases hread

theorem star_not_mem (h : Writes call text) : cascadeMark ∉ text := by
  cases h with
  | name hvalues hpads => exact hpads.not_mem rfl call.star
  | @list gap body _ opening closing hmarks hround hgap hbody hpads =>
      have hstar : cascadeMark ≠ opening ∧ cascadeMark ≠ closing := by
        simp only [Call.marks, List.mem_cons, Prod.mk.injEq, List.not_mem_nil, or_false] at hmarks
        obtain ⟨rfl, rfl⟩ | ⟨rfl, rfl⟩ := hmarks <;> decide
      have hgap : cascadeMark ∉ gap := Blank.not_mem_of_isAllBlank hgap rfl
      have hbody : cascadeMark ∉ body := hbody.not_mem rfl (by decide) fun list hlist value hmem =>
        ((call.plain list hlist).plain value hmem).star
      refine hpads.not_mem rfl ?_
      simp [call.star, hgap, hbody, hstar]

/-- The invocation that a written call is read as. -/
theorem read (h : Writes call text) {registry : Registry} {command : Command}
    (hregistered : registry.get? call.name = some command) :
    Invocation.read registry (String.ofList (Blank.trim text)) =
      .ok ⟨command, call.arguments, String.ofList (Blank.trim text)⟩ := by
  have hcall : Call.read (String.ofList (Blank.trim text)) = .ok ⟨call.name, call.arguments⟩ := by
    rw [Call.read, String.toList_ofList, Blank.trim_trim]
    exact h.readTrimmed_trim
  have htoken : trimmed (String.ofList (Blank.trim text)) = String.ofList (Blank.trim text) := by
    rw [trimmed, String.toList_ofList, Blank.trim_trim]
  simp only [Invocation.read, hcall, htoken, bind, Except.bind, hregistered]
  rfl

end Writes

/-! ### Chains -/

/-- The element that a text between two stars stands for, none if it is blank. -/
def element? (text : List Char) : Option String :=
  if (Blank.trim text).isEmpty then none else some (String.ofList (Blank.trim text))

theorem element?_of_isAllBlank {text : List Char} (h : Blank.isAllBlank text = true) :
    element? text = none := by
  simp [element?, (Blank.trim_eq_nil_iff text).mpr h]

theorem Writes.element?_eq {call : PlainCall} {text : List Char} (h : Writes call text) :
    element? text = some (String.ofList (Blank.trim text)) := by
  simp [element?, h.trim_ne_nil]

theorem cascadeElements_join {texts : List (List Char)}
    (h : ∀ text ∈ texts, cascadeMark ∉ text) :
    cascadeElements (String.ofList (Pieces.join [cascadeMark] texts)) = texts.filterMap element? := by
  cases texts with
  | nil => rfl
  | cons text others =>
      rw [cascadeElements, String.toList_ofList, Pieces.split_join (List.cons_ne_nil text others) h,
        List.filterMap_map]
      rfl

namespace WritesElements

variable {calls : List PlainCall} {texts : List (List Char)}

theorem star_not_mem (h : WritesElements calls texts) : ∀ text ∈ texts, cascadeMark ∉ text := by
  induction h with
  | nil => simp
  | blank hblank _ ih =>
      exact List.forall_mem_cons.mpr ⟨Blank.not_mem_of_isAllBlank hblank rfl, ih⟩
  | call hwrites _ ih => exact List.forall_mem_cons.mpr ⟨hwrites.star_not_mem, ih⟩

theorem readAll (h : WritesElements calls texts) {registry : Registry}
    (hregistered : ∀ call ∈ calls, registry.contains call.name = true) :
    ∃ invocations, Invocation.readAll registry (texts.filterMap element?) = .ok invocations ∧
      invocations.map (some ∘ Invocation.command) =
        calls.map (fun call => registry.get? call.name) ∧
      invocations.map Invocation.arguments = calls.map arguments := by
  induction h with
  | nil => exact ⟨[], rfl, rfl, rfl⟩
  | blank hblank _ ih =>
      rw [List.filterMap_cons_none (element?_of_isAllBlank hblank)]
      exact ih hregistered
  | @call call calls text texts hwrites _ ih =>
      obtain ⟨hcall, hcalls⟩ := List.forall_mem_cons.mp hregistered
      obtain ⟨invocations, hread, hcommands, harguments⟩ := ih hcalls
      obtain ⟨command, hcommand⟩ := Option.isSome_iff_exists.mp hcall
      refine ⟨⟨command, call.arguments, String.ofList (Blank.trim text)⟩ :: invocations, ?_, ?_, ?_⟩
      · rw [List.filterMap_cons_some hwrites.element?_eq, Invocation.readAll, hwrites.read hcommand,
          hread]
        rfl
      · simp only [List.map_cons, Function.comp_apply, hcommand, ← hcommands]
      · simp only [List.map_cons, harguments]

end WritesElements

/-- Reading undoes writing. Every text that writes a chain of calls of registered commands is read
as these commands in order, each with the arguments that its values are given as: none where the call
has no values, and the values by position otherwise. -/
theorem readChain_of_writesChain {registry : Registry} {calls : List PlainCall} {text : String}
    (hwritten : WritesChain calls text)
    (hregistered : ∀ call ∈ calls, registry.contains call.name = true) :
    ∃ invocations, Invocation.readChain registry text = .ok invocations ∧
      invocations.map (some ∘ Invocation.command) =
        calls.map (fun call => registry.get? call.name) ∧
      invocations.map Invocation.arguments = calls.map arguments ∧
      calls.map (fun call => call.given.toArguments) =
        invocations.map (Except.ok ∘ Invocation.arguments) := by
  obtain ⟨texts, helements, htext⟩ := hwritten
  obtain ⟨invocations, hread, hcommands, harguments⟩ := helements.readAll hregistered
  refine ⟨invocations, ?_, hcommands, harguments, ?_⟩
  · rw [Invocation.readChain, ← String.ofList_toList (s := text), htext,
      cascadeElements_join helements.star_not_mem, hread]
  · rw [← List.map_map, harguments, List.map_map]
    exact List.map_congr_left fun call _ => call.toArguments_given

def noteCommand : Command where
  name := "note"
  help := ""
  group := ""
  hidden := false
  convention := .direct
  accepts := fun _ => true
  initializer := none
  run := fun _ => .finish (.value .null)

/-- A call of it with brackets and an empty text among its values. -/
def noteValues : PlainCall where
  name := "note"
  values := some ["( a]", "", "b)"]
  trimmed_name := by decide
  name_ne_empty := by decide
  round := by decide
  square := by decide
  star := by decide
  plain := by
    rintro list ⟨⟩
    refine ⟨by decide, by decide, fun value hmem => ?_⟩
    simp only [List.mem_cons, List.not_mem_nil, or_false] at hmem
    rcases hmem with rfl | rfl | rfl <;> constructor <;> decide

def noteAlone : PlainCall :=
  { noteValues with values := none, plain := nofun }

/-- Two calls with blanks in many places and a blank element between them. -/
theorem readChain_noteValues_noteAlone :
    WritesChain [noteValues, noteAlone] " note (( a] ,, b)) * * note[] " ∧
      (∀ call ∈ [noteValues, noteAlone],
        Registry.contains ⟨[noteCommand], []⟩ call.name = true) ∧
      ∃ invocations, Invocation.readChain ⟨[noteCommand], []⟩ " note (( a] ,, b)) * * note[] " =
          .ok invocations ∧
        invocations.map Invocation.arguments = [.positional ["( a]", "", "b)"], .absent] := by
  have hvalues : Writes noteValues " note (( a] ,, b)) ".toList := by
    have hbody : WritesBody noteValues.values
        (Pieces.join [','] ["( a] ".toList, [], " b)".toList]) :=
      .pieces (.cons ⟨[], [' '], rfl, rfl, by decide⟩ (.cons ⟨[], [], rfl, rfl, by decide⟩
        (.cons ⟨[' '], [], rfl, rfl, by decide⟩ .nil)))
    exact @Writes.list noteValues [' '] _ _ '(' ')' (by decide) (.inl rfl) rfl hbody
      ⟨[' '], [' '], rfl, rfl, by decide⟩
  have halone : Writes noteAlone " note[] ".toList :=
    @Writes.list noteAlone [] [] _ '[' ']' (by decide) (.inr nofun) rfl (.blank rfl)
      ⟨[' '], [' '], rfl, rfl, by decide⟩
  have hwritten : WritesChain [noteValues, noteAlone] " note (( a] ,, b)) * * note[] " :=
    ⟨[_, [' '], _], .call hvalues (.blank rfl (.call halone .nil)), by decide⟩
  have hregistered : ∀ call ∈ [noteValues, noteAlone],
      Registry.contains ⟨[noteCommand], []⟩ call.name = true := by decide
  obtain ⟨invocations, hread, -, harguments, -⟩ := readChain_of_writesChain hwritten hregistered
  exact ⟨hwritten, hregistered, invocations, hread, harguments⟩

end PlainCall

end Cascade
