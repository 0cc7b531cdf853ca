import Cascade.Number.Decimal

/-!
Values that commands take and give: scalars, sequences and mappings in insertion order, with their
truth, their kind and their text. Setting a name changes what is found under that name only
(`Entries.get?_put_self`, `Entries.get?_put_of_ne`), and the names stay distinct
(`Entries.nodup_names_ofList`).
-/

namespace Cascade

/-- A value. A fixed sequence is written in round brackets and a list in square ones. -/
inductive Value
  | null
  | boolean (flag : Bool)
  | integer (number : Int)
  | float (number : Binary64)
  | text (characters : String)
  | list (items : List Value)
  | sequence (items : List Value)
  | map (entries : List (String × Value))

instance : Inhabited Value := ⟨.null⟩

/-- Named values in the order in which the names came first. -/
abbrev Entries (α : Type) := List (String × α)

namespace Entries

variable {α : Type}

def get? (entries : Entries α) (name : String) : Option α :=
  (entries.find? fun entry => entry.1 == name).map Prod.snd

/-- Sets the value under a name; a name that is already there keeps its position. -/
def put (name : String) (value : α) : Entries α → Entries α
  | [] => [(name, value)]
  | entry :: rest =>
      if entry.1 = name then (name, value) :: rest else entry :: put name value rest

/-- The entries of a list in which the last value of a repeated name counts. -/
def ofList (pairs : List (String × α)) : Entries α :=
  pairs.foldl (fun entries pair => put pair.1 pair.2 entries) []

def names (entries : Entries α) : List String :=
  entries.map Prod.fst

theorem get?_nil (name : String) : get? ([] : Entries α) name = none := rfl

theorem get?_cons (entry : String × α) (rest : Entries α) (name : String) :
    get? (entry :: rest) name = if entry.1 = name then some entry.2 else get? rest name := by
  by_cases h : entry.1 = name <;> simp [get?, h]

theorem get?_put_self (name : String) (value : α) (entries : Entries α) :
    (put name value entries).get? name = some value := by
  induction entries with
  | nil => simp [put, get?_cons]
  | cons entry rest ih =>
      by_cases h : entry.1 = name
      · simp [put, h, get?_cons]
      · simp [put, h, get?_cons, ih]

theorem get?_put_of_ne {name other : String} (h : other ≠ name) (value : α)
    (entries : Entries α) : (put name value entries).get? other = entries.get? other := by
  induction entries with
  | nil => simp [put, get?_cons, get?_nil, h.symm]
  | cons entry rest ih =>
      by_cases hentry : entry.1 = name
      · simp [put, hentry, get?_cons, h.symm]
      · simp [put, hentry, get?_cons, ih]

theorem names_cons (entry : String × α) (rest : Entries α) :
    names (entry :: rest) = entry.1 :: names rest := rfl

theorem get?_eq_none_iff {name : String} {entries : Entries α} :
    entries.get? name = none ↔ name ∉ entries.names := by
  induction entries with
  | nil => simp [get?_nil, names]
  | cons entry rest ih =>
      rw [get?_cons, names_cons]
      by_cases h : entry.1 = name
      · simp [h]
      · simp [h, ih, Ne.symm h]

/-- Entries with distinct names are what is found under their names. -/
theorem get?_of_mem {entries : Entries α} (hnodup : entries.names.Nodup) {entry : String × α}
    (hmem : entry ∈ entries) : entries.get? entry.1 = some entry.2 := by
  induction entries with
  | nil => cases hmem
  | cons first rest ih =>
      obtain ⟨hout, hrest⟩ := List.nodup_cons.mp (names_cons first rest ▸ hnodup)
      rw [get?_cons]
      rcases List.mem_cons.mp hmem with rfl | hold
      · exact if_pos rfl
      · have hne : first.1 ≠ entry.1 := fun heq => hout (heq ▸ List.mem_map_of_mem hold)
        rw [if_neg hne, ih hrest hold]

theorem names_put (name : String) (value : α) (entries : Entries α) :
    (put name value entries).names =
      if name ∈ entries.names then entries.names else entries.names ++ [name] := by
  induction entries with
  | nil => simp [put, names]
  | cons entry rest ih =>
      rw [put, names_cons]
      by_cases h : entry.1 = name
      · simp [h, names_cons]
      · have hne : name ≠ entry.1 := fun heq => h heq.symm
        rw [if_neg h, names_cons, ih]
        by_cases hmem : name ∈ names rest <;> simp [hmem, hne]

theorem nodup_names_put (name : String) (value : α) {entries : Entries α}
    (h : entries.names.Nodup) : (put name value entries).names.Nodup := by
  rw [names_put]
  split
  · exact h
  · rename_i hmem
    refine List.nodup_append.mpr ⟨h, by simp, ?_⟩
    intro other hother last hlast heq
    rw [List.mem_singleton.mp hlast] at heq
    exact hmem (heq ▸ hother)

theorem nodup_names_foldl_put (pairs : List (String × α)) {entries : Entries α}
    (h : entries.names.Nodup) :
    (pairs.foldl (fun entries pair => put pair.1 pair.2 entries) entries).names.Nodup := by
  induction pairs generalizing entries with
  | nil => exact h
  | cons pair rest ih => exact ih (nodup_names_put pair.1 pair.2 h)

theorem nodup_names_ofList (pairs : List (String × α)) : (ofList pairs).names.Nodup :=
  nodup_names_foldl_put pairs List.nodup_nil

end Entries

namespace Value

/-- Nothing, false, zero and the empty text, sequence and mapping are false; all else is true. -/
def isTrue : Value → Bool
  | null => false
  | boolean flag => flag
  | integer number => number != 0
  | float number => !number.isZero
  | text characters => !characters.isEmpty
  | list items | sequence items => !items.isEmpty
  | map entries => !entries.isEmpty

/-- The name of a value's kind, as messages give it. -/
def kindName : Value → String
  | null => "NoneType"
  | boolean _ => "bool"
  | integer _ => "int"
  | float _ => "float"
  | text _ => "str"
  | list _ => "list"
  | sequence _ => "tuple"
  | map _ => "dict"

mutual

/-- The text of a value inside another value: texts are quoted. -/
def shown : Value → String
  | null => "None"
  | boolean flag => if flag then "True" else "False"
  | integer number => Decimal.integerText number
  | float number => Decimal.binary64Text number
  | text characters => quoted characters
  | list items => "[" ++ shownItems items ++ "]"
  | sequence [] => "()"
  | sequence [item] => "(" ++ shown item ++ ",)"
  | sequence (item :: next :: rest) => "(" ++ shownItems (item :: next :: rest) ++ ")"
  | map entries => "\x7b" ++ shownEntries entries ++ "\x7d"

/-- The texts of items with a comma and a space between them. -/
def shownItems : List Value → String
  | [] => ""
  | [item] => shown item
  | item :: rest => shown item ++ ", " ++ shownItems rest

/-- The texts of entries with a comma and a space between them. -/
def shownEntries : List (String × Value) → String
  | [] => ""
  | [(name, value)] => quoted name ++ ": " ++ shown value
  | (name, value) :: rest => quoted name ++ ": " ++ shown value ++ ", " ++ shownEntries rest

end

/-- The text of a value: a text stands for itself. -/
def toText : Value → String
  | text characters => characters
  | value => shown value

end Value

end Cascade
