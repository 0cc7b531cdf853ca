import Cascade.Config.Merge
import Cascade.Json.Reader
import Cascade.Proofs.Config.Encoding

/-!
Values of JSON: the names of every mapping are distinct, and no sequence is fixed. What is read from a
text is such a value. Laid over nothing or over itself it stays as it is, so an empty configuration
adds nothing to another one, and a configuration laid over itself is that configuration.
-/

namespace Cascade

namespace Entries

variable {α : Type}

theorem mem_put {name : String} {value : α} {entries : Entries α} {entry : String × α}
    (h : entry ∈ put name value entries) : entry = (name, value) ∨ entry ∈ entries := by
  induction entries with
  | nil => exact .inl (List.mem_singleton.mp h)
  | cons first rest ih =>
      rw [put] at h
      split at h
      · exact (List.mem_cons.mp h).imp_right (List.mem_cons_of_mem first)
      · rcases List.mem_cons.mp h with rfl | hlater
        · exact .inr List.mem_cons_self
        · exact (ih hlater).imp_right (List.mem_cons_of_mem first)

theorem mem_of_mem_foldl_put {pairs : List (String × α)} {entries : Entries α}
    {entry : String × α}
    (h : entry ∈ pairs.foldl (fun entries pair => put pair.1 pair.2 entries) entries) :
    entry ∈ pairs ∨ entry ∈ entries := by
  induction pairs generalizing entries with
  | nil => exact .inr h
  | cons pair rest ih =>
      rcases ih h with hrest | hput
      · exact .inl (List.mem_cons_of_mem pair hrest)
      · exact (mem_put hput).imp_left fun heq => by
          rw [heq]
          exact List.mem_cons_self

theorem mem_of_mem_ofList {pairs : List (String × α)} {entry : String × α}
    (h : entry ∈ ofList pairs) : entry ∈ pairs :=
  (mem_of_mem_foldl_put h).resolve_right List.not_mem_nil

theorem put_of_get? {name : String} {value : α} {entries : Entries α}
    (h : entries.get? name = some value) : put name value entries = entries := by
  induction entries with
  | nil => cases h
  | cons entry rest ih =>
      rw [get?_cons] at h
      rw [put]
      split at h
      · rename_i hname
        obtain rfl := Option.some.inj h
        rw [if_pos hname, ← hname]
      · rename_i hname
        rw [if_neg hname, ih h]

theorem put_of_not_mem {name : String} (value : α) {entries : Entries α}
    (h : name ∉ entries.names) : put name value entries = entries ++ [(name, value)] := by
  induction entries with
  | nil => rfl
  | cons entry rest ih =>
      rw [names_cons, List.mem_cons, not_or] at h
      rw [put, if_neg (Ne.symm h.1), ih h.2]
      rfl

end Entries

/-- A value of JSON. -/
inductive Value.IsJson : Value → Prop
  | null : IsJson .null
  | boolean (flag : Bool) : IsJson (.boolean flag)
  | integer (number : Int) : IsJson (.integer number)
  | float (number : Binary64) : IsJson (.float number)
  | text (characters : String) : IsJson (.text characters)
  | list {items : List Value} (hitems : ∀ item ∈ items, IsJson item) : IsJson (.list items)
  | map {entries : List (String × Value)} (hnames : (Entries.names entries).Nodup)
      (hvalues : ∀ entry ∈ entries, IsJson entry.2) : IsJson (.map entries)

namespace Value.IsJson

theorem names {entries : List (String × Value)} (h : IsJson (.map entries)) :
    (Entries.names entries).Nodup := by
  cases h with
  | map hnames _ => exact hnames

theorem values {entries : List (String × Value)} (h : IsJson (.map entries)) :
    ∀ entry ∈ entries, IsJson entry.2 := by
  cases h with
  | map _ hvalues => exact hvalues

theorem empty : IsJson (.map []) :=
  .map List.nodup_nil fun _ hmem => nomatch hmem

/-- The last value of a repeated name counts, so pairs make up a value of JSON. -/
theorem ofList {pairs : List (String × Value)} (h : ∀ pair ∈ pairs, IsJson pair.2) :
    IsJson (.map (Entries.ofList pairs)) :=
  .map (Entries.nodup_names_ofList pairs) fun entry hmem => h entry (Entries.mem_of_mem_ofList hmem)

end Value.IsJson

/-! ### Reading -/

namespace Json

theorem isJson_unsigned? {negative : Bool} {text : List Char} {value : Value} {length : Nat}
    (h : unsigned? negative text = some (value, length)) : value.IsJson := by
  unfold unsigned? at h
  extract_lets digits whole afterWhole fraction fractionLength at h
  split at h
  · cases h
  · split at h
    dsimp only at h
    split at h
    · obtain ⟨rfl, -⟩ := Prod.mk.inj (Option.some.inj h)
      exact .integer _
    · obtain ⟨rfl, -⟩ := Prod.mk.inj (Option.some.inj h)
      exact .float _

theorem isJson_constant? {text : List Char} {value : Value} {length : Nat}
    (h : constant? text = some (value, length)) : value.IsJson := by
  obtain ⟨word, hword, hvalue⟩ := Option.map_eq_some_iff.mp h
  obtain ⟨rfl, -⟩ := Prod.mk.inj hvalue
  have hmem := List.mem_of_find?_eq_some hword
  simp only [List.mem_cons, List.not_mem_nil, or_false] at hmem
  rcases hmem with rfl | rfl | rfl | rfl | rfl | rfl
  · exact .null
  · exact .boolean true
  · exact .boolean false
  · exact .float _
  · exact .float _
  · exact .float _

theorem isJson_scalar? {text : List Char} {value : Value} {length : Nat}
    (h : scalar? text = some (value, length)) : value.IsJson := by
  rcases Option.or_eq_some_iff.mp h with hconstant | ⟨-, hnumber⟩
  · exact isJson_constant? hconstant
  · split at hnumber
    · obtain ⟨⟨number, size⟩, hunsigned, heq⟩ := Option.map_eq_some_iff.mp hnumber
      obtain ⟨rfl, -⟩ := Prod.mk.inj heq
      exact isJson_unsigned? hunsigned
    · exact isJson_unsigned? hnumber

/-- Values, members and items that are read with some fuel are values of JSON. -/
structure ReadsJson (fuel : Nat) : Prop where
  value : ∀ {cursor after : Cursor} {value : Value},
    readValue fuel cursor = .ok (value, after) → value.IsJson
  members : ∀ {cursor after : Cursor} {pairs : List (String × Value)},
    readMembers fuel cursor = .ok (pairs, after) → ∀ pair ∈ pairs, pair.2.IsJson
  items : ∀ {cursor after : Cursor} {values : List Value},
    readItems fuel cursor = .ok (values, after) → ∀ value ∈ values, value.IsJson

section Readers

variable {fuel : Nat} {cursor after : Cursor}

theorem isJson_readValue (ih : ReadsJson fuel) {value : Value}
    (h : readValue (fuel + 1) cursor = .ok (value, after)) : value.IsJson := by
  rw [readValue] at h
  split at h
  · obtain ⟨before, -, heq⟩ := exists_of_map_eq_ok h
    obtain ⟨rfl, -⟩ := Prod.mk.inj heq
    exact .text _
  · dsimp only at h
    split at h
    · obtain ⟨rfl, -⟩ := Prod.mk.inj (Except.ok.inj h)
      exact .empty
    · obtain ⟨⟨pairs, last⟩, hpairs, heq⟩ := exists_of_map_eq_ok h
      obtain ⟨rfl, -⟩ := Prod.mk.inj heq
      exact .ofList (ih.members hpairs)
  · dsimp only at h
    split at h
    · obtain ⟨rfl, -⟩ := Prod.mk.inj (Except.ok.inj h)
      exact .list fun _ hmem => nomatch hmem
    · obtain ⟨⟨items, last⟩, hitems, heq⟩ := exists_of_map_eq_ok h
      obtain ⟨rfl, -⟩ := Prod.mk.inj heq
      exact .list (ih.items hitems)
  · split at h
    · rename_i scalar length hscalar
      obtain ⟨rfl, -⟩ := Prod.mk.inj (Except.ok.inj h)
      exact isJson_scalar? hscalar
    · cases h

theorem isJson_readMembers (ih : ReadsJson fuel) {pairs : List (String × Value)}
    (h : readMembers (fuel + 1) cursor = .ok (pairs, after)) : ∀ pair ∈ pairs, pair.2.IsJson := by
  rw [readMembers] at h
  split at h
  · obtain ⟨⟨name, afterName⟩, -, h⟩ := exists_of_bind_eq_ok h
    dsimp only at h
    split at h
    · obtain ⟨⟨value, afterValue⟩, hvalue, h⟩ := exists_of_bind_eq_ok h
      have hfirst := ih.value hvalue
      dsimp only at h
      split at h
      · obtain ⟨rfl, -⟩ := Prod.mk.inj (Except.ok.inj h)
        exact List.forall_mem_singleton.mpr hfirst
      · obtain ⟨⟨others, last⟩, hothers, h⟩ := exists_of_bind_eq_ok h
        obtain ⟨rfl, -⟩ := Prod.mk.inj (Except.ok.inj h)
        exact List.forall_mem_cons.mpr ⟨hfirst, ih.members hothers⟩
      · cases h
    · cases h
  · cases h

theorem isJson_readItems (ih : ReadsJson fuel) {values : List Value}
    (h : readItems (fuel + 1) cursor = .ok (values, after)) : ∀ value ∈ values, value.IsJson := by
  rw [readItems] at h
  obtain ⟨⟨value, afterValue⟩, hvalue, h⟩ := exists_of_bind_eq_ok h
  have hfirst := ih.value hvalue
  dsimp only at h
  split at h
  · obtain ⟨rfl, -⟩ := Prod.mk.inj (Except.ok.inj h)
    exact List.forall_mem_singleton.mpr hfirst
  · obtain ⟨⟨others, last⟩, hothers, h⟩ := exists_of_bind_eq_ok h
    obtain ⟨rfl, -⟩ := Prod.mk.inj (Except.ok.inj h)
    exact List.forall_mem_cons.mpr ⟨hfirst, ih.items hothers⟩
  · cases h

end Readers

theorem readsJson (fuel : Nat) : ReadsJson fuel := by
  induction fuel with
  | zero => exact ⟨fun h => by simp [readValue, Cursor.refuse] at h,
      fun h => by simp [readMembers, Cursor.refuse] at h,
      fun h => by simp [readItems, Cursor.refuse] at h⟩
  | succ fuel ih => exact ⟨isJson_readValue ih, isJson_readMembers ih, isJson_readItems ih⟩

theorem isJson_of_read {text : List Char} {value : Value} (h : read text = .ok value) :
    value.IsJson := by
  simp only [read] at h
  split at h
  · cases h
  · obtain ⟨⟨found, after⟩, hfound, h⟩ := exists_of_bind_eq_ok h
    dsimp only at h
    split at h
    · obtain rfl := Except.ok.inj h
      exact (readsJson _).value hfound
    · cases h

end Json

/-! ### Overlays -/

namespace Config

variable {entries : Entries Value}

theorem overlay_none (value : Value) : overlay none value = value := by
  cases value <;> rfl

theorem overlayEntries_of_nodup {base added : Entries Value}
    (h : (base ++ added).names.Nodup) : overlayEntries base added = base ++ added := by
  induction added generalizing base with
  | nil => rw [overlayEntries, List.append_nil]
  | cons entry rest ih =>
      have hnew : entry.1 ∉ base.names := fun hmem => by
        rw [Entries.names, List.map_append, List.nodup_append] at h
        exact h.2.2 entry.1 hmem entry.1 List.mem_cons_self rfl
      have hrest : ((base ++ [entry]) ++ rest).names.Nodup := by
        rwa [List.append_assoc, List.singleton_append]
      rw [overlayEntries, Entries.get?_eq_none_iff.mpr hnew, overlay_none,
        Entries.put_of_not_mem _ hnew, ih hrest, List.append_assoc, List.singleton_append]

theorem nil_merge (h : entries.names.Nodup) : merge [] entries = entries :=
  overlayEntries_of_nodup h

/-- A configuration over which nothing is laid stays as it is. -/
theorem merge_nil (entries : Entries Value) : merge entries [] = entries := by
  rw [merge, overlayEntries]

theorem overlayEntries_of_fixed {added : List (String × Value)}
    (h : ∀ entry ∈ added, ∃ old, entries.get? entry.1 = some old ∧ overlay (some old) entry.2 = old) :
    overlayEntries entries added = entries := by
  induction added with
  | nil => rw [overlayEntries]
  | cons entry rest ih =>
      obtain ⟨hentry, hrest⟩ := List.forall_mem_cons.mp h
      obtain ⟨old, hfound, hsame⟩ := hentry
      rw [overlayEntries, hfound, hsame, Entries.put_of_get? hfound, ih hrest]

theorem overlayEntries_of_subset {some : List (String × Value)} (hnames : entries.names.Nodup)
    (hsubset : ∀ entry ∈ some, entry ∈ entries)
    (hvalues : ∀ entry ∈ some, overlay (.some entry.2) entry.2 = entry.2) :
    overlayEntries entries some = entries :=
  overlayEntries_of_fixed fun entry hentry =>
    ⟨entry.2, Entries.get?_of_mem hnames (hsubset entry hentry), hvalues entry hentry⟩

theorem overlay_self {value : Value} (h : value.IsJson) : overlay (some value) value = value := by
  induction h with
  | map hnames _ ih =>
      rw [overlay]
      exact congrArg Value.map (overlayEntries_of_subset hnames (fun _ hmem => hmem) ih)
  | _ => rfl

theorem merge_self (h : Value.IsJson (.map entries)) : merge entries entries = entries :=
  overlayEntries_of_subset h.names (fun _ hmem => hmem) fun entry hmem =>
    overlay_self (h.values entry hmem)

end Config

end Cascade
