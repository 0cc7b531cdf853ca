import Cascade.Value
import Mathlib.Data.List.Basic
import Mathlib.Data.List.Induction

/-!
Entries and lists without repetitions. The names of the entries of a list are its distinct names in the
order of their first occurrence (`Entries.names_ofList`), and a name stands for its last occurrence
(`Entries.get?_ofList`).
-/

namespace Cascade

/-! ### Lists without repetitions -/

section Distinct

variable {α : Type} [DecidableEq α]

theorem eraseDups_concat (items : List α) (item : α) :
    (items ++ [item]).eraseDups =
      if item ∈ items then items.eraseDups else items.eraseDups ++ [item] := by
  rw [List.eraseDups_append]
  by_cases h : item ∈ items <;> simp [List.removeAll, List.eraseDups_cons, h]

theorem nodup_eraseDups (items : List α) : items.eraseDups.Nodup := by
  induction items using List.reverseRecOn with
  | nil => exact List.nodup_nil
  | append_singleton items item ih =>
      rw [eraseDups_concat]
      split
      · exact ih
      · rename_i h
        refine List.nodup_append.mpr ⟨ih, List.pairwise_singleton _ item, ?_⟩
        rintro other hother last hlast rfl
        rw [List.mem_singleton.mp hlast, List.mem_eraseDups] at hother
        exact h hother

end Distinct

/-! ### Lists in ascending order -/

section Ascending

variable {α : Type}

theorem pairwise_le_mergeSort_by (key : α → String) (items : List α) :
    (items.mergeSort fun left right => key left ≤ key right).Pairwise
      fun left right => key left ≤ key right := by
  refine List.Pairwise.imp of_decide_eq_true (List.pairwise_mergeSort ?_ ?_ items)
  · intro first second third hfirst hsecond
    exact decide_eq_true (String.le_trans (of_decide_eq_true hfirst) (of_decide_eq_true hsecond))
  · intro first second
    rw [Bool.or_eq_true, decide_eq_true_eq, decide_eq_true_eq]
    exact String.le_total ..

/-- The order is strict when no key comes twice. -/
theorem pairwise_lt_mergeSort_by (key : α → String) {items : List α} (h : (items.map key).Nodup) :
    (items.mergeSort fun left right => key left ≤ key right).Pairwise
      fun left right => key left < key right := by
  have hdistinct : (items.mergeSort fun left right => key left ≤ key right).Pairwise
      fun left right => key left ≠ key right :=
    List.pairwise_map.mp (((List.mergeSort_perm items _).map key).nodup_iff.mpr h)
  refine (pairwise_le_mergeSort_by key items).imp₂ (fun left right hle hne => ?_) hdistinct
  exact String.not_le.mp fun hback => hne (String.le_antisymm hle hback)

theorem mergeSort_by_eq_of_perm (key : α → String) {items sorted : List α}
    (hperm : sorted.Perm items) (h : sorted.Pairwise fun left right => key left < key right) :
    (items.mergeSort fun left right => key left ≤ key right) = sorted := by
  have hnodup : (items.map key).Nodup := by
    rw [← (hperm.map key).nodup_iff, List.Nodup, List.pairwise_map]
    refine h.imp fun hlt heq => ?_
    rw [heq] at hlt
    exact String.lt_irrefl _ hlt
  refine List.Perm.eq_of_pairwise (fun left right _ _ hlt hback => ?_)
    (pairwise_lt_mergeSort_by key hnodup) h ((List.mergeSort_perm items _).trans hperm.symm)
  exact absurd (String.lt_trans hlt hback) (String.lt_irrefl _)

end Ascending

/-! ### Entries -/

namespace Entries

section

variable {α : Type}

theorem ofList_concat (pairs : List (String × α)) (pair : String × α) :
    ofList (pairs ++ [pair]) = put pair.1 pair.2 (ofList pairs) :=
  List.foldl_concat ..

theorem names_ofList (pairs : List (String × α)) :
    (ofList pairs).names = (pairs.map Prod.fst).eraseDups := by
  induction pairs using List.reverseRecOn with
  | nil => rfl
  | append_singleton pairs pair ih =>
      rw [ofList_concat, names_put, ih, List.map_append, List.map_singleton, eraseDups_concat]
      simp only [List.mem_eraseDups]

theorem get?_ofList (front : List (String × α)) {name : String} (value : α)
    {back : List (String × α)} (h : name ∉ back.map Prod.fst) :
    (ofList (front ++ (name, value) :: back)).get? name = some value := by
  induction back using List.reverseRecOn with
  | nil => rw [ofList_concat, get?_put_self]
  | append_singleton back pair ih =>
      rw [List.map_append, List.mem_append, not_or, List.map_singleton, List.mem_singleton] at h
      rw [← List.cons_append, ← List.append_assoc, ofList_concat, get?_put_of_ne h.2, ih h.1]

end

section

variable {α : Type} {keys : List String} (give : String → α) (name : String)

theorem get?_map_keys :
    get? (keys.map fun key => (key, give key)) name = if name ∈ keys then some (give name) else none := by
  induction keys with
  | nil => rfl
  | cons key rest ih =>
      rw [List.map_cons, get?_cons, ih]
      by_cases h : key = name
      · simp [h]
      · simp [h, Ne.symm h]

theorem put_map_keys (value : α) (hnodup : keys.Nodup) :
    put name value (keys.map fun key => (key, give key)) =
      (if name ∈ keys then keys else keys ++ [name]).map fun key =>
        (key, if key = name then value else give key) := by
  induction keys with
  | nil => simp [put]
  | cons key rest ih =>
      obtain ⟨hout, hrest⟩ := List.nodup_cons.mp hnodup
      rw [List.map_cons, put]
      by_cases h : key = name
      · subst h
        have hothers : ∀ other ∈ rest, (other, give other) =
            (other, if other = key then value else give other) := by
          rintro other hother
          rw [if_neg]
          rintro rfl
          exact hout hother
        simp [List.map_congr_left hothers]
      · rw [if_neg h, ih hrest]
        by_cases hmem : name ∈ rest <;> simp [h, Ne.symm h, hmem]

end

section

variable {α β : Type}

def mapValues (change : α → β) (entries : Entries α) : Entries β :=
  entries.map fun entry => (entry.1, change entry.2)

theorem get?_mapValues (change : α → β) (entries : Entries α) (name : String) :
    (entries.mapValues change).get? name = (entries.get? name).map change := by
  induction entries with
  | nil => rfl
  | cons entry rest ih =>
      rw [mapValues, List.map_cons, get?_cons, get?_cons]
      split
      · rfl
      · exact ih

theorem put_mapValues (change : α → β) (entries : Entries α) (name : String) (value : α) :
    (entries.mapValues change).put name (change value) = (entries.put name value).mapValues change := by
  induction entries with
  | nil => rfl
  | cons entry rest ih =>
      rw [mapValues, List.map_cons, put, put]
      split
      · rfl
      · exact congrArg ((entry.1, change entry.2) :: ·) ih

end

end Entries

end Cascade
