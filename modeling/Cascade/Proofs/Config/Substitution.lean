import Cascade.Config.Environment
import Cascade.Proofs.Config.Overlay
import Cascade.Proofs.Registry.Entries
import Mathlib.Data.Multiset.AddSub
import Mathlib.Data.Multiset.Count

/-!
References and layers. Replacing the references never changes which names a mapping has, nor whether a
value is a mapping, and these are all that an overlay looks at. Main statement: the references may be
replaced before or after a configuration is laid over another (`Config.substitute_merge`).
-/

namespace Cascade

/-! ### Values inside of values -/

@[elab_as_elim]
theorem Value.inside_induction {motive : Value → Prop} (null : motive .null)
    (boolean : ∀ flag, motive (.boolean flag)) (integer : ∀ number, motive (.integer number))
    (float : ∀ number, motive (.float number)) (text : ∀ characters, motive (.text characters))
    (list : ∀ items, (∀ item ∈ items, motive item) → motive (.list items))
    (sequence : ∀ items, motive (.sequence items))
    (map : ∀ entries : List (String × Value), (∀ entry ∈ entries, motive entry.2) →
      motive (.map entries)) (value : Value) : motive value := by
  refine @Value.rec motive (fun items => ∀ item ∈ items, motive item)
    (fun entries => ∀ entry ∈ entries, motive entry.2) (fun entry => motive entry.2) null boolean
    integer float text list (fun items _ => sequence items) map ?_ ?_ ?_ ?_ ?_ value
  · exact List.forall_mem_nil _
  · exact fun _ _ hfirst hrest => List.forall_mem_cons.mpr ⟨hfirst, hrest⟩
  · exact List.forall_mem_nil _
  · exact fun _ _ hfirst hrest => List.forall_mem_cons.mpr ⟨hfirst, hrest⟩
  · exact fun _ _ hvalue => hvalue

namespace Config

/-! ### Parts of a value -/

section Parts

variable (environment : Environment)

theorem substituteItems_eq (items : List Value) : substituteItems environment items =
    (items.map fun item => (substitute environment item).1,
      items.flatMap fun item => (substitute environment item).2) := by
  induction items with
  | nil => rfl
  | cons item rest ih =>
      rw [substituteItems, ih]
      rfl

theorem substituteEntries_eq (entries : Entries Value) : substituteEntries environment entries =
    (entries.mapValues fun value => (substitute environment value).1,
      entries.flatMap fun entry => (substitute environment entry.2).2) := by
  induction entries with
  | nil => rfl
  | cons entry rest ih =>
      rw [substituteEntries, ih]
      rfl

theorem substitute_map (entries : Entries Value) : substitute environment (.map entries) =
    (.map (substituteEntries environment entries).1, (substituteEntries environment entries).2) :=
  rfl

theorem isMapping_substitute (value : Value) :
    (substitute environment value).1.isMapping = value.isMapping := by
  cases value <;> rfl

theorem atPath?_substitute (path : List String) (value : Value) :
    (substitute environment value).1.atPath? path =
      (value.atPath? path).map fun inner => (substitute environment inner).1 := by
  induction path generalizing value with
  | nil => rfl
  | cons name rest ih =>
      cases value with
      | map entries =>
          rw [substitute_map, substituteEntries_eq, Value.atPath?, Entries.get?_mapValues,
            Value.atPath?]
          cases Entries.get? entries name with
          | none => rfl
          | some inner => exact ih inner
      | _ => rfl

theorem leavesOpen_substitute_iff (value : Value) (path : List String) :
    LeavesOpen (substitute environment value).1 path ↔ LeavesOpen value path := by
  constructor
  · intro h
    refine ⟨?_, fun front back inner hback hpath hfront => ?_⟩
    · have hnone := h.unbound
      rwa [atPath?_substitute, Option.map_eq_none_iff] at hnone
    · rw [← isMapping_substitute environment]
      refine h.through front back _ hback hpath ?_
      rw [atPath?_substitute, hfront, Option.map_some]
  · intro h
    refine ⟨?_, fun front back inner hback hpath hfront => ?_⟩
    · rw [atPath?_substitute, h.unbound, Option.map_none]
    · rw [atPath?_substitute] at hfront
      obtain ⟨old, hold, rfl⟩ := Option.map_eq_some_iff.mp hfront
      rw [isMapping_substitute]
      exact h.through front back old hback hpath hold

end Parts

/-! ### Overlays of changed values -/

section Overlays

variable {added : List (String × Value)}

theorem mapValues_overlayEntries {change : Value → Value}
    (h : ∀ entry ∈ added, ∀ base,
      change (overlay base entry.2) = overlay (base.map change) (change entry.2))
    (base : Entries Value) :
    (overlayEntries base added).mapValues change =
      overlayEntries (base.mapValues change) (Entries.mapValues change added) := by
  induction added generalizing base with
  | nil => rfl
  | cons entry rest ih =>
      obtain ⟨hentry, hrest⟩ := List.forall_mem_cons.mp h
      have hlaid : (base.put entry.1 (overlay (base.get? entry.1) entry.2)).mapValues change =
          (base.mapValues change).put entry.1
            (overlay ((base.mapValues change).get? entry.1) (change entry.2)) := by
        rw [← Entries.put_mapValues, hentry, Entries.get?_mapValues]
      calc
        _ = overlayEntries
              ((base.put entry.1 (overlay (base.get? entry.1) entry.2)).mapValues change)
              (Entries.mapValues change rest) := ih hrest _
        _ = _ := by rw [hlaid]; rfl

theorem substitute_overlay (environment : Environment) (base : Option Value) (value : Value) :
    (substitute environment (overlay base value)).1 =
      overlay (base.map fun old => (substitute environment old).1)
        (substitute environment value).1 := by
  induction value using Value.inside_induction generalizing base with
  | map entries ih =>
      rcases base with _ | (_ | _ | _ | _ | _ | _ | _ | old)
      case some.map =>
        rw [Option.map_some, overlay, substitute_map, substitute_map, substitute_map, overlay,
          substituteEntries_eq, substituteEntries_eq, substituteEntries_eq]
        dsimp only
        exact congrArg Value.map (mapValues_overlayEntries ih old)
      all_goals rfl
  | _ => rfl

/-! ### Weights -/

/-- The weight of entries whose values have weights. -/
def weightOf (weight : Value → Nat) : List (String × Value) → Nat
  | [] => 0
  | entry :: rest => weight entry.2 + weightOf weight rest

theorem weightOf_put (weight : Value → Nat) (name : String) (value : Value)
    (entries : Entries Value) :
    weightOf weight (entries.put name value) + ((entries.get? name).map weight).getD 0 =
      weightOf weight entries + weight value := by
  induction entries with
  | nil => simp [weightOf, Entries.put, Entries.get?_nil]
  | cons entry rest ih =>
      rw [Entries.put, Entries.get?_cons]
      split
      · simp only [weightOf, Option.map_some, Option.getD_some]
        omega
      · simp only [weightOf]
        omega

theorem weightOf_overlayEntries_le {weight : Value → Nat}
    (h : ∀ entry ∈ added, ∀ base,
      weight (overlay base entry.2) ≤ (base.map weight).getD 0 + weight entry.2)
    (base : Entries Value) :
    weightOf weight (overlayEntries base added) ≤ weightOf weight base + weightOf weight added := by
  induction added generalizing base with
  | nil => exact Nat.le_refl _
  | cons entry rest ih =>
      obtain ⟨hentry, hrest⟩ := List.forall_mem_cons.mp h
      have hput := weightOf_put weight entry.1 (overlay (base.get? entry.1) entry.2) base
      have hlaid := hentry (base.get? entry.1)
      have hlater := ih hrest (base.put entry.1 (overlay (base.get? entry.1) entry.2))
      rw [overlayEntries, weightOf]
      omega

/-- How often a name is missed in a value. -/
def missed (environment : Environment) (name : String) (value : Value) : Nat :=
  (substitute environment value).2.count name

theorem count_unset (environment : Environment) (name : String) (entries : Entries Value) :
    (substituteEntries environment entries).2.count name =
      weightOf (missed environment name) entries := by
  rw [substituteEntries_eq]
  induction entries with
  | nil => rfl
  | cons entry rest ih => rw [List.flatMap_cons, List.count_append, weightOf, ih, missed]

theorem missed_overlay_le (environment : Environment) (name : String) (base : Option Value)
    (value : Value) :
    missed environment name (overlay base value) ≤
      (base.map (missed environment name)).getD 0 + missed environment name value := by
  induction value using Value.inside_induction generalizing base with
  | map entries ih =>
      rcases base with _ | (_ | _ | _ | _ | _ | _ | _ | old)
      case some.map =>
        simp only [overlay, Option.map_some, Option.getD_some, missed, substitute_map, count_unset]
        exact weightOf_overlayEntries_le ih old
      all_goals exact Nat.le_add_left _ _
  | _ => exact Nat.le_add_left _ _

end Overlays

/-! ### Configurations -/

/-- The references may be replaced before or after a configuration is laid over another: the result is
the same, with its names in the same order, and afterwards no name is missed more often. At every path
the override decides by itself whether it leaves the path open. -/
theorem substitute_merge (environment : Environment) (base override : Entries Value) :
    (substituteEntries environment (merge base override)).1 =
        merge (substituteEntries environment base).1 (substituteEntries environment override).1 ∧
      ((substituteEntries environment (merge base override)).2 : Multiset String) ≤
        ((substituteEntries environment base).2 : Multiset String) +
          ((substituteEntries environment override).2 : Multiset String) ∧
      ∀ path, LeavesOpen (.map (substituteEntries environment override).1) path ↔
        LeavesOpen (.map override) path := by
  refine ⟨?_, ?_, fun path => leavesOpen_substitute_iff environment (.map override) path⟩
  · have hlaid := substitute_overlay environment (some (.map base)) (.map override)
    exact Value.map.inj hlaid
  · rw [Multiset.le_iff_count]
    intro name
    rw [Multiset.count_add, Multiset.coe_count, Multiset.coe_count, Multiset.coe_count]
    exact missed_overlay_le environment name (some (.map base)) (.map override)

end Config

end Cascade
