import Cascade.Proofs.Config.Objects
import Mathlib.Tactic.ByContra

/-!
Overlays by path. A path is a list of names that leads from a mapping to a value inside it. Main
statement: the result of an overlay holds at every path what the override holds there, and what the base
holds where the override leaves the path open, each mapping with its names in order; laying nothing, the
same configuration or the same override once more changes nothing (`Config.merge_isOverlay`).
-/

namespace Cascade

namespace Value

/-- The value at a path of names inside a value. -/
def atPath? : List String → Value → Option Value
  | [], value => some value
  | name :: rest, .map entries => (Entries.get? entries name).bind (atPath? rest)
  | _ :: _, _ => none

def isMapping : Value → Bool
  | map _ => true
  | _ => false

theorem atPath?_cons_of_not_isMapping {value : Value} (h : value.isMapping = false) (name : String)
    (rest : List String) : value.atPath? (name :: rest) = none := by
  cases value with
  | map entries => cases h
  | _ => rfl

theorem IsJson.of_get? {entries : List (String × Value)} {name : String} {value : Value}
    (h : IsJson (.map entries)) (hvalue : Entries.get? entries name = some value) : value.IsJson := by
  obtain ⟨entry, hentry, rfl⟩ := Option.map_eq_some_iff.mp hvalue
  exact h.values entry (List.mem_of_find?_eq_some hentry)

theorem IsJson.of_atPath? {path : List String} {value inner : Value} (h : value.IsJson)
    (hinner : value.atPath? path = some inner) : inner.IsJson := by
  induction path generalizing value with
  | nil => exact Option.some.inj hinner ▸ h
  | cons name rest ih =>
      cases value with
      | map entries =>
          obtain ⟨next, hnext, hrest⟩ := Option.bind_eq_some_iff.mp hinner
          exact ih (h.of_get? hnext) hrest
      | _ => cases hinner

theorem atPath?_append (front back : List String) (value : Value) :
    value.atPath? (front ++ back) = (value.atPath? front).bind (atPath? back) := by
  induction front generalizing value with
  | nil => rfl
  | cons name rest ih =>
      cases value with
      | map entries =>
          rw [List.cons_append, atPath?, atPath?, Option.bind_assoc]
          exact Option.bind_congr fun inner _ => ih inner
      | _ => rfl

end Value

namespace Config

/-! ### One level -/

section

variable {override : Entries Value}

theorem get?_merge (hnames : override.names.Nodup) (base : Entries Value) (name : String) :
    (merge base override).get? name =
      match override.get? name with
      | none => base.get? name
      | some value => some (overlay (base.get? name) value) := by
  rw [merge]
  induction override generalizing base with
  | nil => rw [overlayEntries, Entries.get?_nil]
  | cons entry rest ih =>
      obtain ⟨hout, hrest⟩ := List.nodup_cons.mp (Entries.names_cons entry rest ▸ hnames)
      rw [overlayEntries, ih hrest, Entries.get?_cons]
      by_cases h : entry.1 = name
      · subst h
        rw [Entries.get?_eq_none_iff.mpr hout, if_pos rfl]
        exact Entries.get?_put_self ..
      · rw [if_neg h, Entries.get?_put_of_ne (Ne.symm h)]

theorem names_merge (hnames : override.names.Nodup) (base : Entries Value) :
    (merge base override).names =
      base.names ++ override.names.filter fun name => name ∉ base.names := by
  rw [merge]
  induction override generalizing base with
  | nil => simp [overlayEntries, Entries.names]
  | cons entry rest ih =>
      obtain ⟨hout, hrest⟩ := List.nodup_cons.mp (Entries.names_cons entry rest ▸ hnames)
      rw [overlayEntries, ih hrest, Entries.names_put, Entries.names_cons]
      by_cases h : entry.1 ∈ base.names
      · rw [if_pos h, List.filter_cons_of_neg (by simpa using h)]
      · have hsame : ((Entries.names rest).filter fun name => name ∉ base.names ++ [entry.1]) =
            (Entries.names rest).filter fun name => name ∉ base.names := by
          refine List.filter_congr fun name hmem => ?_
          have hne : name ≠ entry.1 := fun heq => hout (heq ▸ hmem)
          simp [hne]
        rw [if_neg h, List.filter_cons_of_pos (by simpa using h), hsame, List.append_assoc,
          List.singleton_append]

end

/-! ### Paths -/

section

variable {override value : Value} {path : List String}

theorem isMapping_overlay (base : Option Value) (override : Value) :
    (overlay base override).isMapping = override.isMapping := by
  cases override with
  | map entries => cases base with
    | none => rfl
    | some old => cases old <;> rfl
  | _ => rfl

theorem overlay_of_not_isMapping (h : override.isMapping = false) (base : Option Value) :
    overlay base override = override := by
  cases override with
  | map entries => cases h
  | _ => rfl

theorem overlay_over_not_isMapping (h : value.isMapping = false) (override : Value) :
    overlay (some value) override = override := by
  cases value with
  | map entries => cases h
  | _ => cases override <;> rfl

/-- A path is left open by a value: nothing is there, and every proper beginning of it that leads to
something leads to a mapping. -/
structure LeavesOpen (override : Value) (path : List String) : Prop where
  unbound : override.atPath? path = none
  through : ∀ front back value, back ≠ [] → path = front ++ back →
    override.atPath? front = some value → value.isMapping = true

theorem LeavesOpen.inside {entries : List (String × Value)} {name : String} {rest : List String}
    {inner : Value} (h : LeavesOpen (.map entries) (name :: rest))
    (hinner : Entries.get? entries name = some inner) : LeavesOpen inner rest where
  unbound := by
    have hnone := h.unbound
    rwa [Value.atPath?, hinner, Option.bind_some] at hnone
  through := by
    rintro front back value hback rfl hfront
    refine h.through (name :: front) back value hback rfl ?_
    rw [Value.atPath?, hinner, Option.bind_some, hfront]

theorem atPath?_overlay_cons {old new : List (String × Value)} (hnames : (Entries.names new).Nodup)
    (name : String) (rest : List String) :
    (overlay (some (.map old)) (.map new)).atPath? (name :: rest) =
      match Entries.get? new name with
      | none => (Value.map old).atPath? (name :: rest)
      | some inner => (overlay (Entries.get? old name) inner).atPath? rest := by
  rw [overlay, Value.atPath?]
  change (Entries.get? (merge old new) name).bind _ = _
  rw [get?_merge hnames]
  cases Entries.get? new name <;> rfl

theorem mapping_or_overlay_eq (base : Option Value) (new : List (String × Value)) :
    (∃ old, base = some (.map old)) ∨
      overlay base (.map new) = .map new ∧
        ∀ name rest, base.bind (Value.atPath? (name :: rest)) = none := by
  cases base with
  | none => exact .inr ⟨rfl, fun _ _ => rfl⟩
  | some value =>
      cases value with
      | map old => exact .inl ⟨old, rfl⟩
      | _ => exact .inr ⟨rfl, fun _ _ => rfl⟩

theorem atPath?_overlay (hjson : override.IsJson) (h : override.atPath? path = some value)
    (base : Option Value) :
    (overlay base override).atPath? path = some (overlay (base.bind (Value.atPath? path)) value) := by
  induction path generalizing base override with
  | nil =>
      obtain rfl := Option.some.inj h
      rw [Value.atPath?]
      cases base <;> rfl
  | cons name rest ih =>
      cases override with
      | map new =>
          rcases mapping_or_overlay_eq base new with ⟨old, rfl⟩ | ⟨hsame, hnone⟩
          · obtain ⟨inner, hinner, hvalue⟩ := Option.bind_eq_some_iff.mp h
            rw [atPath?_overlay_cons hjson.names, hinner]
            dsimp only
            rw [ih (hjson.of_get? hinner) hvalue]
            rfl
          · rw [hsame, h, hnone, overlay_none]
      | _ => cases h

theorem atPath?_overlay_of_leavesOpen (hjson : override.IsJson) (h : LeavesOpen override path)
    (base : Option Value) :
    (overlay base override).atPath? path = base.bind (Value.atPath? path) := by
  induction path generalizing base override with
  | nil => cases h.unbound
  | cons name rest ih =>
      cases override with
      | map new =>
          rcases mapping_or_overlay_eq base new with ⟨old, rfl⟩ | ⟨hsame, hnone⟩
          · rw [atPath?_overlay_cons hjson.names]
            cases hinner : Entries.get? new name with
            | none => rfl
            | some inner => exact ih (hjson.of_get? hinner) (h.inside hinner) (Entries.get? old name)
          · rw [hsame, h.unbound, hnone]
      | _ => cases h.through [] (name :: rest) _ (List.cons_ne_nil _ _) rfl rfl

theorem atPath?_or_of_not_leavesOpen (h : ¬ LeavesOpen override path) :
    (∃ value, override.atPath? path = some value) ∨
      ∃ front back value, back ≠ [] ∧ path = front ++ back ∧ override.atPath? front = some value ∧
        value.isMapping = false := by
  cases hvalue : override.atPath? path with
  | some value => exact .inl ⟨value, rfl⟩
  | none =>
      refine .inr ?_
      by_contra hnone
      refine h ⟨hvalue, fun front back value hback hpath hfront => ?_⟩
      by_contra hmapping
      exact hnone ⟨front, back, value, hback, hpath, hfront, by simpa using hmapping⟩

theorem atPath?_of_front {front back : List String} (hback : back ≠ [])
    (hfront : override.atPath? front = some value) (hvalue : value.isMapping = false) :
    override.atPath? (front ++ back) = none := by
  obtain ⟨name, rest, rfl⟩ := List.exists_cons_of_ne_nil hback
  rw [Value.atPath?_append, hfront, Option.bind_some, Value.atPath?_cons_of_not_isMapping hvalue]

theorem atPath?_overlay_of_not_leavesOpen (hjson : override.IsJson) (h : ¬ LeavesOpen override path)
    (base : Option Value) (hbase : base.bind (Value.atPath? path) = some value)
    (hvalue : value.isMapping = false) :
    (overlay base override).atPath? path = override.atPath? path := by
  rcases atPath?_or_of_not_leavesOpen h with ⟨new, hnew⟩ | ⟨front, back, last, hback, rfl, hfront, hlast⟩
  · rw [atPath?_overlay hjson hnew, hbase, hnew, overlay_over_not_isMapping hvalue]
  · have hresult := atPath?_overlay hjson hfront base
    rw [overlay_of_not_isMapping hlast] at hresult
    rw [atPath?_of_front hback hresult hlast, atPath?_of_front hback hfront hlast]

theorem origin_of_atPath?_overlay (hjson : override.IsJson) (hvalue : value.isMapping = false)
    {base : Option Value} (h : (overlay base override).atPath? path = some value) :
    override.atPath? path = some value ∨
      base.bind (Value.atPath? path) = some value ∧ LeavesOpen override path := by
  by_cases hopen : LeavesOpen override path
  · exact .inr ⟨(atPath?_overlay_of_leavesOpen hjson hopen base).symm.trans h, hopen⟩
  · refine .inl ?_
    rcases atPath?_or_of_not_leavesOpen hopen with
      ⟨new, hnew⟩ | ⟨front, back, last, hback, rfl, hfront, hlast⟩
    · have hlaid := Option.some.inj ((atPath?_overlay hjson hnew base).symm.trans h)
      have hnotMapping : new.isMapping = false := by
        rw [← isMapping_overlay, hlaid, hvalue]
      rw [hnew, ← hlaid, overlay_of_not_isMapping hnotMapping]
    · have hresult := atPath?_overlay hjson hfront base
      rw [overlay_of_not_isMapping hlast] at hresult
      cases (atPath?_of_front hback hresult hlast).symm.trans h

/-! ### Laying the same override once more -/

theorem overlay_overlay (hjson : override.IsJson) (base : Option Value) :
    overlay (some (overlay base override)) override = overlay base override := by
  induction hjson generalizing base with
  | @map entries hnames hvalues ih =>
      rcases mapping_or_overlay_eq base entries with ⟨old, rfl⟩ | ⟨hsame, -⟩
      · refine congrArg Value.map (overlayEntries_of_fixed fun entry hentry => ?_)
        have hfound := get?_merge hnames old entry.1
        rw [Entries.get?_of_mem hnames hentry] at hfound
        exact ⟨_, hfound, ih entry hentry _⟩
      · rw [hsame, overlay_self (.map hnames hvalues)]
  | _ => rfl

end

/-! ### The law of overlays -/

/-- What makes entries the overlay of an override on a base. -/
structure IsOverlay (base override result : Entries Value) : Prop where
  /-- What the override holds at a path, if it is no mapping, is what the result holds there. -/
  override_counts : ∀ path value, value.isMapping = false →
    (Value.map override).atPath? path = some value → (Value.map result).atPath? path = some value
  /-- What the base holds at a path, if it is no mapping, is what the result holds there (and not because
  the override holds the same there) exactly if the override leaves the path open. -/
  base_counts_iff : ∀ path value, value.isMapping = false →
    (Value.map base).atPath? path = some value →
    ((Value.map result).atPath? path = some value ∧
        (Value.map override).atPath? path ≠ some value ↔
      LeavesOpen (.map override) path)
  /-- Otherwise the result holds at that path what the override does, or nothing if it holds nothing. -/
  base_replaced : ∀ path value, value.isMapping = false →
    (Value.map base).atPath? path = some value → ¬ LeavesOpen (.map override) path →
    (Value.map result).atPath? path = (Value.map override).atPath? path
  /-- The result holds nothing else, mappings apart. -/
  origin : ∀ path value, value.isMapping = false →
    (Value.map result).atPath? path = some value →
    (Value.map override).atPath? path = some value ∨
      (Value.map base).atPath? path = some value ∧ LeavesOpen (.map override) path
  /-- A mapping on both sides has the base's names in their order, and then the new ones of the override
  in theirs. -/
  order : ∀ path old new, (Value.map base).atPath? path = some (.map old) →
    (Value.map override).atPath? path = some (.map new) →
    ∃ entries, (Value.map result).atPath? path = some (.map entries) ∧
      Entries.names entries =
        Entries.names old ++ (Entries.names new).filter fun name => name ∉ Entries.names old

/-- A configuration laid over another is their overlay at every path. Laid over nothing, under nothing
or over itself a configuration stays as it is, and an override that is laid once more changes nothing. -/
theorem merge_isOverlay {base override : Entries Value} (hbase : Value.IsJson (.map base))
    (hoverride : Value.IsJson (.map override)) :
    IsOverlay base override (merge base override) ∧ merge base [] = base ∧ merge [] base = base ∧
      merge base base = base ∧ merge (merge base override) override = merge base override := by
  have hmerge : Value.map (merge base override) = overlay (some (.map base)) (.map override) := rfl
  have horigin : ∀ path value, value.isMapping = false →
      (Value.map (merge base override)).atPath? path = some value →
      (Value.map override).atPath? path = some value ∨
        (Value.map base).atPath? path = some value ∧ LeavesOpen (.map override) path :=
    fun path value hvalue h => origin_of_atPath?_overlay hoverride hvalue (hmerge ▸ h)
  refine ⟨?_, merge_nil base, nil_merge hbase.names, merge_self hbase, ?_⟩
  · exact {
      override_counts := by
        intro path value hvalue h
        rw [hmerge, atPath?_overlay hoverride h, overlay_of_not_isMapping hvalue]
      base_counts_iff := by
        intro path value hvalue h
        constructor
        · rintro ⟨hresult, hother⟩
          exact ((horigin path value hvalue hresult).resolve_left hother).2
        · intro hopen
          refine ⟨?_, by simp [hopen.unbound]⟩
          rw [hmerge, atPath?_overlay_of_leavesOpen hoverride hopen, Option.bind_some, h]
      base_replaced := by
        intro path value hvalue h hopen
        exact atPath?_overlay_of_not_leavesOpen hoverride hopen (some (.map base)) h hvalue
      origin := horigin
      order := by
        intro path old new hold hnew
        refine ⟨merge old new, ?_, names_merge (hoverride.of_atPath? hnew).names old⟩
        rw [hmerge, atPath?_overlay hoverride hnew, Option.bind_some, hold]
        rfl }
  · exact Value.map.inj (overlay_overlay hoverride (some (.map base)))

/-- A configuration with mappings, a text, numbers and a list. -/
def manifold : Entries Value :=
  [("a", .map [("x", .integer 1), ("y", .text "s")]), ("b", .integer 2), ("c", .list [.null])]

/-- A configuration that has another kind of value at each path that both have. -/
def contrary : Entries Value :=
  [("d", .boolean true), ("c", .map []), ("b", .map [("x", .null)]), ("a", .map [("z", .null), ("y", .map [])])]

theorem merge_manifold_contrary_isOverlay :
    Value.IsJson (.map manifold) ∧ Value.IsJson (.map contrary) ∧
      IsOverlay manifold contrary (merge manifold contrary) ∧ merge manifold [] = manifold ∧
      merge [] manifold = manifold ∧ merge manifold manifold = manifold ∧
      merge (merge manifold contrary) contrary = merge manifold contrary := by
  have hmanifold : Value.IsJson (.map manifold) := by
    refine .map (by decide) ?_
    simp only [manifold, List.forall_mem_cons]
    refine ⟨.map (by decide) ?_, .integer 2, .list ?_, List.forall_mem_nil _⟩
    · simp only [List.forall_mem_cons]
      exact ⟨.integer 1, .text "s", List.forall_mem_nil _⟩
    · simp only [List.forall_mem_cons]
      exact ⟨.null, List.forall_mem_nil _⟩
  have hcontrary : Value.IsJson (.map contrary) := by
    refine .map (by decide) ?_
    simp only [contrary, List.forall_mem_cons]
    refine ⟨.boolean true, .empty, .map (by decide) ?_, .map (by decide) ?_, List.forall_mem_nil _⟩
    · simp only [List.forall_mem_cons]
      exact ⟨.null, List.forall_mem_nil _⟩
    · simp only [List.forall_mem_cons]
      exact ⟨.null, .empty, List.forall_mem_nil _⟩
  exact ⟨hmanifold, hcontrary, merge_isOverlay hmanifold hcontrary⟩

example : merge manifold contrary =
    [("a", .map [("x", .integer 1), ("y", .map []), ("z", .null)]), ("b", .map [("x", .null)]),
      ("c", .map []), ("d", .boolean true)] := rfl

end Config

end Cascade
