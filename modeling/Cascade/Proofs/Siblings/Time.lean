import Cascade.Run.Job
import Mathlib.Order.Basic

/-!
Times of a run. They are never negative and never not a number, so that two times of which none is
earlier are the same, and the next time at which a timer is due depends only on which times there are.
-/

namespace Cascade

namespace Binary64

/-- A time, finite or not, in its only notation. -/
def IsTime : Binary64 → Prop
  | nan => False
  | infinite negative | finite negative _ => negative = false

def IsFinite : Binary64 → Prop
  | finite _ _ => True
  | _ => False

instance : DecidablePred IsFinite
  | finite _ _ => isTrue trivial
  | nan | infinite _ => isFalse id

theorem isTime_zero : zero.IsTime :=
  rfl

theorem IsTime.add_isPositive {time delay : Binary64} (h : time.IsTime)
    (hdelay : delay.isPositive = true) : (time.add delay).IsTime := by
  cases delay with
  | nan => cases hdelay
  | infinite negative =>
      cases negative with
      | true => cases hdelay
      | false =>
          cases time with
          | nan => exact h
          | infinite other =>
              cases (h : other = false)
              exact rfl
          | finite other place => exact rfl
  | finite negative place =>
      have hnegative : negative = false := by
        cases negative with
        | false => rfl
        | true =>
            simp [isPositive, lt, zero, signedZero, rank?] at hdelay
            omega
      subst hnegative
      cases time with
      | nan => exact h
      | infinite other =>
          cases (h : other = false)
          exact rfl
      | finite other start =>
          cases (h : other = false)
          have hsum : ¬ (signedUnits false start + signedUnits false place < 0) := by
            simp only [signedUnits, Bool.false_eq_true, if_false]
            omega
          have hsign : (if signedUnits false start + signedUnits false place = 0 then false && false
              else decide (signedUnits false start + signedUnits false place < 0)) = false := by
            simp [hsum]
          simp only [add, hsign, ofUnits]
          split <;> rfl

theorem IsTime.eq_of_not_lt {first second : Binary64} (hfirst : first.IsTime)
    (hsecond : second.IsTime) (hone : first.IsFinite) (htwo : second.IsFinite)
    (hle : first.lt second = false) (hge : second.lt first = false) : first = second := by
  cases first with
  | nan | infinite => exact hone.elim
  | finite negative place =>
      cases second with
      | nan | infinite => exact htwo.elim
      | finite other spot =>
          cases (hfirst : negative = false)
          cases (hsecond : other = false)
          simp only [lt, rank?, Bool.false_eq_true, if_false, decide_eq_false_iff_not] at hle hge
          have heq : place = spot := Fin.ext (by omega)
          rw [heq]

theorem lt_irrefl (time : Binary64) : time.lt time = false := by
  cases time <;> simp [lt, rank?]

theorem lt_trans {first second third : Binary64} (h : first.lt second = true)
    (k : second.lt third = true) : first.lt third = true := by
  cases first <;> cases second <;> cases third <;>
    simp only [lt, rank?, decide_eq_true_eq, Bool.false_eq_true] at h k ⊢
  all_goals omega

end Binary64

/-- The earliest time at which one of the timers is due. -/
def Earliest (timers : List Timer) : Option Binary64 → Prop
  | none => ∀ timer ∈ timers, ¬ timer.due.IsFinite
  | some due => due.IsFinite ∧ (∃ timer ∈ timers, timer.due = due) ∧
      ∀ timer ∈ timers, timer.due.IsFinite → timer.due.lt due = false

theorem foldl_rec {γ δ : Type} {holds : List γ → δ → Prop} {step : δ → γ → δ}
    (snoc : ∀ before value item, holds before value → holds (before ++ [item]) (step value item))
    (items : List γ) {start : δ} (nil : holds [] start) : holds items (items.foldl step start) := by
  have hall : ∀ (rest before : List γ) (value : δ), holds before value →
      holds (before ++ rest) (rest.foldl step value) := by
    intro rest
    induction rest with
    | nil =>
        intro before value h
        rwa [List.append_nil]
    | cons item rest ih =>
        intro before value h
        have hnext := ih _ _ (snoc before value item h)
        rwa [List.append_assoc] at hnext
  exact hall items [] start nil

namespace World

variable {α : Type}

theorem earliest_nextDue? (world : World α) : Earliest world.timers world.nextDue? := by
  refine foldl_rec (fun before earliest timer h => ?_) world.timers fun _ h => by cases h
  split
  · rename_i negative place hdue
    have hfinite : timer.due.IsFinite := by
      rw [hdue]
      trivial
    have hself : ∀ other ∈ [timer], other.due.IsFinite → other.due.lt timer.due = false :=
      List.forall_mem_singleton.mpr fun _ => Binary64.lt_irrefl _
    cases earliest with
    | none =>
        refine ⟨hfinite, ⟨timer, by simp, rfl⟩, List.forall_mem_append.mpr ⟨?_, hself⟩⟩
        exact fun other hmem hother => absurd hother (h other hmem)
    | some due =>
        obtain ⟨hdueFinite, ⟨first, hfirst, hdueFirst⟩, hleast⟩ := h
        dsimp only
        split
        · rename_i hlt
          refine ⟨hfinite, ⟨timer, by simp, rfl⟩, List.forall_mem_append.mpr ⟨?_, hself⟩⟩
          intro other hmem hother
          refine Bool.eq_false_iff.mpr fun hearlier => ?_
          have hle := hleast other hmem hother
          rw [Binary64.lt_trans hearlier hlt] at hle
          cases hle
        · rename_i hle
          refine ⟨hdueFinite, ⟨first, by simp [hfirst], hdueFirst⟩, ?_⟩
          exact List.forall_mem_append.mpr ⟨hleast,
            List.forall_mem_singleton.mpr fun _ => Bool.eq_false_iff.mpr hle⟩
  · rename_i hdue
    have hinfinite : ¬ timer.due.IsFinite := by
      intro hfinite
      cases heq : timer.due with
      | finite negative place => exact hdue negative place heq
      | nan | infinite =>
          rw [heq] at hfinite
          exact hfinite
    cases earliest with
    | none => exact List.forall_mem_append.mpr ⟨h, List.forall_mem_singleton.mpr hinfinite⟩
    | some due =>
        obtain ⟨hdueFinite, ⟨first, hfirst, hdueFirst⟩, hleast⟩ := h
        refine ⟨hdueFinite, ⟨first, by simp [hfirst], hdueFirst⟩, ?_⟩
        exact List.forall_mem_append.mpr ⟨hleast,
          List.forall_mem_singleton.mpr fun hother => absurd hother hinfinite⟩

theorem nextDue?_eq_none_iff {world : World α} :
    world.nextDue? = none ↔ ∀ timer ∈ world.timers, ¬ timer.due.IsFinite := by
  have hearliest := world.earliest_nextDue?
  constructor
  · intro h
    rwa [h] at hearliest
  · intro h
    cases hdue : world.nextDue? with
    | none => rfl
    | some due =>
        rw [hdue] at hearliest
        obtain ⟨hfinite, ⟨timer, hmem, rfl⟩, -⟩ := hearliest
        exact absurd hfinite (h timer hmem)

/-- The next time at which a timer is due is the one that no other is earlier than. -/
theorem nextDue?_eq_some {world : World α} (htimers : ∀ timer ∈ world.timers, timer.due.IsTime)
    {due : Binary64} (h : Earliest world.timers (some due)) : world.nextDue? = some due := by
  obtain ⟨hfinite, ⟨timer, hmem, rfl⟩, hleast⟩ := h
  have hearliest := world.earliest_nextDue?
  cases hdue : world.nextDue? with
  | none =>
      rw [hdue] at hearliest
      exact absurd hfinite (hearliest timer hmem)
  | some other =>
      rw [hdue] at hearliest
      obtain ⟨hother, ⟨first, hfirst, rfl⟩, hfirstLeast⟩ := hearliest
      exact congrArg some ((htimers first hfirst).eq_of_not_lt (htimers timer hmem) hother hfinite
        (hleast first hfirst hother) (hfirstLeast timer hmem hfinite))

end World

end Cascade
