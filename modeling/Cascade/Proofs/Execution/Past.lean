import Cascade.Proofs.Run.Observation
import Mathlib.Data.List.Basic

/-!
The past of one execution, the newest happening first: which happenings would complete it, and what
its cell has to hold. The earliest of these outcomes counts, and each later one is ignored with a
warning.
-/

namespace Cascade

namespace Happening

/-- The outcome with which a happening would complete an execution that may be complete already. A
value that the call gives counts only for a command that does not call back, and only when nothing
completed the execution during the call. -/
def attempt? (command : Command) (isComplete : Bool) : Happening → Option Outcome
  | refused arguments =>
      some (.failure command.name (refusal command.info arguments.kind))
  | completed result => some ⟨command.name, result⟩
  | raised fault => some (.failure command.name fault)
  | returned value =>
      if command.convention = .callback || isComplete then none
      else some (.success command.name value)
  | ended result => some (outcomeOf command.name result)
  | _ => none

def ignored? : Happening → Option Outcome
  | ignored outcome => some outcome
  | _ => none

def yielded? : Happening → Option Outcome
  | yielded outcome => some outcome
  | _ => none

/-- Whether the call gives something to wait for. -/
def isPromise : Happening → Bool
  | promised _ => true
  | _ => false

theorem of_attempt? {command : Command} {isComplete : Bool} {happening : Happening}
    {outcome : Outcome} (h : happening.attempt? command isComplete = some outcome) :
    happening.ignored? = none ∧ happening.yielded? = none ∧ happening.isPromise = false ∧
      happening ≠ .dropped ∧ ∀ fault, happening ≠ .escaped fault := by
  cases happening <;> simp_all [attempt?, ignored?, yielded?, isPromise]

end Happening

namespace Past

/-- The outcomes that would have completed an execution, the newest first. -/
def attempts (command : Command) : List Happening → List Outcome
  | [] => []
  | happening :: past =>
      (happening.attempt? command (!(attempts command past).isEmpty)).toList ++
        attempts command past

def ignored (past : List Happening) : List Outcome :=
  past.filterMap Happening.ignored?

/-- The outcomes that were given to the caller. -/
def yields (past : List Happening) : List Outcome :=
  past.filterMap Happening.yielded?

/-- The caller has got an outcome, or the call was cancelled. -/
def IsClosed (past : List Happening) : Prop :=
  (∃ outcome, .yielded outcome ∈ past) ∨ ∃ fault, .escaped fault ∈ past

/-- The call gave something to wait for, before anything completed the execution. -/
def Adopts (command : Command) (past : List Happening) : Prop :=
  ∃ later started earlier,
    past = later ++ .promised started :: earlier ∧ attempts command earlier = []

/-- The state of a cell is what the past of its execution makes of it. -/
def Accounts (command : Command) (past : List Happening) : CellState → Prop
  | .pending =>
      attempts command past = [] ∧ ignored past = [] ∧ yields past = [] ∧ .dropped ∉ past
  | .settled outcome =>
      (attempts command past).getLast? = some outcome ∧
        ignored past = (attempts command past).dropLast ∧
        (yields past = [] ∨ yields past = [outcome]) ∧ .dropped ∉ past
  | .dropped =>
      ignored past = [] ∧ yields past = [] ∧
        ∃ later earlier, past = later ++ .dropped :: earlier ∧ attempts command earlier = []

/-- The call gives something to wait for once at most, and the end of it counts only if nothing had
completed the execution before. -/
def KeepsPromise (command : Command) (past : List Happening) : Prop :=
  past.countP Happening.isPromise ≤ 1 ∧
    ∀ later result earlier, past = later ++ .ended result :: earlier → Adopts command earlier

theorem attempts_cons (command : Command) (happening : Happening) (past : List Happening) :
    attempts command (happening :: past) =
      (happening.attempt? command (!(attempts command past).isEmpty)).toList ++
        attempts command past := rfl

theorem ignored_cons (happening : Happening) (past : List Happening) :
    ignored (happening :: past) = happening.ignored?.toList ++ ignored past := by
  cases h : happening.ignored? <;> simp [ignored, h]

theorem yields_cons (happening : Happening) (past : List Happening) :
    yields (happening :: past) = happening.yielded?.toList ++ yields past := by
  cases h : happening.yielded? <;> simp [yields, h]

theorem mem_yields {past : List Happening} {outcome : Outcome} :
    outcome ∈ yields past ↔ .yielded outcome ∈ past := by
  refine ⟨fun h => ?_, fun h => List.mem_filterMap.mpr ⟨_, h, rfl⟩⟩
  obtain ⟨happening, hmem, hyield⟩ := List.mem_filterMap.mp h
  cases happening with
  | yielded given =>
      obtain rfl := Option.some.inj hyield
      exact hmem
  | _ => cases hyield

theorem Accounts.mem_attempts {command : Command} {past : List Happening} {state : CellState}
    (h : Accounts command past state) {outcome : Outcome} (hyielded : .yielded outcome ∈ past) :
    outcome ∈ attempts command past := by
  have hmem : outcome ∈ yields past := mem_yields.mpr hyielded
  cases state with
  | pending => exact absurd (h.2.2.1 ▸ hmem) List.not_mem_nil
  | dropped => exact absurd (h.2.1 ▸ hmem) List.not_mem_nil
  | settled first =>
      obtain ⟨hlast, -, hnone | hone, -⟩ := h
      · exact absurd (hnone ▸ hmem) List.not_mem_nil
      · rw [hone] at hmem
        obtain rfl := List.mem_singleton.mp hmem
        exact List.mem_of_getLast? hlast

theorem yields_eq_nil_of_not_isClosed {past : List Happening} (h : ¬ IsClosed past) :
    yields past = [] := by
  apply List.filterMap_eq_nil_iff.mpr
  intro happening hmem
  cases happening with
  | yielded outcome => exact absurd (Or.inl ⟨outcome, hmem⟩) h
  | _ => rfl

theorem IsClosed.cons {past : List Happening} (h : IsClosed past) (happening : Happening) :
    IsClosed (happening :: past) := by
  rcases h with ⟨outcome, hmem⟩ | ⟨fault, hmem⟩
  · exact .inl ⟨outcome, List.mem_cons_of_mem _ hmem⟩
  · exact .inr ⟨fault, List.mem_cons_of_mem _ hmem⟩

theorem isClosed_cons_iff {past : List Happening} {happening : Happening}
    (hyield : happening.yielded? = none) (hescape : ∀ fault, happening ≠ .escaped fault) :
    IsClosed (happening :: past) ↔ IsClosed past := by
  constructor
  · rintro (⟨outcome, hmem⟩ | ⟨fault, hmem⟩)
    · rcases List.mem_cons.mp hmem with rfl | hmem
      · cases hyield
      · exact .inl ⟨outcome, hmem⟩
    · rcases List.mem_cons.mp hmem with rfl | hmem
      · exact absurd rfl (hescape fault)
      · exact .inr ⟨fault, hmem⟩
  · intro h
    exact h.cons happening

theorem exists_attempts_append (command : Command) (later past : List Happening) :
    ∃ newer, attempts command (later ++ past) = newer ++ attempts command past := by
  induction later with
  | nil => exact ⟨[], rfl⟩
  | cons happening rest ih =>
      obtain ⟨newer, hnewer⟩ := ih
      rw [List.cons_append, attempts_cons, hnewer, ← List.append_assoc]
      exact ⟨_, rfl⟩

theorem Accounts.settled_stays {command : Command} {later past : List Happening}
    {outcome : Outcome} {state : CellState} (h : Accounts command past (.settled outcome))
    (k : Accounts command (later ++ past) state) : state = .settled outcome := by
  obtain ⟨hfirst, -, -, hkept⟩ := h
  obtain ⟨newer, hnewer⟩ := exists_attempts_append command later past
  have hlast : (attempts command (later ++ past)).getLast? = some outcome := by
    rw [hnewer, List.getLast?_append, hfirst]
    rfl
  cases state with
  | pending =>
      rw [k.1] at hlast
      cases hlast
  | settled other => rw [Option.some.inj (k.1.symm.trans hlast)]
  | dropped =>
      obtain ⟨-, -, after, before, hsplit, hnone⟩ := k
      -- the execution was given up later, when it was complete already
      obtain ⟨middle, hmiddle⟩ : ∃ middle, before = middle ++ past := by
        rcases List.append_eq_append_iff.mp hsplit with ⟨rest, hafter, hpast⟩ | ⟨rest, hlater, hdrop⟩
        · exact absurd (hpast ▸ by simp) hkept
        · cases rest with
          | nil =>
              rw [List.nil_append] at hdrop
              exact absurd (hdrop ▸ by simp) hkept
          | cons first others =>
              obtain ⟨-, hbefore⟩ := List.cons.inj hdrop
              exact ⟨others, hbefore⟩
      obtain ⟨earlier, hearlier⟩ := exists_attempts_append command middle past
      rw [hmiddle, hearlier] at hnone
      rw [(List.append_eq_nil_iff.mp hnone).2] at hfirst
      cases hfirst

theorem Accounts.not_pending_stays {command : Command} {later past : List Happening}
    {state other : CellState} (h : Accounts command past state) (hstate : state ≠ .pending)
    (k : Accounts command (later ++ past) other) : other ≠ .pending := by
  rintro rfl
  cases state with
  | pending => exact hstate rfl
  | settled outcome => cases h.settled_stays k
  | dropped =>
      obtain ⟨-, -, -, hkept⟩ := k
      obtain ⟨-, -, after, before, rfl, -⟩ := h
      exact hkept (by simp)

/-! ### One more happening -/

/-- A happening that completes nothing and says nothing about the outcome. -/
theorem Accounts.cons {command : Command} {past : List Happening} {state : CellState}
    (h : Accounts command past state) {happening : Happening}
    (hattempt : happening.attempt? command (!(attempts command past).isEmpty) = none)
    (hignored : happening.ignored? = none) (hyield : happening.yielded? = none)
    (hdrop : happening ≠ .dropped) : Accounts command (happening :: past) state := by
  have hattempts : attempts command (happening :: past) = attempts command past := by
    rw [attempts_cons, hattempt]
    rfl
  have hignores : ignored (happening :: past) = ignored past := by
    simp [ignored_cons, hignored]
  have hyields : yields (happening :: past) = yields past := by
    simp [yields_cons, hyield]
  cases state with
  | pending =>
      obtain ⟨ha, hi, hy, hd⟩ := h
      exact ⟨hattempts ▸ ha, hignores ▸ hi, hyields ▸ hy, by simp [hd, hdrop.symm]⟩
  | settled outcome =>
      obtain ⟨ha, hi, hy, hd⟩ := h
      refine ⟨hattempts ▸ ha, ?_, hyields ▸ hy, by simp [hd, hdrop.symm]⟩
      rw [hignores, hattempts, hi]
  | dropped =>
      obtain ⟨hi, hy, later, earlier, rfl, ha⟩ := h
      exact ⟨hignores ▸ hi, hyields ▸ hy, happening :: later, earlier, rfl, ha⟩

theorem Accounts.settle {command : Command} {past : List Happening}
    (h : Accounts command past .pending) {happening : Happening} {outcome : Outcome}
    (hattempt : happening.attempt? command false = some outcome) :
    Accounts command (happening :: past) (.settled outcome) := by
  obtain ⟨ha, hi, hy, hd⟩ := h
  have hattempts : attempts command (happening :: past) = [outcome] := by
    simp [attempts_cons, ha, hattempt]
  obtain ⟨hignored, hyield, -, hdrop, -⟩ := Happening.of_attempt? hattempt
  refine ⟨by simp [hattempts], ?_, .inl ?_, by simp [hd, hdrop.symm]⟩
  · simpa [ignored_cons, hignored, hattempts] using hi
  · simpa [yields_cons, hyield] using hy

theorem Accounts.ignore {command : Command} {past : List Happening} {first : Outcome}
    (h : Accounts command past (.settled first)) {happening : Happening} {outcome : Outcome}
    (hattempt : happening.attempt? command true = some outcome) :
    Accounts command (.ignored outcome :: happening :: past) (.settled first) := by
  obtain ⟨ha, hi, hy, hd⟩ := h
  obtain ⟨newest, others, hcons⟩ : ∃ newest others, attempts command past = newest :: others := by
    cases hpast : attempts command past with
    | nil => simp [hpast] at ha
    | cons newest others => exact ⟨newest, others, rfl⟩
  have hattempts : attempts command (.ignored outcome :: happening :: past) =
      outcome :: attempts command past := by
    rw [attempts_cons, attempts_cons, hcons]
    simp only [List.isEmpty_cons, Bool.not_false, hattempt]
    rfl
  obtain ⟨hignored, hyield, -, hdrop, -⟩ := Happening.of_attempt? hattempt
  refine ⟨?_, ?_, ?_, by simp [hd, hdrop.symm]⟩
  · rw [hattempts, hcons, List.getLast?_cons_cons, ← hcons, ha]
  · rw [hattempts, hcons, List.dropLast_cons_cons, ← hcons, ← hi]
    rw [ignored_cons, ignored_cons, hignored]
    rfl
  · rw [yields_cons, yields_cons, hyield]
    exact hy

theorem Accounts.late {command : Command} {past : List Happening}
    (h : Accounts command past .dropped) {happening : Happening} {isComplete : Bool}
    {outcome : Outcome} (hattempt : happening.attempt? command isComplete = some outcome) :
    Accounts command (happening :: past) .dropped := by
  obtain ⟨hi, hy, later, earlier, rfl, ha⟩ := h
  obtain ⟨hignored, hyield, -, -, -⟩ := Happening.of_attempt? hattempt
  refine ⟨?_, ?_, happening :: later, earlier, rfl, ha⟩
  · simpa [ignored_cons, hignored] using hi
  · simpa [yields_cons, hyield] using hy

theorem Accounts.drop {command : Command} {past : List Happening}
    (h : Accounts command past .pending) : Accounts command (.dropped :: past) .dropped := by
  obtain ⟨ha, hi, hy, hd⟩ := h
  exact ⟨by simpa [ignored_cons, Happening.ignored?] using hi,
    by simpa [yields_cons, Happening.yielded?] using hy, [], past, rfl, ha⟩

theorem Accounts.give {command : Command} {past : List Happening} {outcome : Outcome}
    (h : Accounts command past (.settled outcome)) (hopen : ¬ IsClosed past) :
    Accounts command (.yielded outcome :: past) (.settled outcome) := by
  obtain ⟨ha, hi, hy, hd⟩ := h
  have hyields := yields_eq_nil_of_not_isClosed hopen
  refine ⟨by simpa [attempts_cons, Happening.attempt?] using ha, ?_, .inr ?_, by simpa using hd⟩
  · simpa [attempts_cons, Happening.attempt?, ignored_cons, Happening.ignored?] using hi
  · simpa [yields_cons, Happening.yielded?] using hyields

/-- A happening that is neither a promise nor the end of what was promised. -/
theorem KeepsPromise.cons {command : Command} {past : List Happening}
    (h : KeepsPromise command past) {happening : Happening}
    (hpromise : happening.isPromise = false)
    (hended : ∀ result, happening = .ended result → Adopts command past) :
    KeepsPromise command (happening :: past) := by
  refine ⟨by simpa [List.countP_cons, hpromise] using h.1, ?_⟩
  intro later result earlier heq
  cases later with
  | nil =>
      obtain ⟨rfl, rfl⟩ := List.cons.inj heq
      exact hended result rfl
  | cons first others =>
      obtain ⟨-, hrest⟩ := List.cons.inj heq
      exact h.2 others result earlier hrest

theorem KeepsPromise.promise {command : Command} {past : List Happening}
    (h : KeepsPromise command past) (hnone : past.countP Happening.isPromise = 0)
    (started : Bool) : KeepsPromise command (.promised started :: past) := by
  refine ⟨by rw [List.countP_cons, hnone]; split <;> omega, ?_⟩
  intro later result earlier heq
  cases later with
  | nil => cases heq
  | cons first others =>
      obtain ⟨-, hrest⟩ := List.cons.inj heq
      exact h.2 others result earlier hrest

theorem KeepsPromise.unique {command : Command} {past later earlier newer older : List Happening}
    {started kind : Bool} (h : KeepsPromise command past)
    (hpast : past = later ++ .promised started :: earlier)
    (hother : past = newer ++ .promised kind :: older) : started = kind ∧ earlier = older := by
  have hcount : later.countP Happening.isPromise + earlier.countP Happening.isPromise = 0 := by
    have hone := h.1
    have hpromise : Happening.isPromise (.promised started) = true := rfl
    rw [hpast, List.countP_append, List.countP_cons_of_pos hpromise] at hone
    omega
  have hlater : .promised kind ∉ later := fun hin =>
    List.countP_eq_zero.mp (by omega : later.countP Happening.isPromise = 0) _ hin rfl
  have hearlier : .promised kind ∉ earlier := fun hin =>
    List.countP_eq_zero.mp (by omega : earlier.countP Happening.isPromise = 0) _ hin rfl
  obtain ⟨-, hsame, hrest⟩ :=
    (List.append_cons_inj_of_notMem hlater hearlier).mp (hpast.symm.trans hother)
  exact ⟨Happening.promised.inj hsame, hrest⟩

theorem KeepsPromise.not_ended {command : Command} {past later earlier : List Happening}
    {started : Bool} (h : KeepsPromise command past)
    (hpast : past = later ++ .promised started :: earlier)
    (hcomplete : attempts command earlier ≠ []) (result : Except Fault Value) :
    .ended result ∉ past := by
  intro hmem
  obtain ⟨newer, older, hsplit⟩ := List.append_of_mem hmem
  obtain ⟨before, kind, first, rfl, hattempts⟩ := h.2 newer result older hsplit
  have hother : past = (newer ++ .ended result :: before) ++ .promised kind :: first := by
    rw [hsplit, List.append_assoc, List.cons_append]
  obtain ⟨-, rfl⟩ := h.unique hpast hother
  exact hcomplete hattempts

end Past

end Cascade
