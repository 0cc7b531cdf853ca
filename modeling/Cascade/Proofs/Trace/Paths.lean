import Cascade.Proofs.Chain.Deeds
import Cascade.Proofs.Trace.Program

/-!
The paths of a program by its form: what a program has done that has gone on up to a wait or to its
end, and how the path of a sequence of two programs divides into theirs.
-/

namespace Cascade

namespace Stance

variable {β γ : Type} {invocations : List Invocation} {own : Option Nat} {labels : List Label}
  {status : ThreadStatus β}

/-! ### Single programs -/

theorem Moves.of_goes {routine : Routine β}
    (h : Moves invocations own (.goes routine) labels (.rests status)) :
    ∃ middle first rest, Move invocations own (.goes routine) first middle ∧
      Moves invocations own middle rest (.rests status) ∧ labels = first ++ rest := by
  cases h with
  | cons _ middle _ first rest move more => exact ⟨middle, first, rest, move, more, rfl⟩

theorem Moves.of_waits {waiting : Waiting β}
    (h : Moves invocations own (.waits waiting) labels (.rests status)) :
    (labels = [] ∧ status = .waiting waiting .asleep) ∨
      ∃ middle first rest, Move invocations own (.waits waiting) first middle ∧
        Moves invocations own middle rest (.rests status) ∧ labels = first ++ rest := by
  cases h with
  | refl => exact .inl ⟨rfl, rfl⟩
  | cons _ middle _ first rest move more => exact .inr ⟨middle, first, rest, move, more, rfl⟩

theorem Moves.of_ends {result : Except Fault β}
    (h : Moves invocations own (.ends result) labels (.rests status)) :
    labels = [] ∧ status = .finished result := by
  cases h with
  | refl => exact ⟨rfl, rfl⟩
  | cons _ middle _ first rest move more => cases move

theorem Moves.of_starts {routine : Routine β}
    (h : Moves invocations own (.starts routine) labels (.rests status)) :
    (labels = [] ∧ ∃ waiting, status = .waiting waiting .asleep) ∨
      Moves invocations own (.goes routine) labels (.rests status) := by
  rcases h.of_waits with ⟨hlabels, hstatus⟩ | ⟨middle, first, rest, hmove, hrest, hlabels⟩
  · exact .inl ⟨hlabels, _, hstatus⟩
  · cases hmove
    exact .inr (hlabels ▸ hrest)

theorem Moves.of_finish {value : β}
    (h : Moves invocations own (.goes (.finish value)) labels (.rests status)) :
    labels = [] ∧ status = .finished (.ok value) := by
  obtain ⟨middle, first, rest, hmove, hrest, hlabels⟩ := h.of_goes
  cases hmove
  exact ⟨hlabels.trans hrest.of_ends.1, hrest.of_ends.2⟩

theorem Moves.of_fail {fault : Fault}
    (h : Moves invocations own (.goes (.fail fault)) labels (.rests status)) :
    labels = [] ∧ status = .finished (.error fault) := by
  obtain ⟨middle, first, rest, hmove, hrest, hlabels⟩ := h.of_goes
  cases hmove
  exact ⟨hlabels.trans hrest.of_ends.1, hrest.of_ends.2⟩

theorem Moves.of_ask {query : Query} {next : query.Answer → Routine β}
    (h : Moves invocations own (.goes (.ask query next)) labels (.rests status)) :
    ∃ answer rest, labels = (own, .asks query answer) :: rest ∧
      Moves invocations own (.goes (next answer)) rest (.rests status) := by
  obtain ⟨middle, first, rest, hmove, hrest, hlabels⟩ := h.of_goes
  cases hmove with
  | ask query next answer => exact ⟨answer, rest, hlabels, hrest⟩

theorem Moves.of_sleep {seconds : Binary64} {notice : Option Item} {next : Unit → Routine β}
    (h : Moves invocations own (.goes (.sleep seconds notice next)) labels (.rests status)) :
    ∃ rest, labels = (own, .pauses seconds) :: rest ∧
      ((rest = [] ∧ ∃ waiting, status = .waiting waiting .asleep) ∨
        Moves invocations own (.goes (next ())) rest (.rests status)) := by
  obtain ⟨middle, first, rest, hmove, hrest, hlabels⟩ := h.of_goes
  cases hmove with
  | sleep seconds notice next waiting hwaiting =>
      refine ⟨rest, hlabels, ?_⟩
      rcases hrest.of_waits with ⟨hnone, hstatus⟩ | ⟨after, second, more, hwoken, hmore, hsplit⟩
      · exact .inl ⟨hnone, waiting, hstatus⟩
      · rcases hwaiting with rfl | rfl <;>
          · cases hwoken
            exact .inr (hsplit ▸ hmore)

/-- How a step goes on that is executed: the execution is waited for, its call is cancelled and takes
the program along, or its outcome comes. -/
theorem Moves.of_execute {index : Nat} {invocation : Invocation}
    (hstep : invocations[index]? = some invocation) {next : Outcome → Routine β}
    (h : Moves invocations own (.goes (.execute index next)) labels (.rests status)) :
    ∃ number rest, labels = (own, .executes number index invocation.command invocation.arguments) ::
        rest ∧
      ((rest = [] ∧ ∃ waiting, status = .waiting waiting .asleep) ∨
        (rest = [] ∧ ∃ doings fault,
          (invocation.command.run invocation.arguments).Plays doings (.error fault) ∧
            fault.isCancellation = true ∧ status = .finished (.error fault)) ∨
        ∃ outcome more, rest = (own, .gets number outcome) :: more ∧
          Moves invocations own (.goes (next outcome)) more (.rests status)) := by
  obtain ⟨middle, first, rest, hmove, hrest, hlabels⟩ := h.of_goes
  cases hmove with
  | miss _ _ hnone => cases hnone.symm.trans hstep
  | stop _ _ number found hfound doings fault hplays hcancellation =>
      obtain rfl := Option.some.inj (hfound.symm.trans hstep)
      exact ⟨number, rest, hlabels, .inr (.inl ⟨hrest.of_ends.1, doings, fault, hplays,
        hcancellation, hrest.of_ends.2⟩)⟩
  | execute _ _ number found hfound =>
      obtain rfl := Option.some.inj (hfound.symm.trans hstep)
      refine ⟨number, rest, hlabels, ?_⟩
      rcases hrest.of_waits with ⟨hnone, hstatus⟩ | ⟨after, second, more, hgiven, hmore, hsplit⟩
      · exact .inl ⟨hnone, _, hstatus⟩
      · cases hgiven with
        | get number next outcome => exact .inr (.inr ⟨outcome, more, hsplit, hmore⟩)

theorem Moves.of_prepare {index : Nat} {invocation : Invocation}
    (hstep : invocations[index]? = some invocation) {next : Option Fault → Routine β}
    (h : Moves invocations own (.goes (.prepare index next)) labels (.rests status)) :
    ∃ doings failure rest,
      labels = doings.map (Prod.mk (some index)) ++ (own, .prepares index failure) :: rest ∧
      (invocation.command.initializer = none → failure = none) ∧
      (∀ initializer, invocation.command.initializer = some initializer →
        initializer.Plays doings (failure.elim (.ok ()) .error)) ∧
      (Moves invocations own (.goes (next failure)) rest (.rests status) ∨
        ∃ fault, status = .finished (.error fault)) := by
  obtain ⟨middle, first, rest, hmove, hrest, hlabels⟩ := h.of_goes
  cases hmove with
  | lack _ _ hnone => cases hnone.symm.trans hstep
  | ready _ _ found hfound hmissing =>
      obtain rfl := Option.some.inj (hfound.symm.trans hstep)
      refine ⟨[], none, rest, hlabels, fun _ => rfl, fun initializer hgiven => ?_, .inl hrest⟩
      cases hmissing.symm.trans hgiven
  | prepare _ _ found hfound initializer hgiven doings hplays =>
      obtain rfl := Option.some.inj (hfound.symm.trans hstep)
      refine ⟨doings, none, rest, by simpa using hlabels, fun _ => rfl, fun other hother => ?_,
        .inl hrest⟩
      obtain rfl := Option.some.inj (hgiven.symm.trans hother)
      exact hplays
  | reject _ _ found hfound initializer hgiven doings fault hplays =>
      obtain rfl := Option.some.inj (hfound.symm.trans hstep)
      refine ⟨doings, some fault, rest, by simpa using hlabels, fun hnone => ?_,
        fun other hother => ?_, .inl hrest⟩
      · cases hnone.symm.trans hgiven
      · obtain rfl := Option.some.inj (hgiven.symm.trans hother)
        exact hplays
  | cancel _ _ found hfound initializer hgiven doings fault hplays hcancellation =>
      obtain rfl := Option.some.inj (hfound.symm.trans hstep)
      refine ⟨doings, some fault, rest, by simpa using hlabels, fun hnone => ?_,
        fun other hother => ?_, .inr ⟨fault, hrest.of_ends.2⟩⟩
      · cases hnone.symm.trans hgiven
      · obtain rfl := Option.some.inj (hgiven.symm.trans hother)
        exact hplays

theorem Moves.of_action (action : Action β)
    (h : Moves invocations own (.goes (Routine.ofAction action)) labels (.rests status)) :
    ∃ doings result, action.Plays doings result ∧ labels = doings.map (Prod.mk own) ∧
      status = .finished result := by
  induction action generalizing labels with
  | finish value => exact ⟨[], _, .finish value, h.of_finish⟩
  | fail fault => exact ⟨[], _, .fail fault, h.of_fail⟩
  | ask query next ih =>
      obtain ⟨answer, rest, rfl, hrest⟩ := h.of_ask
      obtain ⟨doings, result, hplays, rfl, hstatus⟩ := ih answer hrest
      exact ⟨_, result, .ask query next answer doings result hplays, rfl, hstatus⟩

theorem Moves.of_initializer {first last : Stance β} (h : Moves invocations none first labels last)
    {index : Nat} {doing : Doing} (hmem : (some index, doing) ∈ labels) :
    ∃ invocation initializer doings result, invocations[index]? = some invocation ∧
      invocation.command.initializer = some initializer ∧ initializer.Plays doings result ∧
        doing ∈ doings ∧ ∀ other ∈ doings, (some index, other) ∈ labels := by
  induction h with
  | refl => cases hmem
  | cons first middle last labels more move rest ih =>
      rcases List.mem_append.mp hmem with hfirst | hmore
      · have hinitializer : ∀ (own : Nat) (doings : List Doing) (failure : Option Fault),
            (some index, doing) ∈ doings.map (Prod.mk (some own)) ++ [(none, .prepares own failure)] →
              own = index ∧ doing ∈ doings := by
          intro own doings failure hlabel
          rcases List.mem_append.mp hlabel with hdoing | hlast
          · obtain ⟨other, hother, heq⟩ := List.mem_map.mp hdoing
            obtain ⟨hown, rfl⟩ := Prod.mk.inj heq
            exact ⟨Option.some.inj hown, hother⟩
          · cases List.mem_singleton.mp hlast
        have hall : ∀ (doings : List Doing) (failure : Option Fault), ∀ other ∈ doings,
            (some index, other) ∈
              (doings.map (Prod.mk (some index)) ++ [(none, .prepares index failure)]) ++ more :=
          fun doings failure other hother =>
            List.mem_append_left _ (List.mem_append_left _ (List.mem_map_of_mem hother))
        cases move with
        | prepare own next invocation step initializer given doings plays
        | reject own next invocation step initializer given doings fault plays
        | cancel own next invocation step initializer given doings fault plays =>
            obtain ⟨rfl, hdoing⟩ := hinitializer own doings _ hfirst
            exact ⟨invocation, initializer, doings, _, step, given, plays, hdoing, hall doings _⟩
        | _ => simp at hfirst
      · obtain ⟨invocation, initializer, doings, result, hstep, hgiven, hplays, hdoing, hothers⟩ :=
          ih hmore
        exact ⟨invocation, initializer, doings, result, hstep, hgiven, hplays, hdoing,
          fun other hother => List.mem_append_right _ (hothers other hother)⟩

/-! ### Sequences -/

/-- How a sequence stands by how its first program stands. -/
def bind (next : β → Routine γ) : Stance β → Stance γ
  | .goes routine => .goes (routine.bind next)
  | .rests .running => .rests .running
  | .rests (.waiting waiting wake) => .rests (.waiting (waiting.bind next) wake)
  | .rests (.finished (.ok value)) => .goes (next value)
  | .rests (.finished (.error fault)) => .ends (.error fault)

variable {next : β → Routine γ} {last : ThreadStatus γ}

theorem Move.of_bind {stance : Stance β} {middle : Stance γ}
    (h : Move invocations own (stance.bind next) labels middle) :
    (∃ value, stance = .ends (.ok value) ∨ stance = .goes (.finish value)) ∨
      ∃ other, Move invocations own stance labels other ∧ middle = other.bind next := by
  rcases stance with routine | (_ | ⟨waiting, _ | _ | _⟩ | (fault | value))
  · cases routine with
    | finish value => exact .inl ⟨value, .inr rfl⟩
    | fail fault =>
        cases h
        exact .inr ⟨_, .fail fault, rfl⟩
    | ask query rest =>
        cases h with
        | ask _ _ answer => exact .inr ⟨_, .ask query rest answer, rfl⟩
    | sleep seconds notice rest =>
        cases h with
        | sleep _ _ _ waiting hwaiting =>
            rcases hwaiting with rfl | rfl
            · exact .inr ⟨_, .sleep seconds notice rest _ (.inl rfl), rfl⟩
            · exact .inr ⟨_, .sleep seconds notice rest _ (.inr rfl), rfl⟩
    | await event notice rest =>
        cases h
        exact .inr ⟨_, .await event notice rest, rfl⟩
    | invoke name given rest =>
        cases h with
        | invoke _ _ _ number command arguments =>
            exact .inr ⟨_, .invoke name given rest number command arguments, rfl⟩
        | unknown _ _ _ fault => exact .inr ⟨_, .unknown name given rest fault, rfl⟩
        | abort _ _ _ number command arguments doings fault plays cancellation =>
            exact .inr ⟨_, .abort name given rest number command arguments doings fault plays
              cancellation, rfl⟩
    | prepare index rest =>
        cases h with
        | ready _ _ invocation step missing =>
            exact .inr ⟨_, .ready index rest invocation step missing, rfl⟩
        | prepare _ _ invocation step initializer given doings plays =>
            exact .inr ⟨_, .prepare index rest invocation step initializer given doings plays, rfl⟩
        | reject _ _ invocation step initializer given doings fault plays =>
            exact .inr ⟨_, .reject index rest invocation step initializer given doings fault plays,
              rfl⟩
        | cancel _ _ invocation step initializer given doings fault plays cancellation =>
            exact .inr ⟨_, .cancel index rest invocation step initializer given doings fault plays
              cancellation, rfl⟩
        | lack _ _ step => exact .inr ⟨_, .lack index rest step, rfl⟩
    | execute index rest =>
        cases h with
        | execute _ _ number invocation step =>
            exact .inr ⟨_, .execute index rest number invocation step, rfl⟩
        | miss _ _ step => exact .inr ⟨_, .miss index rest step, rfl⟩
        | stop _ _ number invocation step doings fault plays cancellation =>
            exact .inr ⟨_, .stop index rest number invocation step doings fault plays cancellation,
              rfl⟩
  · cases h
  · cases waiting with
    | turn notice rest =>
        cases h
        exact .inr ⟨_, .turn notice rest, rfl⟩
    | timer notice rest =>
        cases h
        exact .inr ⟨_, .timer notice rest, rfl⟩
    | event name notice rest =>
        cases h
        exact .inr ⟨_, .event name notice rest, rfl⟩
    | cell number rest =>
        cases h with
        | get _ _ outcome => exact .inr ⟨_, .get number rest outcome, rfl⟩
  · cases waiting <;> cases h
  · cases waiting <;> cases h
  · cases h
  · exact .inl ⟨value, .inl rfl⟩

theorem Moves.of_bind_stance {first stop : Stance γ}
    (h : Moves invocations own first labels stop) {stance : Stance β} (hfirst : first = stance.bind next)
    (hstop : stop = .rests last) :
    (∃ value front back, labels = front ++ back ∧
      Moves invocations own stance front (.ends (.ok value)) ∧
        Moves invocations own (.goes (next value)) back (.rests last)) ∨
    ∃ other, Moves invocations own stance labels (.rests other) ∧
      .rests last = (Stance.rests other).bind next := by
  induction h generalizing stance with
  | refl =>
      subst hstop
      rcases stance with routine | status
      · cases hfirst
      · exact .inr ⟨status, .refl _, hfirst⟩
  | cons first middle stop labels more move rest ih =>
      subst hfirst
      rcases move.of_bind with ⟨value, rfl | rfl⟩ | ⟨other, hmove, rfl⟩
      · exact .inl ⟨value, [], labels ++ more, rfl, .refl _, hstop ▸ .cons _ _ _ _ _ move rest⟩
      · exact .inl ⟨value, [], labels ++ more, rfl, .single (.finish value),
          hstop ▸ .cons _ _ _ _ _ move rest⟩
      · rcases ih rfl hstop with ⟨value, front, back, rfl, hfront, hback⟩ | ⟨status, hpath, hlast⟩
        · exact .inl ⟨value, labels ++ front, back, (List.append_assoc ..).symm,
            .cons _ _ _ _ _ hmove hfront, hback⟩
        · exact .inr ⟨status, .cons _ _ _ _ _ hmove hpath, hlast⟩

theorem Moves.of_bind {routine : Routine β}
    (h : Moves invocations own (.goes (routine.bind next)) labels (.rests last)) :
    (∃ value front back, labels = front ++ back ∧
      Moves invocations own (.goes routine) front (.ends (.ok value)) ∧
        Moves invocations own (.goes (next value)) back (.rests last)) ∨
    (∃ waiting wake, Moves invocations own (.goes routine) labels (.rests (.waiting waiting wake)) ∧
      last = .waiting (waiting.bind next) wake) ∨
    ∃ fault, Moves invocations own (.goes routine) labels (.ends (.error fault)) ∧
      last = .finished (.error fault) := by
  have hfirst : goes (routine.bind next) = (goes routine : Stance β).bind next := rfl
  rcases h.of_bind_stance hfirst rfl with hends | ⟨status, hpath, hlast⟩
  · exact .inl hends
  · rcases status with _ | ⟨waiting, wake⟩ | (fault | value)
    · cases hpath.of_running rfl
    · exact .inr (.inl ⟨waiting, wake, hpath, Stance.rests.inj hlast⟩)
    · exact .inr (.inr ⟨fault, hpath, Stance.rests.inj hlast⟩)
    · cases hlast

theorem Moves.of_action_bind {action : Action β}
    (h : Moves invocations own (.goes ((Routine.ofAction action).bind next)) labels (.rests last)) :
    ∃ doings result back, action.Plays doings result ∧ labels = doings.map (Prod.mk own) ++ back ∧
      ((∃ value, result = .ok value ∧
          Moves invocations own (.goes (next value)) back (.rests last)) ∨
        ∃ fault, result = .error fault ∧ last = .finished (.error fault)) := by
  rcases h.of_bind with ⟨value, front, back, rfl, hfront, hback⟩ | ⟨waiting, wake, hpath, -⟩ |
    ⟨fault, hpath, hlast⟩
  · obtain ⟨doings, result, hplays, rfl, hstatus⟩ := Moves.of_action action hfront
    obtain rfl := ThreadStatus.finished.inj hstatus
    exact ⟨doings, _, back, hplays, rfl, .inl ⟨value, rfl, hback⟩⟩
  · obtain ⟨-, result, -, -, hstatus⟩ := Moves.of_action action hpath
    cases hstatus
  · obtain ⟨doings, result, hplays, rfl, hstatus⟩ := Moves.of_action action hpath
    obtain rfl := ThreadStatus.finished.inj hstatus
    exact ⟨doings, _, [], hplays, (List.append_nil _).symm, .inr ⟨fault, rfl, hlast⟩⟩

end Stance

/-! ### Work -/

/-- Whether an act is more than a question. An entry in the error log is more than that. -/
def Doing.isWork : Doing → Bool
  | .asks (.record _ _) _ => true
  | .asks _ _ => false
  | _ => true

/-- The work that code does in its own step. -/
def works (own : Option Nat) (labels : List Label) : List Doing :=
  labels.filterMap fun label => if label.1 = own ∧ label.2.isWork = true then some label.2 else none

section Works

variable {own : Option Nat} {doing : Doing} {labels : List Label}

theorem works_append (own : Option Nat) (labels more : List Label) :
    works own (labels ++ more) = works own labels ++ works own more :=
  List.filterMap_append

theorem works_cons_of_isWork (h : doing.isWork = true) :
    works own ((own, doing) :: labels) = doing :: works own labels :=
  List.filterMap_cons_some (if_pos ⟨rfl, h⟩)

theorem works_cons_of_not_isWork (h : doing.isWork = false) (step : Option Nat) :
    works own ((step, doing) :: labels) = works own labels :=
  List.filterMap_cons_none (if_neg fun hwork => Bool.false_ne_true (h.symm.trans hwork.2))

theorem works_of_step_ne {step : Option Nat} (h : step ≠ own) (doings : List Doing) :
    works own (doings.map (Prod.mk step)) = [] := by
  refine List.filterMap_eq_nil_iff.mpr fun label hmem => if_neg fun hown => ?_
  obtain ⟨doing, -, rfl⟩ := List.mem_map.mp hmem
  exact h hown.1

end Works

end Cascade
