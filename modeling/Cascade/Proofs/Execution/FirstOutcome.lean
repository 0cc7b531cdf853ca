import Cascade.Proofs.Execution.Turn
import Cascade.Proofs.Run.Step

/-!
The first outcome counts. In every state that a run can reach, an execution holds the earliest outcome
that anything gave it, and it never lets go of it. Each later outcome leaves one warning, and none
does after the caller was cancelled. The caller gets the outcome at its next turn.
-/

namespace Cascade

open Past

namespace Past

/-- What an execution shows apart from the feedback on its outcome, in the order of time. -/
def remarks (silent hidden : Bool) (past : List Happening) : List Item :=
  past.reverse.flatMap fun happening =>
    if happening.yielded?.isSome then [] else happening.shown silent hidden

theorem remarks_eq (silent hidden : Bool) (past : List Happening) :
    remarks silent hidden past = (ignored past).reverse.map Report.repeated := by
  induction past with
  | nil => rfl
  | cons happening rest ih =>
      rw [remarks] at ih ⊢
      rw [List.reverse_cons, List.flatMap_append, ih, ignored_cons]
      cases happening <;>
        simp [Happening.shown, Happening.yielded?, Happening.ignored?]

theorem command_of_mem_attempts {command : Command} {past : List Happening} {outcome : Outcome}
    (h : outcome ∈ attempts command past) : outcome.command = command.name := by
  have hone : ∀ {happening : Happening} {isComplete : Bool},
      happening.attempt? command isComplete = some outcome → outcome.command = command.name := by
    intro happening isComplete hattempt
    cases happening with
    | returned value =>
        simp only [Happening.attempt?] at hattempt
        split at hattempt
        · cases hattempt
        · cases hattempt
          rfl
    | ended result =>
        cases hattempt
        rcases result with fault | value
        · simp only [outcomeOf]
          split <;> rfl
        · rfl
    | refused | completed | raised =>
        cases hattempt
        rfl
    | _ => cases hattempt
  induction past with
  | nil => cases h
  | cons happening rest ih =>
      rw [attempts_cons] at h
      rcases List.mem_append.mp h with hnew | hold
      · exact hone (Option.mem_toList.mp hnew)
      · exact ih hold

theorem Accounts.dropped_mem_iff {command : Command} {past : List Happening} {state : CellState}
    (h : Accounts command past state) : .dropped ∈ past ↔ state = .dropped := by
  cases state with
  | pending => exact ⟨fun hmem => absurd hmem h.2.2.2, fun h => by cases h⟩
  | settled outcome => exact ⟨fun hmem => absurd hmem h.2.2.2, fun h => by cases h⟩
  | dropped =>
      obtain ⟨-, -, later, earlier, rfl, -⟩ := h
      simp

theorem Accounts.settled_iff {command : Command} {past : List Happening} {state : CellState}
    (h : Accounts command past state) (outcome : Outcome) :
    state = .settled outcome ↔
      (attempts command past).getLast? = some outcome ∧ .dropped ∉ past := by
  cases state with
  | pending => simp [h.1]
  | settled first =>
      rw [h.1, CellState.settled.injEq, Option.some.injEq]
      exact ⟨fun heq => ⟨heq, h.2.2.2⟩, fun hall => hall.1⟩
  | dropped => exact ⟨by simp, fun hall => absurd (h.dropped_mem_iff.mpr rfl) hall.2⟩

theorem Accounts.pending_iff {command : Command} {past : List Happening} {state : CellState}
    (h : Accounts command past state) :
    state = .pending ↔ attempts command past = [] ∧ .dropped ∉ past := by
  cases state with
  | pending => exact ⟨fun _ => ⟨h.1, h.2.2.2⟩, fun _ => rfl⟩
  | settled first =>
      refine ⟨by simp, fun hall => ?_⟩
      rw [Accounts, hall.1] at h
      cases h.1
  | dropped => exact ⟨by simp, fun hall => absurd (h.dropped_mem_iff.mpr rfl) hall.2⟩

end Past

namespace World

variable {α : Type}

/-- What holds of every execution. The past has the newest happening first, so the earliest outcome is
the last of the attempts. -/
structure FirstCounts (world : World α) (place number : Nat) (cell : Cell) : Prop where
  /-- The execution is complete with the earliest outcome, unless it was given up before that. -/
  settled : ∀ outcome, cell.state = .settled outcome ↔
    (attempts cell.command (world.past place number)).getLast? = some outcome ∧
      .dropped ∉ world.past place number
  /-- It is open as long as there is none. -/
  pending : cell.state = .pending ↔
    attempts cell.command (world.past place number) = [] ∧ .dropped ∉ world.past place number
  /-- It is given up only when its caller is cancelled before the first outcome. -/
  dropped : cell.state = .dropped → ∃ later earlier,
    world.past place number = later ++ .dropped :: earlier ∧ attempts cell.command earlier = []
  /-- The caller gets that outcome, once at most. -/
  yielded : yields (world.past place number) = [] ∨
    ∃ outcome, cell.state = .settled outcome ∧ yields (world.past place number) = [outcome]
  /-- A caller that has not got it yet has a turn in the queue at which it does, or it is cancelled. -/
  given : ∀ outcome, cell.state = .settled outcome → ¬ IsClosed (world.past place number) →
    .resume place cell.caller ∈ world.queue ∧
        .yielded outcome ∈ (world.resume place cell.caller).past place number ∨
      world.posture? place cell.caller = some (.waits (some number) .cancelled) ∨
        world.posture? place cell.caller = some (.finished true)
  /-- Each later outcome leaves one warning, in their order. -/
  warned : .dropped ∉ world.past place number → ∀ silent hidden,
    remarks silent hidden (world.past place number) =
      (attempts cell.command (world.past place number)).dropLast.reverse.map Report.repeated
  /-- The warnings name the command. -/
  named : ∀ outcome ∈ attempts cell.command (world.past place number),
    outcome.command = cell.command.name
  /-- After the caller was cancelled there are no warnings. -/
  unwarned : .dropped ∈ world.past place number → ∀ silent hidden,
    remarks silent hidden (world.past place number) = []
  /-- What a call gives to wait for after the execution is complete never counts, and what was not
  started then is never run. -/
  late : ∀ later started earlier,
    world.past place number = later ++ .promised started :: earlier →
      attempts cell.command earlier ≠ [] →
        (∀ result, .ended result ∉ world.past place number) ∧
          (started = false → ∀ child delivers,
            world.errand? place child ≠ some (number, delivers))
  /-- The execution begins with the call, or with the refusal of arguments, and after a refusal the
  command is never called. -/
  opened : ∃ later first, world.past place number = later ++ [first] ∧
    ((∃ arguments, first = .called arguments ∧ cell.command.accepts arguments.kind = true) ∨
      ∃ arguments, first = .refused arguments ∧ cell.command.accepts arguments.kind = false ∧
        (∀ others, .called others ∉ world.past place number) ∧
          cell.state = .settled (.failure cell.command.name
            (refusal cell.command.info arguments.kind)))
  /-- Nothing that happens later changes the outcome. -/
  stays : ∀ outcome, cell.state = .settled outcome → ∀ later, Reaches world later →
    ∃ found, later.cell? place number = some found ∧ found.state = .settled outcome

theorem Lawful.step {world next : World α} (h : world.Lawful) (hstep : Step world next) :
    next.Lawful := by
  cases hstep with
  | perform before after job hqueue =>
      have htaken : Lawful { world with queue := before ++ after } := h.of_eq rfl rfl
      exact htaken.perform job
  | advance next hnext => exact h.advance hnext
  | cancel strand thread => exact h.cancel strand thread
  | print item => exact ⟨h.sound.write fun _ _ => rfl, h.idle⟩
  | notify => exact h.of_eq rfl rfl
  | complete strand number result =>
      exact h.of_frame (h.sound.complete strand number result) (frame_complete ..)

theorem Lawful.reaches {world later : World α} (h : world.Lawful) (hreach : Reaches world later) :
    later.Lawful := by
  induction hreach with
  | refl => exact h
  | tail _ hstep ih => exact ih.step hstep

theorem yielded_of_resume {world : World α} {place number : Nat} {thread : ThreadId}
    (hstands : world.posture? place thread = some (.waits (some number) .woken)) {cell : Cell}
    (hcell : world.cell? place number = some cell) {outcome : Outcome}
    (hsettled : cell.state = .settled outcome) :
    .yielded outcome ∈ (world.resume place thread).past place number := by
  rcases world.resume_cases place thread with ⟨-, hasleep⟩ |
    ⟨β, step, own, waiting, isCancelled, after, status, hwaits, hturn, hstored⟩
  · cases hasleep _ _ hstands
  · rw [hstands] at hwaits
    obtain ⟨hwaited, hwake⟩ := Posture.waits.inj (Option.some.inj hwaits)
    obtain rfl : isCancelled = false := by
      cases isCancelled
      · rfl
      · cases hwake
    cases waiting with
    | turn | timer | event => cases hwaited
    | cell awaited next =>
        obtain rfl := Option.some.inj hwaited
        let begun := world.modifyThread place thread Thread.begin
        let scope : Scope := ⟨place, thread, step, own⟩
        have hbegun : begun.cell? place number = some cell :=
          (cell?_modifyThread ..).trans hcell
        have houtcome : begun.outcome? place number = some outcome := by
          simp [outcome?, hbegun, hsettled]
        have hresumed : begun.resumed scope (.cell number next) =
            (begun.noteExecution { scope with step := cell.step } number cell.command
              (.yielded outcome), next outcome) := resumed_cell hbegun houtcome next
        have hadds := within_turn_of_resumed scope (.cell number next) begun
        obtain ⟨later, hpast, -⟩ := hadds.past place number
        have hafter : (begun.turn scope (.cell number next) false).1 = after :=
          congrArg Prod.fst hturn
        rw [past, hstored.record, ← past, ← hafter, hpast, hresumed, past_noteExecution]
        simp [scope]

/-- The first outcome counts, for every execution in every state that a run can reach. -/
theorem first_outcome_counts {surroundings : Surroundings} {calls : Entries Nat}
    {programs : List (List Invocation × Routine α)} {world : World α}
    (hreach : Reaches (World.start surroundings calls
      (programs.map fun program => Strand.start program.1 program.2)) world)
    {place number : Nat} {cell : Cell} (hcell : world.cell? place number = some cell) :
    FirstCounts world place number cell := by
  have hlawful : world.Lawful := by
    refine (Lawful.start surroundings calls ?_).reaches hreach
    intro strand hstrand
    obtain ⟨program, -, rfl⟩ := List.mem_map.mp hstrand
    exact ⟨rfl, rfl, program.2, rfl⟩
  have hready : world.Ready := by
    refine (Ready.start surroundings calls ?_).reaches hreach
    intro strand hstrand
    obtain ⟨program, -, rfl⟩ := List.mem_map.mp hstrand
    rfl
  have haccounts := hlawful.sound.accounts place number cell hcell
  have hpromise := hlawful.sound.promise place number cell hcell
  have hopens := hlawful.sound.opens place number cell hcell
  exact {
    settled := haccounts.settled_iff
    pending := haccounts.pending_iff
    dropped := by
      intro hstate
      rw [hstate] at haccounts
      exact haccounts.2.2
    yielded := by
      cases hstate : cell.state with
      | pending =>
          rw [hstate] at haccounts
          exact .inl haccounts.2.2.1
      | settled outcome =>
          rw [hstate] at haccounts
          exact haccounts.2.2.1.imp_right fun hone => ⟨outcome, rfl, hone⟩
      | dropped =>
          rw [hstate] at haccounts
          exact .inl haccounts.2.1
    given := by
      intro outcome hsettled hopen
      have hattends := hlawful.sound.attended place number cell hcell hopen
      have hidle := hlawful.idle place cell.caller
      rw [hsettled] at hattends
      rcases hstands : world.posture? place cell.caller with _ | _ | ⟨_ | awaited, _ | _ | _⟩ |
        _ | _ <;> rw [hstands] at hattends
      case some.running => exact absurd hstands hidle
      case some.waits.some.asleep => cases hattends.2
      case some.waits.some.woken =>
        obtain ⟨rfl, -⟩ := hattends
        exact .inl ⟨hready place cell.caller ⟨_, _, hstands, fun h => by cases h⟩,
          yielded_of_resume hstands hcell hsettled⟩
      case some.waits.some.cancelled =>
        obtain ⟨rfl, -⟩ := hattends
        exact .inr (.inl rfl)
      case some.finished.true => exact .inr (.inr rfl)
      all_goals exact hattends.elim
    warned := by
      intro hkept silent hidden
      rw [remarks_eq]
      cases hstate : cell.state with
      | pending =>
          rw [hstate] at haccounts
          simp [haccounts.1, haccounts.2.1]
      | settled outcome =>
          rw [hstate] at haccounts
          rw [haccounts.2.1]
      | dropped => exact absurd (haccounts.dropped_mem_iff.mpr hstate) hkept
    named := fun outcome hmem => command_of_mem_attempts hmem
    unwarned := by
      intro hdropped silent hidden
      rw [haccounts.dropped_mem_iff.mp hdropped] at haccounts
      rw [remarks_eq, haccounts.1]
      rfl
    late := by
      intro later started earlier hpast hcomplete
      refine ⟨fun result => hpromise.not_ended hpast hcomplete result, fun hstarted child delivers => ?_⟩
      intro herrand
      obtain ⟨found, hfound, newer, kind, older, hsplit, howes⟩ :=
        hlawful.sound.errand place child number delivers herrand
      rw [hcell] at hfound
      obtain rfl := Option.some.inj hfound
      obtain ⟨rfl, rfl⟩ := hpromise.unique hpast hsplit
      rcases howes with hnone | ⟨hkind, -⟩
      · exact hcomplete hnone
      · rw [hstarted] at hkind
        cases hkind
    opened := by
      obtain ⟨later, first, hpast, hlater, hkind⟩ := hopens
      refine ⟨later, first, hpast, hkind.imp_right fun hrefused => ?_⟩
      obtain ⟨arguments, rfl, haccepts⟩ := hrefused
      refine ⟨arguments, rfl, haccepts, fun others hmem => ?_, ?_⟩
      · rw [hpast] at hmem
        rcases List.mem_append.mp hmem with hmem | hmem
        · cases hlater _ hmem
        · cases List.mem_singleton.mp hmem
      · have hfirst : Accounts cell.command [.refused arguments] (.settled (.failure
            cell.command.name (refusal cell.command.info arguments.kind))) :=
          ⟨rfl, rfl, .inl rfl, by simp⟩
        rw [hpast] at haccounts
        exact hfirst.settled_stays haccounts
    stays := by
      intro outcome hsettled later hlater
      obtain ⟨found, hfound, horigin⟩ := hlater.keeps.cell place number cell hcell
      simp only [Cell.origin, Prod.mk.injEq] at horigin
      obtain ⟨added, hpast, -⟩ := hlater.adds.past place number
      have hnow := (hlawful.reaches hlater).sound.accounts place number found hfound
      rw [hpast, horigin.1] at hnow
      rw [hsettled] at haccounts
      exact ⟨found, hfound, haccounts.settled_stays hnow⟩ }

end World

/-- A command that reports two ends during its call. -/
def hastyCommand : Command where
  name := "hasty"
  help := ""
  group := ""
  hidden := false
  convention := .callback
  accepts := fun _ => true
  initializer := none
  run := fun _ =>
    .ask (.complete (.ok .null)) fun _ =>
      .ask (.complete (.error (.raised .general none))) fun _ => .finish (.value .null)

/-- The program that executes that command. -/
def hastyPrograms : List (List Invocation × Routine Value) :=
  [([⟨hastyCommand, .absent, "hasty"⟩], .execute 0 fun outcome => .ofExcept outcome.unwrap)]

/-- The state before the command is called. -/
def hastyStart : World Value :=
  World.start ⟨.empty, false, "", false, .empty⟩ []
    (hastyPrograms.map fun program => Strand.start program.1 program.2)

/-- The state after the turn of the chain. -/
def hastyRun : World Value :=
  { hastyStart with queue := [] }.perform (.resume 0 .root)

theorem hastyRun_first_counts : ∃ cell, hastyRun.cell? 0 0 = some cell ∧
    cell.state = .settled (.success "hasty" .null) ∧ hastyRun.FirstCounts 0 0 cell := by
  have hreach : World.Reaches (World.start ⟨.empty, false, "", false, .empty⟩ []
      (hastyPrograms.map fun program => Strand.start program.1 program.2)) hastyRun :=
    .single (.perform [] [] (.resume 0 .root) rfl)
  exact ⟨_, rfl, rfl, World.first_outcome_counts hreach rfl⟩

end Cascade
