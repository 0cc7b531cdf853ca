import Cascade.Proofs.Execution.FirstOutcome
import Cascade.Proofs.Run.Locality

/-!
Where the record of an execution comes from. What code notes about an execution names its command and
carries the step in which it was asked for, and the code is that of the thread that asked for it; what
comes from outside all code is no beginning.
-/

namespace Cascade

/-- An occurrence that fits the cells of a state: what code notes about an execution is what was
settled when that began. -/
inductive Occurrence.Fits {α : Type} (world : World α) : Occurrence → Prop
  | noted (place number : Nat) (command : Command) (caller : ThreadId) (step : Option Nat)
      (happening : Happening)
      (origin : (world.cell? place number).map Cell.origin = some (command, caller, step)) :
      Fits world ⟨some place, some caller, step, .execution number command happening⟩
  | told (place number : Nat) (command : Command) (happening : Happening)
      (late : happening.isOpening = false) (kept : happening.yielded? = none) :
      Fits world ⟨some place, none, none, .execution number command happening⟩
  | other (occurrence : Occurrence)
      (apart : ∀ number command happening, occurrence.event ≠ .execution number command happening) :
      Fits world occurrence

theorem Occurrence.Fits.mono {α : Type} {before after : World α} {occurrence : Occurrence}
    (h : occurrence.Fits before) (hkeeps : World.Keeps before after) : occurrence.Fits after := by
  cases h with
  | noted place number command caller step happening origin =>
      obtain ⟨cell, hcell, hsame⟩ := Option.map_eq_some_iff.mp origin
      obtain ⟨later, hlater, horigin⟩ := hkeeps.cell place number cell hcell
      exact .noted place number command caller step happening
        (by rw [hlater, Option.map_some, horigin, hsame])
  | told place number command happening late kept =>
      exact .told place number command happening late kept
  | other _ apart => exact .other _ apart

theorem Occurrence.OfAnswer.fits {α : Type} {scope : Scope} {occurrence : Occurrence}
    (h : occurrence.OfAnswer scope) (world : World α) : occurrence.Fits world := by
  cases h with
  | item | logged => exact .other _ (fun _ _ _ h => by cases h)
  | completed | ignored => exact .told _ _ _ _ rfl rfl

namespace World

variable {α : Type} {world next : World α}

def IsAttested (world : World α) : Prop :=
  ∀ occurrence ∈ world.record, occurrence.Fits world

theorem IsAttested.of_adds (h : world.IsAttested) (hkeeps : Keeps world next)
    (hadds : Adds (Occurrence.Fits next) world next) : next.IsAttested := by
  intro occurrence hmem
  obtain ⟨added, hrecord, hadded⟩ := hadds
  rw [hrecord] at hmem
  rcases List.mem_append.mp hmem with hnew | hold
  · exact hadded occurrence hnew
  · exact (h occurrence hold).mono hkeeps

theorem IsAttested.quiet (h : world.IsAttested) (hkeeps : Keeps world next)
    (hrecord : next.record = world.record) : next.IsAttested :=
  h.of_adds hkeeps (.of_record_eq hrecord)

theorem IsAttested.settle (h : world.IsAttested) (strand number : Nat) {happening : Happening}
    (hlate : happening.isOpening = false) (hkept : happening.yielded? = none) (outcome : Outcome) :
    (world.settle strand number happening outcome).IsAttested :=
  h.of_adds (frame_settle ..).keeps
    (adds_settle world (fun _ => .told _ _ _ _ hlate hkept) fun _ => .told _ _ _ _ rfl rfl)

theorem IsAttested.deliver (h : world.IsAttested) (strand child : Nat) :
    (world.deliver strand child).IsAttested :=
  deliver_induction h fun _ _ _ => h.settle strand _ rfl rfl _

theorem IsAttested.fire (h : world.IsAttested) (strand : Nat) (goal : Goal) :
    (world.fire strand goal).IsAttested := by
  cases goal with
  | wake thread => exact h.of_adds (frame_wake ..).keeps (adds_wake ..)
  | complete cell result =>
      exact complete_induction h fun _ => h.settle strand cell rfl rfl _

/-! ### Executions -/

theorem IsAttested.call (h : world.IsAttested) (scope : Scope) (number : Nat) (command : Command)
    (arguments : Arguments) : (world.call scope number command arguments).1.IsAttested := by
  refine call_induction
    (h.of_adds (Action.frame_run ..).keeps ((Action.adds_run ..).mono fun _ h => h.fits _))
    (fun other reply _ h => h.of_adds (frame_takeReply ..).keeps
      (adds_takeReply (fun other happening hreply => ?_) ..))
    (fun other _ h => h.of_adds (frame_tell ..).keeps (adds_write (.told _ _ _ _ rfl rfl) other))
    fun _ _ h => h.settle scope.strand number rfl rfl _
  cases happening with
  | returned | promised | ignored => exact .told _ _ _ _ rfl rfl
  | _ => cases hreply

theorem IsAttested.noteExecution (h : world.IsAttested) (scope : Scope) {number : Nat}
    {command : Command} (happening : Happening)
    (horigin : (world.cell? scope.strand number).map Cell.origin =
      some (command, scope.thread, scope.step)) :
    (world.noteExecution scope number command happening).IsAttested :=
  h.of_adds (.of_eq fun _ _ => rfl) (adds_write (.noted _ _ _ _ _ _ horigin) world)

theorem IsAttested.begin (h : world.IsAttested) (scope : Scope) {current : Strand α}
    (hstrand : world.strand? scope.strand = some current) (command : Command)
    (arguments : Arguments) : (world.begin scope command arguments).1.IsAttested := by
  let number := world.cellCount scope.strand
  let holds (other : World α) : Prop := other.IsAttested ∧
    (other.cell? scope.strand number).map Cell.origin = some (command, scope.thread, scope.step)
  have hopen : ∀ state happening, holds ((world.openCell scope command state).noteExecution scope number
      command happening) := by
    intro state happening
    have hcell : (world.openCell scope command state).cell? scope.strand number =
        some ⟨command, scope.thread, scope.step, state, none⟩ :=
      (cell?_openCell hstrand ..).trans (if_pos ⟨rfl, rfl⟩)
    have horigin := congrArg (Option.map Cell.origin) hcell
    exact ⟨(h.quiet (keeps_openCell scope command state world) rfl).noteExecution scope happening
      horigin, horigin⟩
  have hbegun : holds (world.begin scope command arguments).1 :=
    begin_induction hopen
      (fun _ h => ⟨h.1.call scope number command arguments,
        ((frame_call ..).origin scope.strand number).trans h.2⟩)
      fun _ _ h => ⟨h.1.noteExecution scope _ h.2, h.2⟩
  exact hbegun.1

/-- A strand stays as long as code of its own runs. -/
theorem Inside.strand {before after : World α} {strand : Nat} (h : Inside strand before after)
    {current : Strand α} (hstrand : before.strand? strand = some current) :
    ∃ later, after.strand? strand = some later := by
  have hown := h.own
  rw [outline?, shape?, outline?, shape?, hstrand] at hown
  cases hafter : after.strand? strand with
  | none => simp [hafter] at hown
  | some later => exact ⟨later, rfl⟩

end World

theorem Routine.isAttested_run {α β : Type} {scope : Scope} {world : World α}
    (h : world.IsAttested) {current : Strand α} (hstrand : world.strand? scope.strand = some current)
    (routine : Routine β) : (routine.run scope world).1.IsAttested := by
  let holds : World α → Prop := fun other =>
    other.IsAttested ∧ World.Inside scope.strand world other
  have hsame : ∀ {other another : World α}, holds other → another.strands = other.strands →
      another.record = other.record → another.IsAttested := fun hother hstrands hrecord =>
    hother.1.quiet (.of_eq fun place number => by simp only [World.cell?, World.strand?, hstrands])
      hrecord
  have hbegin : ∀ step command arguments other, holds other →
      holds (other.begin { scope with step := step } command arguments).1 := by
    intro step command arguments other hother
    obtain ⟨later, hlater⟩ := hother.2.strand hstrand
    exact ⟨hother.1.begin { scope with step := step } hlater command arguments,
      hother.2.trans (World.inside_begin { scope with step := step } command arguments other)⟩
  have hrule : Rule scope holds fun (_ : Suspension β) after => after.IsAttested := {
    ended := fun _ _ hother => hother.1
    answer := fun query other hother =>
      ⟨hother.1.of_adds (World.frame_answer ..).keeps
          ((World.adds_answer ..).mono fun _ h => h.fits _),
        hother.2.trans (World.sameShape_answer scope query other).inside⟩
    turn := fun _ _ _ hother => hsame hother rfl rfl
    timer := fun _ _ _ _ hother _ => hsame hother rfl rfl
    moment := fun _ _ _ hother => hsame hother rfl rfl
    event := fun _ _ _ _ hother => hsame hother rfl rfl
    prepared := by
      intro index _ initializer failure other hother _ _
      let inner : Scope := { scope with step := some index, cell := none }
      have hran : (initializer.run inner other).1.IsAttested :=
        hother.1.of_adds (initializer.frame_run inner other).keeps
          ((initializer.adds_run inner other).mono fun _ h => h.fits _)
      refine ⟨hran.of_adds (.of_eq fun _ _ => rfl) (World.adds_write (.other _ fun _ _ _ h => ?_) _),
        (hother.2.trans (initializer.sameShape_run inner other).inside).trans (.of_strands_eq rfl)⟩
      cases h
    complete := fun step command arguments _ other hother _ _ =>
      hbegin step command arguments other hother
    waits := fun step command arguments _ _ other hother _ _ =>
      (hbegin step command arguments other hother).1
    cancelled := fun step command arguments _ other hother _ _ =>
      (hbegin step command arguments other hother).1 }
  exact hrule.run routine ⟨h, .refl _ world⟩

/-! ### Turns and steps -/

namespace World

variable {α : Type} {world next : World α}

theorem IsAttested.turn {β : Type} (h : world.IsAttested) (scope : Scope) {current : Strand α}
    (hstrand : world.strand? scope.strand = some current) (waiting : Waiting β) (isCancelled : Bool)
    (hcaller : ∀ number rest cell, waiting = .cell number rest →
      world.cell? scope.strand number = some cell → cell.caller = scope.thread) :
    (world.turn scope waiting isCancelled).1.IsAttested := by
  cases isCancelled with
  | true =>
      refine h.of_adds (frame_unwind ..).keeps (adds_unwind (fun _ => .other _ fun _ _ _ h => ?_)
        (fun _ _ => .told _ _ _ _ rfl rfl) ..)
      cases h
  | false =>
      have hresumed : (world.resumed scope waiting).1.IsAttested := by
        cases waiting with
        | turn | timer | event => exact h
        | cell number rest =>
            simp only [World.resumed]
            split
            · rename_i cell outcome hcell _
              refine h.noteExecution { scope with step := cell.step } _ ?_
              rw [hcell, Option.map_some, Cell.origin, hcaller number rest cell rfl hcell]
            · exact h
      obtain ⟨later, hlater⟩ := (inside_resumed scope waiting world).strand hstrand
      rw [turn_of_not_cancelled]
      exact Routine.isAttested_run hresumed hlater _

theorem IsAttested.resume (h : world.IsAttested) (hsound : world.Sound) (strand : Nat)
    (thread : ThreadId) : (world.resume strand thread).IsAttested := by
  rcases world.resume_cases strand thread with ⟨hsame, -⟩ |
    ⟨β, step, cell, waiting, isCancelled, after, status, hstands, hturn, hstored⟩
  · rw [hsame]
    exact h
  · have hcells := cell?_modifyThread strand thread Thread.begin world
    have hbegun : (world.modifyThread strand thread Thread.begin).IsAttested :=
      h.quiet (.of_eq hcells) rfl
    obtain ⟨current, hstrand⟩ : ∃ current,
        (world.modifyThread strand thread Thread.begin).strand? strand = some current := by
      cases hsome : world.strand? strand with
      | none => simp [posture?, hsome] at hstands
      | some current => exact ⟨_, by rw [modifyThread, strand?_modifyStrand, if_pos rfl, hsome]; rfl⟩
    have hafter := hbegun.turn ⟨strand, thread, step, cell⟩ hstrand waiting isCancelled
      fun number rest found hwaiting hfound => by
        subst hwaiting
        obtain ⟨asked, hasked, hcaller, -⟩ := hsound.awaited strand thread number _ hstands
        obtain rfl := Option.some.inj (hasked.symm.trans ((hcells strand number).symm.trans hfound))
        exact hcaller
    rw [hturn] at hafter
    exact hafter.quiet (.of_eq hstored.cell) hstored.record

theorem IsAttested.step (h : world.IsAttested) (hsound : world.Sound) (hstep : Step world next) :
    next.IsAttested := by
  cases hstep with
  | perform before after job hqueue =>
      have htaken : IsAttested { world with queue := before ++ after } :=
        h.quiet (.of_eq fun _ _ => rfl) rfl
      cases job with
      | resume strand thread =>
          exact htaken.resume (hsound.congr (fun _ _ => rfl) (fun _ _ => rfl) (fun _ _ => rfl)
            fun _ _ => rfl) strand thread
      | fire strand goal => exact htaken.fire strand goal
      | deliver strand child => exact htaken.deliver strand child
      | announce | supervise => exact htaken
  | advance next hnext =>
      obtain ⟨due, -, heq⟩ := Option.bind_eq_some_iff.mp hnext
      obtain rfl := Option.some.inj heq
      exact h.quiet (.of_eq fun _ _ => rfl) rfl
  | cancel strand thread =>
      exact h.of_adds (frame_cancel ..).keeps (adds_cancel (fun _ _ => .told _ _ _ _ rfl rfl) ..)
  | print item =>
      refine h.of_adds (.of_eq fun _ _ => rfl) (adds_write (.other _ fun _ _ _ h => ?_) world)
      cases h
  | notify => exact h.quiet (.of_eq fun _ _ => rfl) rfl
  | complete strand number result => exact h.fire strand (.complete number result)

theorem IsAttested.reaches {later : World α} (h : world.IsAttested) (hlawful : world.Lawful)
    (hreach : Reaches world later) : later.IsAttested := by
  induction hreach with
  | refl => exact h
  | tail hfirst hstep ih => exact ih.step (hlawful.reaches hfirst).sound hstep

theorem IsAttested.mem_record (h : world.IsAttested) {place number : Nat} {cell : Cell}
    (hcell : world.cell? place number = some cell) {happening : Happening}
    (hmem : happening ∈ world.past place number)
    (hown : happening.isOpening = true ∨ happening.yielded?.isSome = true) :
    (⟨some place, some cell.caller, cell.step, .execution number cell.command happening⟩ :
      Occurrence) ∈ world.record := by
  obtain ⟨occurrence, hoccurrence, hhappening⟩ := List.mem_filterMap.mp hmem
  cases h occurrence hoccurrence with
  | noted strand execution command caller step other origin =>
      simp only [Occurrence.happening?, Option.ite_none_right_eq_some, Option.some.injEq]
        at hhappening
      obtain ⟨⟨rfl, rfl⟩, rfl⟩ := hhappening
      rw [hcell, Option.map_some, Cell.origin] at origin
      obtain ⟨rfl, rfl, rfl⟩ := Prod.mk.inj (Option.some.inj origin) |>.imp id Prod.mk.inj
      exact hoccurrence
  | told strand execution command other late kept =>
      simp only [Occurrence.happening?, Option.ite_none_right_eq_some, Option.some.injEq]
        at hhappening
      obtain ⟨-, rfl⟩ := hhappening
      simp [late, kept] at hown
  | other _ apart =>
      rcases occurrence with ⟨_ | strand, thread, step, event⟩
      · cases hhappening
      · cases event with
        | execution execution command happening => exact absurd rfl (apart execution command happening)
        | _ => cases hhappening

theorem IsAttested.exists_opening (h : world.IsAttested) (hsound : world.Sound)
    {place number : Nat} {cell : Cell} (hcell : world.cell? place number = some cell) :
    ∃ happening, happening.isOpening = true ∧
      (⟨some place, some cell.caller, cell.step, .execution number cell.command happening⟩ :
        Occurrence) ∈ world.record := by
  obtain ⟨later, first, hpast, -, hfirst⟩ := hsound.opens place number cell hcell
  have hopening : first.isOpening = true := by
    rcases hfirst with ⟨arguments, rfl, -⟩ | ⟨arguments, rfl, -⟩ <;> rfl
  exact ⟨first, hopening, h.mem_record hcell (by simp [hpast]) (.inl hopening)⟩

end World

end Cascade
