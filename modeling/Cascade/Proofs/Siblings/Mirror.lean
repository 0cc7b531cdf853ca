import Cascade.Proofs.Run.Locality
import Cascade.Proofs.Siblings.View

/-!
Isolated code does the same in a strand as in a world of its own, and leaves the other strands alone.
-/

namespace Cascade

namespace World

variable {α β : Type}

/-- Two worlds that mirror each other in a strand, with the same proper value. -/
structure MirrorsWith {γ : Type} (place : Nat) (base : World α) (proper : γ → Prop)
    (first second : World α × γ) : Prop where
  worlds : Mirrors place base first.1 second.1
  value : first.2 = second.2
  proper : proper second.2

namespace Mirrors

variable {place : Nat} {base world lone : World α}

/-! ### Waking and completing -/

theorem modifyThread (h : Mirrors place base world lone) (thread : ThreadId)
    (change : {β : Type} → Thread β → Thread β)
    (hchange : ∀ {β : Type} (thread : Thread β), thread.IsIsolated → (change thread).IsIsolated) :
    Mirrors place base (world.modifyThread place thread change)
      (lone.modifyThread 0 thread change) := by
  refine h.modifyStrand fun strand _ hstrand => ?_
  cases thread with
  | root => exact ⟨hstrand.invocations, hchange _ hstrand.root, hstrand.children⟩
  | child number =>
      exact ⟨hstrand.invocations, hstrand.root,
        forall_mem_modify (fun child => hchange child) hstrand.children number⟩

theorem modifyCell (h : Mirrors place base world lone) (number : Nat) (change : Cell → Cell) :
    Mirrors place base (world.modifyCell place number change) (lone.modifyCell 0 number change) :=
  h.modifyStrand fun _ _ hstrand => ⟨hstrand.invocations, hstrand.root, hstrand.children⟩

theorem wake (h : Mirrors place base world lone) (thread : ThreadId) (cell : Option Nat) :
    Mirrors place base (world.wake place thread cell) (lone.wake 0 thread cell) := by
  rw [World.wake, h.ofThread_eq, World.wake]
  split
  · have hmarked := h.modifyThread thread (Thread.mark .woken) fun _ hthread =>
      hthread.mark .woken
    exact hmarked.enqueue (.resume place thread) rfl
  · exact h

theorem tell (h : Mirrors place base world lone) (number : Nat) (command : Command)
    (happening : Happening) : Mirrors place base (world.tell place number command happening)
      (lone.tell 0 number command happening) :=
  h.write none none _

theorem settle (h : Mirrors place base world lone) (number : Nat) (happening : Happening)
    (outcome : Outcome) : Mirrors place base (world.settle place number happening outcome)
      (lone.settle 0 number happening outcome) := by
  rw [World.settle, h.cell?_eq, World.settle]
  split
  · exact h
  · rename_i cell _
    have htold := h.tell number cell.command happening
    dsimp only
    split
    · exact htold
    · exact htold.tell number cell.command (.ignored outcome)
    · exact (htold.modifyCell number _).wake cell.caller (some number)

theorem complete (h : Mirrors place base world lone) (number : Nat)
    (result : Except Fault Value) : Mirrors place base (world.complete place number result)
      (lone.complete 0 number result) := by
  rw [World.complete, h.cell?_eq, World.complete]
  split
  · exact h
  · exact h.settle number _ _

/-! ### Questions -/

/-- A question that has nothing to do with other strands gets the same answer. -/
theorem answer (h : Mirrors place base world lone) (thread : ThreadId) (step cell : Option Nat)
    {query : Query} (hown : query.IsOwn) :
    MirrorsWith place base (fun _ => True) (world.answer ⟨place, thread, step, cell⟩ query)
      (lone.answer ⟨0, thread, step, cell⟩ query) := by
  cases query with
  | emit item => exact ⟨h.write (some thread) step _, rfl, trivial⟩
  | now => exact ⟨h, h.clock_eq, trivial⟩
  | complete result =>
      cases cell with
      | some number => exact ⟨h.complete number result, rfl, trivial⟩
      | none => exact ⟨h, rfl, trivial⟩
  | completeLater delay result =>
      cases cell with
      | none => exact ⟨h, rfl, trivial⟩
      | some number =>
          by_cases hdelay : delay.isPositive = true
          · simp only [World.answer, hdelay, if_true]
            exact ⟨h.schedule hdelay _, rfl, trivial⟩
          · simp only [World.answer, hdelay]
            exact ⟨h.enqueue (.fire place (.complete number result)) rfl, rfl, trivial⟩
  | step => exact ⟨h, h.stepView?_eq thread step cell, trivial⟩
  | setState name entry =>
      cases step with
      | none => exact ⟨h, rfl, trivial⟩
      | some index =>
          refine ⟨h.modifyStrand fun _ _ hstrand => ?_, rfl, trivial⟩
          exact ⟨hstrand.invocations, hstrand.root, hstrand.children⟩
  | menu => exact ⟨h, h.menuView_eq, trivial⟩
  | record command message => exact ⟨h.write (some thread) step _, rfl, trivial⟩
  | signal | countCall | callCount => exact hown.elim

/-- After an isolated question the same code goes on. -/
theorem ask {γ : Type} (h : Mirrors place base world lone) (thread : ThreadId)
    (step cell : Option Nat) {query : Query} {next : query.Answer → γ}
    (hquery : query.IsIsolated next) :
    Mirrors place base (world.answer ⟨place, thread, step, cell⟩ query).1
        (lone.answer ⟨0, thread, step, cell⟩ query).1 ∧
      next (world.answer ⟨place, thread, step, cell⟩ query).2 =
        next (lone.answer ⟨0, thread, step, cell⟩ query).2 := by
  rcases hquery with hown | ⟨⟨name, rfl⟩, hsame⟩
  · have hanswer := h.answer thread step cell hown
    exact ⟨hanswer.worlds, congrArg next hanswer.value⟩
  · refine ⟨⟨h.own, h.others, ?_⟩, hsame _ _⟩
    exact ⟨h.secluded.commands, h.secluded.strands, h.secluded.clock, h.secluded.timers⟩

end Mirrors

end World

variable {α β : Type} {place : Nat} {base world lone : World α}

theorem Action.mirrors_run {proper : β → Prop} {action : Action β}
    (hisolated : action.IsIsolated proper) (h : World.Mirrors place base world lone)
    (thread : ThreadId) (step cell : Option Nat) :
    World.MirrorsWith place base (fun result => ∀ value, result = .ok value → proper value)
      (action.run ⟨place, thread, step, cell⟩ world) (action.run ⟨0, thread, step, cell⟩ lone) := by
  induction action generalizing world lone with
  | finish value =>
      refine ⟨h, rfl, fun other heq => ?_⟩
      obtain rfl := Except.ok.inj heq
      exact hisolated
  | fail fault => exact ⟨h, rfl, fun value heq => by cases heq⟩
  | ask query next ih =>
      obtain ⟨hquery, hnext⟩ := hisolated
      obtain ⟨hanswer, hsame⟩ := h.ask thread step cell hquery
      simp only [Action.run, hsame]
      exact ih _ (hnext _) hanswer

namespace World.Mirrors

/-! ### Executions -/

theorem spawn (h : Mirrors place base world lone) (thread : ThreadId) (step own : Option Nat)
    (cell : Nat) (delivers : Bool) {body : Routine Value} (hbody : body.IsIsolated) :
    Mirrors place base (world.spawn ⟨place, thread, step, own⟩ cell delivers body)
      (lone.spawn ⟨0, thread, step, own⟩ cell delivers body) := by
  rw [World.spawn, h.childCount_eq, World.spawn]
  refine Mirrors.enqueue (h.modifyStrand fun strand _ hstrand => ?_)
    (.resume place (.child (lone.childCount 0))) rfl
  exact ⟨hstrand.invocations, hstrand.root, List.forall_mem_append.mpr
    ⟨hstrand.children, List.forall_mem_singleton.mpr hbody⟩⟩

theorem takeReply (h : Mirrors place base world lone) (thread : ThreadId) (step own : Option Nat)
    (command : Command) (cell : Nat) {reply : Reply} (hreply : reply.IsIsolated) :
    Mirrors place base (world.takeReply ⟨place, thread, step, own⟩ command cell reply)
      (lone.takeReply ⟨0, thread, step, own⟩ command cell reply) := by
  simp only [World.takeReply, h.outcome?_eq]
  cases reply with
  | awaitable started body =>
      have htold := h.tell cell command (.promised started)
      cases lone.outcome? 0 cell with
      | some outcome =>
          cases started with
          | true => exact htold.spawn thread step own cell false hreply
          | false => exact htold
      | none =>
          simp only [World.adopt, htold.childCount_eq]
          exact (htold.spawn thread step own cell true hreply).modifyCell cell _
  | value result =>
      have htold := h.tell cell command (.returned result)
      cases lone.outcome? 0 cell with
      | some outcome => exact htold
      | none =>
          dsimp only
          split
          · exact htold
          · exact h.settle cell _ _

theorem openCell (h : Mirrors place base world lone) (thread : ThreadId) (step own : Option Nat)
    (command : Command) (state : CellState) :
    Mirrors place base (world.openCell ⟨place, thread, step, own⟩ command state)
      (lone.openCell ⟨0, thread, step, own⟩ command state) :=
  h.modifyStrand fun _ _ hstrand => ⟨hstrand.invocations, hstrand.root, hstrand.children⟩

theorem call (h : Mirrors place base world lone) (thread : ThreadId) (step own : Option Nat)
    (number : Nat) {command : Command} (hcommand : command.IsIsolated) (arguments : Arguments) :
    MirrorsWith place base (fun _ => True)
      (world.call ⟨place, thread, step, own⟩ number command arguments)
      (lone.call ⟨0, thread, step, own⟩ number command arguments) := by
  have hrun := Action.mirrors_run (hcommand.run arguments) h thread step (some number)
  rw [World.call, World.call]
  rcases hfirst : (command.run arguments).run ⟨place, thread, step, some number⟩ world with
    ⟨middle, result⟩
  rcases hsecond : (command.run arguments).run ⟨0, thread, step, some number⟩ lone with
    ⟨other, ending⟩
  rw [hfirst, hsecond] at hrun
  obtain ⟨hworlds, rfl, hproper⟩ := hrun
  cases result with
  | ok reply =>
      have htaken := hworlds.takeReply thread step own command number (hproper reply rfl)
      exact ⟨htaken, htaken.standing_eq number, trivial⟩
  | error fault =>
      dsimp only
      split
      · exact ⟨hworlds.tell number command _, rfl, trivial⟩
      · have hsettled := hworlds.settle number (.raised fault) (.failure command.name fault)
        exact ⟨hsettled, hsettled.standing_eq number, trivial⟩

theorem begin (h : Mirrors place base world lone) (thread : ThreadId) (step own : Option Nat)
    {command : Command} (hcommand : command.IsIsolated) (arguments : Arguments) :
    MirrorsWith place base (fun _ => True)
      (world.begin ⟨place, thread, step, own⟩ command arguments)
      (lone.begin ⟨0, thread, step, own⟩ command arguments) := by
  have henter : MirrorsWith place base (fun _ => True)
      (world.enter ⟨place, thread, step, own⟩ (lone.cellCount 0) command arguments)
      (lone.enter ⟨0, thread, step, own⟩ (lone.cellCount 0) command arguments) := by
    rw [World.enter, World.enter]
    split
    · have hopened := (h.openCell thread step own command .pending).write (some thread) step
        (.execution (lone.cellCount 0) command (.called arguments))
      exact hopened.call thread step own _ hcommand arguments
    · exact ⟨(h.openCell thread step own command _).write (some thread) step _, rfl, trivial⟩
  rw [World.begin, h.cellCount_eq, World.begin]
  rcases hfirst : world.enter ⟨place, thread, step, own⟩ (lone.cellCount 0) command arguments with
    ⟨middle, begun⟩
  rcases hsecond : lone.enter ⟨0, thread, step, own⟩ (lone.cellCount 0) command arguments with
    ⟨other, ending⟩
  rw [hfirst, hsecond] at henter
  obtain ⟨hworlds, rfl, -⟩ := henter
  cases begun with
  | complete outcome => exact ⟨hworlds.write (some thread) step _, rfl, trivial⟩
  | waits number => exact ⟨hworlds, rfl, trivial⟩
  | cancelled fault => exact ⟨hworlds, rfl, trivial⟩

end World.Mirrors

def Suspension.IsIsolated : Suspension β → Prop
  | .ended _ => True
  | .waits waiting _ => waiting.IsIsolated

theorem Routine.mirrors_run {routine : Routine β} (hisolated : routine.IsIsolated)
    (h : World.Mirrors place base world lone) (thread : ThreadId) (step cell : Option Nat) :
    World.MirrorsWith place base Suspension.IsIsolated
      (routine.run ⟨place, thread, step, cell⟩ world)
      (routine.run ⟨0, thread, step, cell⟩ lone) := by
  induction routine generalizing world lone with
  | finish value => exact ⟨h, rfl, trivial⟩
  | fail fault => exact ⟨h, rfl, trivial⟩
  | ask query next ih =>
      obtain ⟨hquery, hnext⟩ := hisolated
      obtain ⟨hanswer, hsame⟩ := h.ask thread step cell hquery
      simp only [Routine.run, hsame]
      exact ih _ (hnext _) hanswer
  | sleep seconds notice next ih =>
      rw [Routine.run, Routine.run]
      split
      · exact ⟨h.enqueue (.resume place thread) rfl, rfl, hisolated⟩
      · split
        · rename_i hpositive
          exact ⟨h.schedule hpositive (.wake thread), rfl, hisolated⟩
        · exact ⟨h.enqueue (.fire place (.wake thread)) rfl, rfl, hisolated⟩
  | await event notice next ih => exact hisolated.elim
  | prepare index next ih =>
      simp only [Routine.run, h.strand?_eq]
      cases hinvocation : (lone.strand? 0).bind fun strand => strand.invocations[index]? with
      | none => exact ⟨h, rfl, trivial⟩
      | some invocation =>
          have hcommand := h.isolated_invocation hinvocation
          cases hinitializer : invocation.command.initializer with
          | none =>
              simp only [hinitializer]
              exact ih _ (hisolated _) h
          | some initializer =>
              simp only [hinitializer]
              have hrun := Action.mirrors_run (hcommand.initializer initializer hinitializer) h
                thread (some index) none
              rcases hfirst : initializer.run ⟨place, thread, some index, none⟩ world with
                ⟨middle, result⟩
              rcases hsecond : initializer.run ⟨0, thread, some index, none⟩ lone with
                ⟨other, ending⟩
              rw [hfirst, hsecond] at hrun
              obtain ⟨hworlds, rfl, -⟩ := hrun
              have hnoted := fun failure => hworlds.write (some thread) step
                (.prepared index failure)
              cases result with
              | ok value => exact ih _ (hisolated _) (hnoted none)
              | error fault =>
                  dsimp only
                  split
                  · exact ⟨hnoted (some fault), rfl, trivial⟩
                  · exact ih _ (hisolated _) (hnoted (some fault))
  | execute index next ih =>
      simp only [Routine.run, h.strand?_eq]
      cases hinvocation : (lone.strand? 0).bind fun strand => strand.invocations[index]? with
      | none => exact ⟨h, rfl, trivial⟩
      | some invocation =>
          have hbegin := h.begin thread (some index) cell (h.isolated_invocation hinvocation)
            invocation.arguments
          dsimp only
          rcases hfirst : world.begin ⟨place, thread, some index, cell⟩ invocation.command
            invocation.arguments with ⟨middle, begun⟩
          rcases hsecond : lone.begin ⟨0, thread, some index, cell⟩ invocation.command
            invocation.arguments with ⟨other, ending⟩
          rw [hfirst, hsecond] at hbegin
          obtain ⟨hworlds, rfl, -⟩ := hbegin
          cases begun with
          | complete outcome => exact ih _ (hisolated _) hworlds
          | waits number => exact ⟨hworlds, rfl, hisolated⟩
          | cancelled fault => exact ⟨hworlds, rfl, trivial⟩
  | invoke name given next ih =>
      simp only [Routine.run, h.surroundings_eq]
      cases hlookup : lone.surroundings.registry.lookup name with
      | error fault => exact ⟨h, rfl, trivial⟩
      | ok command =>
          cases given.toArguments with
          | error fault => exact ⟨h, rfl, trivial⟩
          | ok arguments =>
              have hbegin := h.begin thread step cell (h.isolated_lookup hlookup) arguments
              dsimp only
              rcases hfirst : world.begin ⟨place, thread, step, cell⟩ command arguments with
                ⟨middle, begun⟩
              rcases hsecond : lone.begin ⟨0, thread, step, cell⟩ command arguments with
                ⟨other, ending⟩
              rw [hfirst, hsecond] at hbegin
              obtain ⟨hworlds, rfl, -⟩ := hbegin
              cases begun with
              | complete outcome => exact ih _ (hisolated _) hworlds
              | waits number => exact ⟨hworlds, rfl, hisolated⟩
              | cancelled fault => exact ⟨hworlds, rfl, trivial⟩

namespace World.Mirrors

/-! ### Cancellations -/

theorem drop (h : Mirrors place base world lone) (number : Nat) :
    Mirrors place base (world.drop place number) (lone.drop 0 number) := by
  rw [World.drop, h.cell?_eq, World.drop]
  split
  · exact h
  · rename_i cell _
    split
    · exact (h.tell number cell.command .dropped).modifyCell number _
    · exact h

theorem forget (h : Mirrors place base world lone) (thread : ThreadId) :
    Mirrors place base (world.forget place thread) (lone.forget 0 thread) where
  own := by
    rw [view_forget, view_forget, h.own]
  others := by
    intro other hne
    rw [view_forget_of_ne hne]
    exact h.others other hne
  secluded := {
    commands := h.secluded.commands
    strands := h.secluded.strands
    clock := h.secluded.clock
    timers := fun timer hmem => h.secluded.timers timer (List.mem_filter.mp hmem).1 }

theorem cancel (h : Mirrors place base world lone) (thread : ThreadId) :
    Mirrors place base (world.cancel place thread) (lone.cancel 0 thread) := by
  have hmark : ∀ {world lone : World α}, Mirrors place base world lone →
      Mirrors place base (world.modifyThread place thread (Thread.mark .cancelled))
        (lone.modifyThread 0 thread (Thread.mark .cancelled)) :=
    fun h => h.modifyThread thread (Thread.mark .cancelled) fun _ hthread => hthread.mark .cancelled
  rw [World.cancel, h.ofThread_eq, h.ofThread_eq, World.cancel]
  split
  · dsimp only
    split
    · rename_i cell _
      exact (hmark ((h.drop cell).forget thread)).enqueue (.resume place thread) rfl
    · exact (hmark (h.forget thread)).enqueue (.resume place thread) rfl
  · exact hmark h

/-! ### Turns and jobs -/

theorem leave (h : Mirrors place base world lone) (thread : ThreadId) (step cell : Option Nat)
    (notice : Option Item) : Mirrors place base (world.leave ⟨place, thread, step, cell⟩ notice)
      (lone.leave ⟨0, thread, step, cell⟩ notice) := by
  cases notice with
  | none => exact h
  | some item => exact h.write (some thread) step _

theorem unwind (h : Mirrors place base world lone) (thread : ThreadId) (step cell : Option Nat)
    (waiting : Waiting β) : Mirrors place base (world.unwind ⟨place, thread, step, cell⟩ waiting)
      (lone.unwind ⟨0, thread, step, cell⟩ waiting) := by
  cases waiting with
  | turn notice next => exact h.leave thread step cell notice
  | timer notice next => exact h.leave thread step cell notice
  | event name notice next => exact h.leave thread step cell notice
  | cell number next =>
      simp only [World.unwind, h.cell?_eq]
      cases (lone.cell? 0 number).bind Cell.child with
      | none => exact h
      | some child => exact h.cancel (.child child)

theorem resumed (h : Mirrors place base world lone) (thread : ThreadId) (step cell : Option Nat)
    {waiting : Waiting β} (hwaiting : waiting.IsIsolated) :
    MirrorsWith place base Routine.IsIsolated
      (world.resumed ⟨place, thread, step, cell⟩ waiting)
      (lone.resumed ⟨0, thread, step, cell⟩ waiting) := by
  cases waiting with
  | turn notice next => exact ⟨h, rfl, hwaiting⟩
  | timer notice next => exact ⟨h, rfl, hwaiting⟩
  | event name notice next => exact hwaiting.elim
  | cell number next =>
      simp only [World.resumed, h.cell?_eq, h.outcome?_eq]
      split
      · rename_i found outcome _ _
        exact ⟨h.write (some thread) found.step _, rfl, hwaiting outcome⟩
      · exact ⟨h, rfl, trivial⟩

theorem turn (h : Mirrors place base world lone) (thread : ThreadId) (step cell : Option Nat)
    {waiting : Waiting β} (hwaiting : waiting.IsIsolated) (isCancelled : Bool) :
    MirrorsWith place base ThreadStatus.IsIsolated
      (world.turn ⟨place, thread, step, cell⟩ waiting isCancelled)
      (lone.turn ⟨0, thread, step, cell⟩ waiting isCancelled) := by
  cases isCancelled with
  | true => exact ⟨h.unwind thread step cell waiting, rfl, trivial⟩
  | false =>
      have hresumed := h.resumed thread step cell hwaiting
      simp only [World.turn, Bool.false_eq_true, if_false]
      rcases hfirst : world.resumed ⟨place, thread, step, cell⟩ waiting with ⟨middle, routine⟩
      rcases hsecond : lone.resumed ⟨0, thread, step, cell⟩ waiting with ⟨other, program⟩
      rw [hfirst, hsecond] at hresumed
      obtain ⟨hworlds, rfl, hisolated⟩ := hresumed
      have hrun := Routine.mirrors_run hisolated hworlds thread step cell
      dsimp only
      rcases hend : routine.run ⟨place, thread, step, cell⟩ middle with ⟨after, suspension⟩
      rcases hstop : routine.run ⟨0, thread, step, cell⟩ other with ⟨last, pause⟩
      rw [hend, hstop] at hrun
      obtain ⟨hafter, rfl, hpause⟩ := hrun
      cases suspension with
      | ended result => exact ⟨hafter, rfl, trivial⟩
      | waits wait wake => exact ⟨hafter, rfl, hpause⟩

theorem setRoot (h : Mirrors place base world lone) {status : ThreadStatus α}
    (hstatus : status.IsIsolated) :
    Mirrors place base (world.setRoot place status) (lone.setRoot 0 status) :=
  h.modifyStrand fun _ _ hstrand => ⟨hstrand.invocations, hstatus, hstrand.children⟩

theorem setChild (h : Mirrors place base world lone) (number : Nat) {status : ThreadStatus Value}
    (hstatus : status.IsIsolated) :
    Mirrors place base (world.setChild place number status) (lone.setChild 0 number status) := by
  refine h.modifyStrand fun _ _ hstrand => ⟨hstrand.invocations, hstrand.root, ?_⟩
  refine forall_mem_modify (fun child _ => ?_) hstrand.children number
  exact hstatus

theorem close (h : Mirrors place base world lone) (job : Job) (hjob : job.strand? = some place)
    (status : ThreadStatus β) :
    Mirrors place base (world.close job status) (lone.close (job.move 0) status) := by
  cases status with
  | finished result => exact h.enqueue job hjob
  | running => exact h
  | waiting wait wake => exact h

theorem resume (h : Mirrors place base world lone) (thread : ThreadId) :
    Mirrors place base (world.resume place thread) (lone.resume 0 thread) := by
  have hbegun := h.modifyThread thread Thread.begin fun _ _ => trivial
  simp only [World.resume, h.strand?_eq]
  cases hstrand : lone.strand? 0 with
  | none => exact h
  | some current =>
      have hisolated := h.secluded.strands current (List.mem_of_getElem? hstrand)
      cases thread with
      | root =>
          dsimp only
          cases hdue : current.root.due? with
          | none => exact h
          | some due =>
              obtain ⟨waiting, isCancelled⟩ := due
              have hturn := hbegun.turn .root current.root.step current.root.cell
                (hisolated.root.of_due? hdue) isCancelled
              dsimp only
              rcases hfirst : (world.modifyThread place .root Thread.begin).turn
                ⟨place, .root, current.root.step, current.root.cell⟩ waiting isCancelled with
                ⟨middle, status⟩
              rcases hsecond : (lone.modifyThread 0 .root Thread.begin).turn
                ⟨0, .root, current.root.step, current.root.cell⟩ waiting isCancelled with
                ⟨other, ending⟩
              rw [hfirst, hsecond] at hturn
              obtain ⟨hworlds, rfl, hstatus⟩ := hturn
              exact (hworlds.setRoot hstatus).close (.announce place) rfl status
      | child number =>
          dsimp only
          cases hdue : current.children[number]?.bind fun thread =>
            thread.due?.map fun due => (thread, due) with
          | none => exact h
          | some due =>
              obtain ⟨child, waiting, isCancelled⟩ := due
              obtain ⟨found, hfound, hdue⟩ := Option.bind_eq_some_iff.mp hdue
              obtain ⟨other, hother, heq⟩ := Option.map_eq_some_iff.mp hdue
              cases heq
              have hchild := hisolated.children child (List.mem_of_getElem? hfound)
              have hturn := hbegun.turn (.child number) child.step child.cell
                (hchild.of_due? hother) isCancelled
              dsimp only
              rcases hfirst : (world.modifyThread place (.child number) Thread.begin).turn
                ⟨place, .child number, child.step, child.cell⟩ waiting isCancelled with
                ⟨middle, status⟩
              rcases hsecond : (lone.modifyThread 0 (.child number) Thread.begin).turn
                ⟨0, .child number, child.step, child.cell⟩ waiting isCancelled with
                ⟨other, ending⟩
              rw [hfirst, hsecond] at hturn
              obtain ⟨hworlds, rfl, hstatus⟩ := hturn
              exact (hworlds.setChild number hstatus).close (.deliver place number) rfl status

theorem deliver (h : Mirrors place base world lone) (child : Nat) :
    Mirrors place base (world.deliver place child) (lone.deliver 0 child) := by
  simp only [World.deliver, h.strand?_eq, h.cell?_eq]
  split
  · exact h
  · split
    · split
      · exact h.settle _ _ _
      · exact h
    · exact h

theorem fire (h : Mirrors place base world lone) (goal : Goal) :
    Mirrors place base (world.fire place goal) (lone.fire 0 goal) := by
  cases goal with
  | wake thread => exact h.wake thread none
  | complete cell result => exact h.complete cell result

theorem perform (h : Mirrors place base world lone) {job : Job} (hjob : job.strand? = some place) :
    Mirrors place base (world.perform job) (lone.perform (job.move 0)) := by
  cases job with
  | resume strand thread =>
      obtain rfl := Option.some.inj hjob
      exact h.resume thread
  | fire strand goal =>
      obtain rfl := Option.some.inj hjob
      exact h.fire goal
  | deliver strand child =>
      obtain rfl := Option.some.inj hjob
      exact h.deliver child
  | announce strand => exact h
  | supervise => cases hjob

end World.Mirrors

end Cascade
