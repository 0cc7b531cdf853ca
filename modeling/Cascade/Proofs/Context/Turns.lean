import Cascade.Proofs.Context.Placed

/-!
The turns of threads and the steps of a run keep everything where it belongs, whichever job comes
next and whichever chain is cancelled.
-/

namespace Cascade

namespace World

variable {α : Type} {noted : Nat → Nat → Nat → Prop} {world next first last : World α}
  {acts : List Act}

/-- What is done at a turn, or by a step, and the state after it. -/
structure Keeping (noted : Nat → Nat → Nat → Prop) (world next : World α) (acts : List Act) :
    Prop where
  evolves : Evolves noted world next
  places : ∀ act ∈ acts, next.Places noted act

theorem Keeping.trans {middle : World α} {more : List Act} (h : Keeping noted world middle acts)
    (k : Keeping noted middle next more) : Keeping noted world next (acts ++ more) := by
  refine ⟨h.evolves.trans k.evolves, fun act hmem => ?_⟩
  rcases List.mem_append.mp hmem with hmem | hmem
  · exact (h.places act hmem).mono k.evolves.grows
  · exact k.places act hmem

theorem Keeping.of_evolves (h : Evolves noted world next) : Keeping noted world next [] :=
  ⟨h, (fun _ hmem => by cases hmem)⟩

theorem keeping_turn {β : Type} {scope : Scope} {rights : Rights} {waiting : Waiting β}
    (isCancelled : Bool) (h : world.Placed noted) (host : world.Hosts noted scope rights)
    (hminds : waiting.Minds rights)
    (hawaited : ∀ number rest, waiting = .cell number rest → ∃ shape command step,
      world.shape? scope.strand = some shape ∧
        shape.cells[number]? = some (command, scope.thread, step))
    (honest : ∀ act ∈ world.actsOfTurn scope waiting isCancelled, act.IsHonest noted) :
    Keeping noted world (world.turn scope waiting isCancelled).1
        (world.actsOfTurn scope waiting isCancelled) ∧
      (world.turn scope waiting isCancelled).2.Minds rights := by
  cases isCancelled with
  | true =>
      refine ⟨⟨?_, fun act hmem => ?_⟩, trivial⟩
      · refine h.of_sameShape (sameShape_unwind scope waiting world) ?_
        exact (tells_turn scope waiting true world).surroundings
      · have hgrows : Grows world (world.turn scope waiting true).1 :=
          .of_sameShape (sameShape_unwind scope waiting world)
        simp only [actsOfTurn, if_true, actsOfUnwind] at hmem
        have hnotice : ∀ notice : Option Item,
            act ∈ (notice.map fun item => world.act scope (.leaves item)).toList →
              world.Places noted act := by
          intro notice hnotice
          cases notice with
          | none => cases hnotice
          | some item =>
              obtain rfl := List.mem_singleton.mp hnotice
              exact host.places rfl trivial rfl
        cases waiting with
        | turn notice rest => exact (hnotice notice hmem).mono hgrows
        | timer notice rest => exact (hnotice notice hmem).mono hgrows
        | event name notice rest => exact (hnotice notice hmem).mono hgrows
        | cell number rest => cases hmem
  | false =>
      have hresumed : Keeping noted world (world.resumed scope waiting).1
          (world.actsOfResumed scope waiting) ∧
            (world.resumed scope waiting).2.Minds rights := by
        cases waiting with
        | turn notice rest => exact ⟨.of_evolves (.refl h), hminds⟩
        | timer notice rest => exact ⟨.of_evolves (.refl h), hminds⟩
        | event name notice rest => exact ⟨.of_evolves (.refl h), hminds⟩
        | cell number rest =>
            cases houtcome : world.outcome? scope.strand number with
            | none =>
                simp only [resumed, actsOfResumed, houtcome]
                cases world.cell? scope.strand number <;>
                  exact ⟨.of_evolves (.refl h), trivial⟩
            | some outcome =>
                cases hcell : world.cell? scope.strand number with
                | none => simp [outcome?, hcell] at houtcome
                | some cell =>
                    obtain ⟨shape, command, step, hshape, horigin⟩ := hawaited number rest rfl
                    have hnoted : Evolves noted world
                        (world.noteExecution { scope with step := cell.step } number cell.command
                          (.yielded outcome)) :=
                      h.of_sameShape (.of_strands_eq rfl) rfl
                    rw [resumed_cell hcell houtcome]
                    simp only [actsOfResumed, houtcome]
                    refine ⟨⟨hnoted, fun act hmem => ?_⟩, hminds outcome⟩
                    obtain rfl := List.mem_singleton.mp hmem
                    exact Places.mono (host.places_asked (rfl : (world.act scope
                      (.gets number outcome)).scope = scope) trivial rfl hshape horigin
                      (fun _ _ _ _ h => by cases h)) hnoted.grows
      simp only [actsOfTurn, Bool.false_eq_true, if_false] at honest ⊢
      obtain ⟨hstart, hrest⟩ := hresumed
      have hgoes := Routine.goes_run hstart.evolves.placed (host.mono hstart.evolves.grows) hrest
        fun act hmem => honest act (List.mem_append_right _ hmem)
      rw [turn_of_not_cancelled]
      exact ⟨hstart.trans ⟨hgoes.evolves, hgoes.places⟩, hgoes.minds⟩

/-- The execution that a thread waits for is one that it asked for. -/
theorem Sound.asked (h : world.Sound) {strand : Nat} {current : Strand α} (thread : ThreadId)
    {posture : Posture} (hstrand : world.strand? strand = some current)
    (hposture : current.posture? thread = some posture) (number : Nat)
    (hwaits : posture.awaitedCell? = some number) :
    ∃ command step, current.shape.cells[number]? = some (command, thread, step) := by
  cases posture with
  | running => cases hwaits
  | finished isCancelled => cases hwaits
  | waits cell wake =>
      obtain rfl : cell = some number := hwaits
      have hstands : world.posture? strand thread = some (.waits (some number) wake) := by
        rw [posture?, hstrand]
        exact hposture
      obtain ⟨cell, hcell, hcaller, -⟩ := h.awaited strand thread number wake hstands
      have hshape : world.shape? strand = some current.shape := by rw [shape?, hstrand, Option.map_some]
      refine ⟨cell.command, cell.step, ?_⟩
      rw [cells_of_cell? hcell hshape, Cell.origin, hcaller]

theorem minds_of_due? {β : Type} {rights : Rights} {thread : Thread β}
    (h : thread.calm.status.Minds rights) {waiting : Waiting β} {isCancelled : Bool}
    (hdue : thread.due? = some (waiting, isCancelled)) : waiting.Minds rights := by
  rcases thread with ⟨_, _, _, _ | ⟨wait, wake⟩ | _⟩
  · cases hdue
  · cases wake <;> cases hdue <;> exact h
  · cases hdue

theorem Keeping.of_turn {β : Type} {scope : Scope} {rights : Rights} {waiting : Waiting β}
    {isCancelled : Bool} {begun after : World α} {status : ThreadStatus β}
    (hbegun : Evolves noted world begun) (host : begun.Hosts noted scope rights)
    (hminds : waiting.Minds rights)
    (hawaited : ∀ number rest, waiting = .cell number rest → ∃ shape command step,
      begun.shape? scope.strand = some shape ∧
        shape.cells[number]? = some (command, scope.thread, step))
    (honest : ∀ act ∈ begun.actsOfTurn scope waiting isCancelled, act.IsHonest noted)
    (turn : begun.turn scope waiting isCancelled = (after, status))
    (hstore : Evolves noted begun after → status.Minds rights → Evolves noted after next) :
    Keeping noted world next (begun.actsOfTurn scope waiting isCancelled) := by
  have hturn := keeping_turn isCancelled hbegun.placed host hminds hawaited honest
  rw [turn] at hturn
  obtain ⟨hkeeping, hend⟩ := hturn
  have hall := (Keeping.of_evolves hbegun).trans
    (hkeeping.trans (.of_evolves (hstore hkeeping.evolves hend)))
  rwa [List.nil_append, List.append_nil] at hall

theorem evolves_close {β : Type} (h : world.Placed noted) (job : Job) (status : ThreadStatus β) :
    Evolves noted world (world.close job status) := by
  cases status <;> exact h.of_sameShape (.of_strands_eq rfl) rfl

theorem Resumes.keeping {strand : Nat} {id : ThreadId} (h : Resumes strand world id acts next)
    (hplaced : world.Placed noted) (hsound : world.Sound)
    (honest : ∀ act ∈ acts, act.IsHonest noted) : Keeping noted world next acts := by
  cases h with
  | idle => exact .of_evolves (.refl hplaced)
  | root current waiting isCancelled after status found due turn =>
      have hshape : world.shape? strand = some current.shape := by rw [shape?, found]; rfl
      have hroot := (hplaced.shapes strand _ hshape).root
      have hbegun : Evolves noted world (world.modifyThread strand .root Thread.begin) := by
        refine hplaced.of_change (Shape.setRoot .running)
          (shape?_modifyStrand (fun _ => rfl) strand world) rfl fun shape hsome => ?_
        exact ⟨(hplaced.shapes strand shape hsome).setRoot trivial, shape.grows_setRoot _⟩
      obtain ⟨shape, hstart, hgrows⟩ := hbegun.grows strand _ hshape
      have hscope : (⟨strand, .root, current.root.step, current.root.cell⟩ : Scope) =
          ⟨strand, .root, none, none⟩ := by
        rw [show current.root.step = none from hroot.1, show current.root.cell = none from hroot.2.1]
      refine .of_turn hbegun (.chain shape hstart hscope) (minds_of_due? hroot.2.2 due)
        (fun number rest hwaiting => ?_) honest turn fun hafter hminds => ?_
      · obtain ⟨command, step, horigin⟩ := hsound.asked .root found rfl number
          (by rw [Thread.due?_eq_some due, hwaiting]; rfl)
        exact ⟨shape, command, step, hstart, hgrows.cells _ _ horigin⟩
      · have hstored : Evolves noted after (after.setRoot strand status) := by
          refine hafter.placed.of_change (Shape.setRoot status.calm)
            (shape?_modifyStrand (fun _ => rfl) strand after) rfl fun shape hsome => ?_
          refine ⟨(hafter.placed.shapes strand shape hsome).setRoot ?_, shape.grows_setRoot _⟩
          cases status <;> exact hminds
        exact hstored.trans (evolves_close hstored.placed _ _)
  | child current number thread waiting isCancelled after status found child due turn =>
      have hshape : world.shape? strand = some current.shape := by rw [shape?, found]; rfl
      have hchild : current.shape.children[number]? = some thread.calm := by
        rw [Strand.shape, List.getElem?_map, child, Option.map_some]
      obtain ⟨execution, command, caller, index, hcell, hstep, horigin, hthread⟩ :=
        (hplaced.shapes strand _ hshape).children number _ hchild
      have hbegun : Evolves noted world (world.modifyThread strand (.child number) Thread.begin) := by
        refine hplaced.of_change (Shape.setChild number .running)
          (shape?_modifyStrand (Shape.shape_setChild number .running) strand world) rfl
          fun shape hsome => ?_
        exact ⟨(hplaced.shapes strand shape hsome).setChild fun _ _ _ _ _ _ _ _ => trivial,
          shape.grows_setChild _ _⟩
      obtain ⟨shape, hstart, hgrows⟩ := hbegun.grows strand _ hshape
      obtain ⟨begun, hbegin, hsame, hown⟩ := hgrows.children number _ hchild
      have hscope : (⟨strand, .child number, thread.step, thread.cell⟩ : Scope) =
          ⟨strand, .child number, some index, some execution⟩ := by
        rw [show thread.step = some index from hstep, show thread.cell = some execution from hcell]
      refine .of_turn hbegun (.execution shape hstart number begun execution command caller index
        hscope hbegin (hsame.trans hstep) (hown.trans hcell) (hgrows.cells _ _ horigin))
        (minds_of_due? hthread due) (fun other rest hwaiting => ?_) honest turn
        fun hafter hminds => ?_
      · obtain ⟨command, step, horigin⟩ := hsound.asked (.child number) found
          (by rw [Strand.posture?, child, Option.map_some]) other
          (by rw [Thread.due?_eq_some due, hwaiting]; rfl)
        exact ⟨shape, command, step, hstart, hgrows.cells _ _ horigin⟩
      · have hstored : Evolves noted after (after.setChild strand number status) := by
          refine hafter.placed.of_change (Shape.setChild number status.calm)
            (shape?_modifyStrand (Shape.shape_setChild number status) strand after) rfl
            fun later hsome => ?_
          obtain ⟨found, hfound, hmore⟩ := hafter.grows strand _ hstart
          obtain rfl : later = found := Option.some.inj (hsome.symm.trans hfound)
          obtain ⟨ended, hended, -, hkept⟩ := hmore.children number _ hbegin
          refine ⟨(hafter.placed.shapes strand later hsome).setChild
            fun other place name asker own hother hplace hname => ?_, later.grows_setChild _ _⟩
          obtain rfl := Option.some.inj (hended.symm.trans hother)
          obtain rfl := Option.some.inj ((hkept.trans (hown.trans hcell)).symm.trans hplace)
          have hold := hmore.cells _ _ (hgrows.cells _ _ horigin)
          obtain ⟨rfl, rfl, hindex⟩ := Prod.mk.inj (Option.some.inj (hold.symm.trans hname)) |>.imp
            id Prod.mk.inj
          obtain rfl := Option.some.inj hindex
          cases status <;> exact hminds
        exact hstored.trans (evolves_close hstored.placed _ _)

theorem Does.keeping (h : world.Does acts next) (hplaced : world.Placed noted)
    (hsound : world.Sound) (honest : ∀ act ∈ acts, act.IsHonest noted) :
    Keeping noted world next acts := by
  have hsame : SameShape world next → acts = [] → Keeping noted world next acts := by
    rintro hshape rfl
    exact .of_evolves (hplaced.of_sameShape hshape h.tells.surroundings)
  cases h with
  | perform before after job hqueue =>
      let taken : World α := { world with queue := before ++ after }
      have htaken : SameShape world taken := .of_strands_eq rfl
      cases job with
      | resume strand thread =>
          have hstart : Evolves noted world taken := hplaced.of_sameShape htaken rfl
          have hresumed := (taken.resumes strand thread).keeping hstart.placed
            (hsound.congr (fun _ _ => rfl) (fun _ _ => rfl) (fun _ _ => rfl) fun _ _ => rfl) honest
          exact (Keeping.of_evolves hstart).trans hresumed
      | fire strand goal => exact hsame (htaken.trans (sameShape_fire strand goal taken)) rfl
      | deliver strand child => exact hsame (htaken.trans (sameShape_deliver strand child taken)) rfl
      | announce | supervise => exact hsame htaken rfl
  | advance _ hnext =>
      obtain ⟨due, -, heq⟩ := Option.bind_eq_some_iff.mp hnext
      obtain rfl := Option.some.inj heq
      exact hsame (.of_strands_eq rfl) rfl
  | cancel strand => exact hsame (sameShape_cancel strand .root world) rfl
  | print item => exact hsame (.of_strands_eq rfl) rfl
  | notify => exact hsame (.of_strands_eq rfl) rfl

theorem Course.keeping (h : Course first acts last) (hplaced : first.Placed noted)
    (hlawful : first.Lawful) (honest : ∀ act ∈ acts, act.IsHonest noted) :
    Keeping noted first last acts := by
  induction h with
  | start => exact .of_evolves (.refl hplaced)
  | step h does ih =>
      have hbefore := ih fun act hmem => honest act (List.mem_append_left _ hmem)
      exact hbefore.trans (does.keeping hbefore.evolves.placed
        (hlawful.reaches h.reaches).sound fun act hmem =>
          honest act (List.mem_append_right _ hmem))

end World

end Cascade
