import Cascade.Proofs.Batch.Abort
import Cascade.Proofs.Trace.History
import Cascade.Proofs.Trace.Rousing

/-!
How far a cancellation comes. When the chains of a batch are given up, the cancellation goes down from
the thread of a chain to the threads that it waits for, by one of them at each turn. Whoever still waits
when it comes to him ends by it: he does nothing more, and what he waited for is never resolved.
-/

namespace Cascade

namespace World

open Past

variable {α : Type} {world : World α} {place number child : Nat} {thread : ThreadId} {cell : Option Nat}

/-- A thread waits for the end of another one. -/
def Awaits (world : World α) (place : Nat) (thread other : ThreadId) : Prop :=
  ∃ number child, world.posture? place thread = some (.waits (some number) .asleep) ∧
    world.link? place number = some child ∧ other = .child child

/-- The thread whose end a thread waits for. -/
def awaited? (world : World α) (place : Nat) (thread : ThreadId) : Option ThreadId :=
  match world.posture? place thread with
  | some (.waits (some number) .asleep) => (world.link? place number).map .child
  | _ => none

theorem awaits_iff {other : ThreadId} :
    world.Awaits place thread other ↔ world.awaited? place thread = some other := by
  constructor
  · rintro ⟨number, child, hasleep, hlink, rfl⟩
    simp only [awaited?, hasleep, hlink, Option.map_some]
  · intro h
    rw [awaited?] at h
    split at h
    · rename_i number hasleep
      obtain ⟨child, hlink, rfl⟩ := Option.map_eq_some_iff.mp h
      exact ⟨number, child, hasleep, hlink, rfl⟩
    · cases h

instance (other : ThreadId) : Decidable (world.Awaits place thread other) :=
  decidable_of_iff' _ awaits_iff

/-! ### An execution that is waited for -/

theorem Sound.unresolved_of_asleep (h : world.Sound)
    (hasleep : world.posture? place thread = some (.waits (some number) .asleep)) :
    ∃ found, world.cell? place number = some found ∧ found.caller = thread ∧
      Accounts found.command (world.past place number) .pending := by
  obtain ⟨found, hfound, rfl, hopen⟩ := h.awaited place thread number _ hasleep
  have hattends := h.attended place number found hfound hopen
  rw [hasleep] at hattends
  have haccounts := h.accounts place number found hfound
  rw [hattends.2] at haccounts
  exact ⟨found, hfound, rfl, haccounts⟩

theorem Sound.dropped_of_adds {after : World α} (h : world.Sound) (hafter : after.Sound)
    (hkeeps : Keeps world after)
    (hadds : Adds Occurrence.ResolvesNothing world after)
    (hasleep : world.posture? place thread = some (.waits (some number) .asleep))
    (hcancelled : after.posture? place thread = some (.waits (some number) .cancelled)) :
    ∃ found, after.cell? place number = some found ∧ found.state = .dropped := by
  obtain ⟨before, hbefore, -, hpending⟩ := h.unresolved_of_asleep hasleep
  obtain ⟨found, hfound, rfl, hopen⟩ := hafter.awaited place thread number _ hcancelled
  have hattends := hafter.attended place number found hfound hopen
  rw [hcancelled] at hattends
  have haccounts := hafter.accounts place number found hfound
  obtain ⟨later, hlater, horigin⟩ := hkeeps.cell place number before hbefore
  obtain rfl := Option.some.inj (hlater.symm.trans hfound)
  have hcommand : later.command = before.command := congrArg Prod.fst horigin
  obtain ⟨added, hpast, hadded⟩ := hadds.past place number
  have hnone : attempts later.command (after.past place number) = [] := by
    rw [hpast, hcommand]
    clear hpast
    induction added with
    | nil => exact hpending.1
    | cons happening rest ih =>
        obtain ⟨⟨occurrence, hall, hhappening⟩, hrest⟩ := List.forall_mem_cons.mp hadded
        obtain rfl := hall.eq_dropped hhappening
        exact ih hrest
  refine ⟨later, hfound, ?_⟩
  cases hstate : later.state with
  | pending => exact absurd hstate hattends.2
  | dropped => rfl
  | settled outcome =>
      rw [hstate] at haccounts
      have hlast := haccounts.1
      rw [hnone] at hlast
      cases hlast

theorem settle_of_dropped {found : Cell} (hfound : world.cell? place number = some found)
    (hdropped : found.state = .dropped) (happening : Happening) (outcome : Outcome) :
    world.settle place number happening outcome =
      world.tell place number found.command happening := by
  simp only [settle, hfound, hdropped]

/-! ### Jobs one after the other -/

/-- Successive states of a run in which only the jobs that are ready are done. -/
structure Dispatch (state : Nat → World α) : Prop where
  next : ∀ time,
    (∃ job rest, (state time).queue = job :: rest ∧
      state (time + 1) = World.perform job { state time with queue := rest }) ∨
    (state time).queue = [] ∧ state (time + 1) = state time
  lawful : ∀ time, (state time).Lawful
  ready : ∀ time, (state time).Ready
  /-- A thread is cancelled only when its caller has ended by its own cancellation. -/
  spared : ∀ time place number child found cell,
    (state time).link? place number = some child → (state time).cell? place number = some found →
      (state time).posture? place (.child child) = some (.waits cell .cancelled) →
        (state time).posture? place found.caller = some (.finished true)

namespace Dispatch

variable {state : Nat → World α}

theorem eq_perform (h : Dispatch state) {time : Nat} {job : Job} {rest : List Job}
    (hqueue : (state time).queue = job :: rest) :
    state (time + 1) = World.perform job { state time with queue := rest } := by
  rcases h.next time with ⟨other, others, hother, hnext⟩ | ⟨hempty, -⟩
  · obtain ⟨rfl, rfl⟩ := List.cons.inj (hother.symm.trans hqueue)
    exact hnext
  · cases hempty.symm.trans hqueue

theorem queue (h : Dispatch state) {time : Nat} {job : Job} {rest : List Job}
    (hqueue : (state time).queue = job :: rest) :
    ∃ jobs, (state (time + 1)).queue = rest ++ jobs := by
  rw [h.eq_perform hqueue]
  exact queue_perform job { state time with queue := rest }

theorem turns (h : Dispatch state) {time : Nat} {posture : Posture}
    (hstands : (state time).posture? place thread = some posture) :
    (∃ job rest, (state time).queue = job :: rest ∧
      Turns job (state (time + 1)) place thread posture) ∨
    (state time).queue = [] ∧ state (time + 1) = state time := by
  rcases h.next time with ⟨job, rest, hqueue, hnext⟩ | hidle
  · refine .inl ⟨job, rest, hqueue, ?_⟩
    rw [hnext]
    exact turns_perform job hstands
  · exact .inr hidle

theorem cancelled_succ (h : Dispatch state) {time : Nat} {job : Job} {rest : List Job}
    (hqueue : (state time).queue = job :: rest) (hother : job ≠ .resume place thread)
    (hcancelled : (state time).posture? place thread = some (.waits cell .cancelled)) :
    (state (time + 1)).posture? place thread = some (.waits cell .cancelled) := by
  rcases h.turns hcancelled with ⟨first, others, hfirst, hturns⟩ | ⟨hempty, -⟩
  · obtain ⟨rfl, rfl⟩ := List.cons.inj (hfirst.symm.trans hqueue)
    rcases hturns with ⟨_, _, -, -, hjob⟩ | hstays | ⟨_, hwaits, -⟩ | hagain
    · exact absurd hjob hother
    · exact hstays
    · cases hwaits
    · exact hagain
  · cases hempty.symm.trans hqueue

theorem reaches (h : Dispatch state) {first last : Nat} (hle : first ≤ last) :
    (state first).Reaches (state last) := by
  induction hle with
  | refl => exact .refl
  | @step last _ ih =>
      rcases h.next last with ⟨job, rest, hqueue, hnext⟩ | ⟨-, hsame⟩
      · refine ih.tail ?_
        rw [hnext]
        exact .perform [] rest job hqueue
      · rwa [hsame]

theorem link (h : Dispatch state) {first last : Nat} (hle : first ≤ last)
    (hlink : (state first).link? place number = some child) :
    (state last).link? place number = some child := by
  induction hle with
  | refl => exact hlink
  | @step last _ ih =>
      rcases h.next last with ⟨job, rest, -, hnext⟩ | ⟨-, hsame⟩
      · rw [hnext]
        exact link?_perform job ih
      · rwa [hsame]

theorem finished (h : Dispatch state) {first last : Nat} (hle : first ≤ last)
    (hfinished : (state first).posture? place thread = some (.finished true)) :
    (state last).posture? place thread = some (.finished true) := by
  induction hle with
  | refl => exact hfinished
  | @step last _ ih =>
      rcases h.turns ih with ⟨job, rest, -, hturns⟩ | ⟨-, hsame⟩
      · rcases hturns with ⟨_, _, hwaits, -, -⟩ | hstays | ⟨_, hwaits, -⟩ | hcancelled
        · cases hwaits
        · exact hstays
        · cases hwaits
        · exact hcancelled
      · rwa [hsame]

theorem dropped (h : Dispatch state) {first last : Nat} (hle : first ≤ last) {found : Cell}
    (hfound : (state first).cell? place number = some found) (hdropped : found.state = .dropped) :
    ∃ later, (state last).cell? place number = some later ∧ later.state = .dropped := by
  have hreaches := h.reaches hle
  obtain ⟨later, hlater, -⟩ := hreaches.keeps.cell place number found hfound
  obtain ⟨added, hpast, -⟩ := hreaches.adds.past place number
  have hmem := ((h.lawful first).sound.accounts place number found hfound).dropped_mem_iff.mpr
    hdropped
  refine ⟨later, hlater, ((h.lawful last).sound.accounts place number later
    hlater).dropped_mem_iff.mp ?_⟩
  rw [hpast]
  exact List.mem_append_right _ hmem

theorem exists_turn (h : Dispatch state) {first : Nat}
    (hcancelled : (state first).posture? place thread = some (.waits cell .cancelled)) :
    ∃ last ≥ first, (∀ time, first ≤ time → time ≤ last →
        (state time).posture? place thread = some (.waits cell .cancelled)) ∧
      ∃ rest, (state last).queue = .resume place thread :: rest := by
  have hmem := h.ready first place thread ⟨cell, .cancelled, hcancelled, fun h => by cases h⟩
  obtain ⟨before, after, hqueue⟩ := List.append_of_mem hmem
  clear hmem
  -- Each job before it is done, and others only come after it.
  induction before generalizing first after with
  | nil =>
      refine ⟨first, Nat.le_refl first, fun time hfirst hlast => ?_, after, hqueue⟩
      obtain rfl := Nat.le_antisymm hlast hfirst
      exact hcancelled
  | cons job before ih =>
      by_cases hown : job = .resume place thread
      · refine ⟨first, Nat.le_refl first, fun time hfirst hlast => ?_, _, hown ▸ hqueue⟩
        obtain rfl := Nat.le_antisymm hlast hfirst
        exact hcancelled
      · obtain ⟨jobs, hjobs⟩ := h.queue hqueue
        obtain ⟨last, hlast, hwaits, hturn⟩ := ih (h.cancelled_succ hqueue hown hcancelled)
          (after ++ jobs) (hjobs.trans (List.append_assoc ..))
        refine ⟨last, Nat.le_of_succ_le hlast, fun time hfirst hle => ?_, hturn⟩
        rcases Nat.eq_or_lt_of_le hfirst with rfl | hlt
        · exact hcancelled
        · exact hwaits time hlt hle

end Dispatch

/-! ### Coming down -/

/-- The wait of a thread has ended before the cancellation comes to it, or it does not wait at all. -/
def GoesOn (state : Nat → World α) (place : Nat) (thread : ThreadId) : Prop :=
  ∃ time, (∀ earlier < time, ∃ cell,
      (state earlier).posture? place thread = some (.waits cell .asleep)) ∧
    ∀ cell wake, (state time).posture? place thread = some (.waits cell wake) → wake = .woken

/-- The cancellation comes to a thread while it waits, and the thread ends by it. -/
structure Unwinds (state : Nat → World α) (place : Nat) (thread : ThreadId) (cell : Option Nat)
    (reached last : Nat) : Prop where
  order : reached ≤ last
  /-- It waits until the cancellation comes. -/
  waits : ∀ time < reached, (state time).posture? place thread = some (.waits cell .asleep)
  /-- Then it is cancelled, and has to wait for its turn. -/
  cancelled : ∀ time, reached ≤ time → time ≤ last →
    (state time).posture? place thread = some (.waits cell .cancelled)
  /-- At its turn it ends by the cancellation. -/
  ended : ∀ time > last, (state time).posture? place thread = some (.finished true)
  /-- Its code does nothing more, but it may leave a notice. -/
  silent : ∀ time, ∃ notice : Option Item, ∃ step, (state time).doneBy place thread =
    (notice.map fun item => ⟨some place, some thread, step, .item item⟩).toList ++
      (state 0).doneBy place thread
  /-- The execution that it waited for is neither reported nor said to be complete again. -/
  unresolved : ∀ number, cell = some number → ∀ time,
    yields ((state time).past place number) = [] ∧ ignored ((state time).past place number) = []
  /-- A completion of it that comes later changes nothing, and only the fact is recorded. -/
  late : ∀ number, cell = some number → ∀ time ≥ reached, ∃ command, ∀ happening outcome,
    (state time).settle place number happening outcome =
      (state time).tell place number command happening

/-- At the beginning it waits, or it is cancelled. -/
theorem Unwinds.start {state : Nat → World α} {reached last : Nat}
    (h : Unwinds state place thread cell reached last) :
    ∃ wake, (state 0).posture? place thread = some (.waits cell wake) := by
  rcases Nat.eq_zero_or_pos reached with hzero | hpos
  · exact ⟨_, h.cancelled 0 (Nat.le_of_eq hzero) (Nat.zero_le last)⟩
  · exact ⟨_, h.waits 0 hpos⟩

theorem not_goesOn_of_cancelled {state : Nat → World α} {reached : Nat}
    (hwaits : ∀ time < reached, (state time).posture? place thread = some (.waits cell .asleep))
    (hcancelled : (state reached).posture? place thread = some (.waits cell .cancelled)) :
    ¬ GoesOn state place thread := by
  rintro ⟨time, hbefore, hawake⟩
  rcases Nat.lt_trichotomy time reached with hlt | rfl | hgt
  · cases hawake _ _ (hwaits time hlt)
  · cases hawake _ _ hcancelled
  · obtain ⟨other, hasleep⟩ := hbefore reached hgt
    cases hasleep.symm.trans hcancelled

namespace Dispatch

variable {state : Nat → World α}

theorem doneBy_succ (h : Dispatch state) {time : Nat} {posture : Posture}
    (hstands : (state time).posture? place thread = some posture)
    (hwoken : ∀ cell, posture ≠ .waits cell .woken)
    (hends : ∀ cell, posture = .waits cell .cancelled →
      (state (time + 1)).posture? place thread ≠ some (.finished true)) :
    (state (time + 1)).doneBy place thread = (state time).doneBy place thread := by
  rcases h.next time with ⟨job, rest, -, hnext⟩ | ⟨-, hsame⟩
  · by_cases hown : job = .resume place thread
    · subst hown
      rcases World.resume_cases place thread { state time with queue := rest } with ⟨hsame, -⟩ |
        ⟨β, step, own, waiting, isCancelled, after, status, hwaits, -, -⟩
      · rw [hnext, perform, hsame]
        rfl
      · obtain rfl := Option.some.inj (hstands.symm.trans hwaits)
        cases isCancelled with
        | false => exact absurd rfl (hwoken _)
        | true =>
            refine absurd ?_ (hends _ rfl)
            rw [hnext]
            exact posture?_resume_of_cancelled hwaits
    · rw [hnext]
      exact doneBy_perform hown { state time with queue := rest }
  · rw [hsame]

theorem unwinds (h : Dispatch state) {reached : Nat}
    (hwaits : ∀ time < reached, (state time).posture? place thread = some (.waits cell .asleep))
    (hcancelled : (state reached).posture? place thread = some (.waits cell .cancelled))
    (hdropped : ∀ number, cell = some number → ∃ found,
      (state reached).cell? place number = some found ∧ found.state = .dropped) :
    ∃ last, Unwinds state place thread cell reached last := by
  obtain ⟨last, horder, hstill, rest, hqueue⟩ := h.exists_turn hcancelled
  have hnext := h.eq_perform hqueue
  have hturn : World.posture? { state last with queue := rest } place thread =
      some (.waits cell .cancelled) := hstill last horder (Nat.le_refl last)
  have hends : ∀ time > last, (state time).posture? place thread = some (.finished true) := by
    intro time hlt
    refine h.finished hlt ?_
    rw [hnext]
    exact posture?_resume_of_cancelled hturn
  have hbefore : ∀ time ≤ last, (state time).doneBy place thread = (state 0).doneBy place thread := by
    intro time hle
    induction time with
    | zero => rfl
    | succ time ih =>
        refine Eq.trans ?_ (ih (Nat.le_of_succ_le hle))
        rcases Nat.lt_or_ge time reached with hlt | hge
        · exact h.doneBy_succ (hwaits time hlt) (fun _ h => by cases h) fun _ h => by cases h
        · refine h.doneBy_succ (hstill time hge (Nat.le_of_succ_le hle)) (fun _ h => by cases h)
            fun _ _ hfinished => ?_
          cases (hstill (time + 1) (Nat.le_succ_of_le hge) hle).symm.trans hfinished
  have hafter : ∀ time > last, (state time).doneBy place thread = (state (last + 1)).doneBy place thread := by
    intro time hlt
    induction hlt with
    | refl => rfl
    | @step time hlt ih =>
        exact (h.doneBy_succ (hends time hlt) (fun _ h => by cases h) fun _ h => by cases h).trans ih
  have hgone : ∀ number, cell = some number → ∀ time ≥ reached, ∃ found,
      (state time).cell? place number = some found ∧ found.state = .dropped := by
    intro number hcell time hle
    obtain ⟨found, hfound, hstate⟩ := hdropped number hcell
    exact h.dropped hle hfound hstate
  refine ⟨last, horder, hwaits, hstill, hends, fun time => ?_, fun number hcell time => ?_,
    fun number hcell time hle => ?_⟩
  · rcases Nat.lt_or_ge last time with hlt | hle
    · obtain ⟨notice, step, hnotice⟩ := doneBy_resume_of_cancelled hturn
      refine ⟨notice, step, ?_⟩
      rw [hafter time hlt, hnext]
      exact hnotice.trans (congrArg _ (hbefore last (Nat.le_refl last)))
    · exact ⟨none, none, hbefore time hle⟩
  · rcases Nat.lt_or_ge time reached with hlt | hge
    · obtain ⟨found, -, -, -, hignored, hyields, -⟩ :=
        (h.lawful time).sound.unresolved_of_asleep (hcell ▸ hwaits time hlt)
      exact ⟨hyields, hignored⟩
    · obtain ⟨found, hfound, hstate⟩ := hgone number hcell time hge
      have haccounts := (h.lawful time).sound.accounts place number found hfound
      rw [hstate] at haccounts
      exact ⟨haccounts.2.1, haccounts.1⟩
  · obtain ⟨found, hfound, hstate⟩ := hgone number hcell time hle
    exact ⟨found.command, settle_of_dropped hfound hstate⟩

theorem asleep_or_goesOn (h : Dispatch state) {found : Cell} {last : Nat}
    (hfound : (state 0).cell? place number = some found)
    (hlink : (state 0).link? place number = some child)
    (hcaller : ∀ time ≤ last, (state time).posture? place found.caller ≠ some (.finished true)) :
    GoesOn state place (.child child) ∨ ∃ cell, ∀ time ≤ last,
      (state time).posture? place (.child child) = some (.waits cell .asleep) := by
  have hspared : ∀ time ≤ last, ∀ cell,
      (state time).posture? place (.child child) ≠ some (.waits cell .cancelled) := by
    intro time hle cell hcancelled
    obtain ⟨later, hlater, horigin⟩ :=
      (h.reaches (Nat.zero_le time)).keeps.cell place number found hfound
    have hended := h.spared time place number child later cell (h.link (Nat.zero_le time) hlink)
      hlater hcancelled
    have hsame : later.caller = found.caller :=
      congrArg (fun origin => origin.2.1) horigin
    exact hcaller time hle (hsame ▸ hended)
  by_cases hstart : ∃ cell, (state 0).posture? place (.child child) = some (.waits cell .asleep)
  · obtain ⟨cell, hstart⟩ := hstart
    by_cases hgoes : GoesOn state place (.child child)
    · exact .inl hgoes
    · refine .inr ⟨cell, fun time => ?_⟩
      -- All waits so far are kept, since a wait has to end after them.
      induction time using Nat.strongRecOn with
      | ind time ih =>
          intro hle
          cases time with
          | zero => exact hstart
          | succ time =>
              have hasleep := ih time (Nat.lt_succ_self time) (Nat.le_of_succ_le hle)
              rcases h.turns hasleep with ⟨job, rest, -, hturns⟩ | ⟨-, hsame⟩
              · rcases hturns with ⟨_, _, hwaits, hawake, -⟩ | hstays | ⟨_, -, hwoken⟩ | hcancelled
                · exact absurd (Posture.waits.inj hwaits).2.symm hawake
                · exact hstays
                · refine absurd ⟨time + 1, fun earlier hlt => ?_, fun _ _ hwaits => ?_⟩ hgoes
                  · exact ⟨cell, ih earlier hlt (Nat.le_of_lt (Nat.lt_of_lt_of_le hlt hle))⟩
                  · exact (Posture.waits.inj (Option.some.inj (hwoken.symm.trans hwaits))).2.symm
                · exact absurd hcancelled (hspared (time + 1) hle cell)
              · rwa [hsame]
  · refine .inl ⟨0, fun _ hlt => absurd hlt (Nat.not_lt_zero _), fun cell wake hwaits => ?_⟩
    cases wake with
    | asleep => exact absurd ⟨cell, hwaits⟩ hstart
    | woken => rfl
    | cancelled => exact absurd hwaits (hspared 0 (Nat.zero_le last) cell)

theorem descends (h : Dispatch state) {reached last : Nat}
    (hunwinds : Unwinds state place thread (some number) reached last)
    (hlink : (state 0).link? place number = some child) :
    GoesOn state place (.child child) ∨
      ∃ cell first last, Unwinds state place (.child child) cell first last := by
  have hends : ∀ time ≤ last, (state time).posture? place thread ≠ some (.finished true) := by
    intro time hle hfinished
    rcases Nat.lt_or_ge time reached with hlt | hge
    · cases (hunwinds.waits time hlt).symm.trans hfinished
    · cases (hunwinds.cancelled time hge hle).symm.trans hfinished
  obtain ⟨found, hfound, hcaller⟩ : ∃ found, (state 0).cell? place number = some found ∧
      found.caller = thread := by
    obtain ⟨wake, hstart⟩ := hunwinds.start
    obtain ⟨found, hfound, hcaller, -⟩ := (h.lawful 0).sound.awaited place thread number wake hstart
    exact ⟨found, hfound, hcaller⟩
  rcases h.asleep_or_goesOn hfound hlink (hcaller.symm ▸ hends) with hgoes | ⟨cell, hwaits⟩
  · exact .inl hgoes
  right
  have hcancelled := hunwinds.cancelled last hunwinds.order (Nat.le_refl last)
  have hended := hunwinds.ended (last + 1) (Nat.lt_succ_self last)
  have hasleep := hwaits last (Nat.le_refl last)
  obtain ⟨rest, hqueue⟩ : ∃ rest, (state last).queue = .resume place thread :: rest := by
    rcases h.turns hcancelled with ⟨job, rest, hqueue, hturns⟩ | ⟨-, hsame⟩
    · rcases hturns with ⟨_, _, -, -, rfl⟩ | hstays | ⟨_, hwaits, -⟩ | hagain
      · exact ⟨rest, hqueue⟩
      · cases hstays.symm.trans hended
      · cases hwaits
      · cases hagain.symm.trans hended
    · cases (hsame ▸ hcancelled).symm.trans hended
  have hnext := h.eq_perform hqueue
  have hturn : World.posture? { state last with queue := rest } place thread =
      some (.waits (some number) .cancelled) := hcancelled
  have hne : thread ≠ .child child := by
    rintro rfl
    cases hasleep.symm.trans hcancelled
  have hreached : (state (last + 1)).posture? place (.child child) =
      some (.waits cell .cancelled) := by
    rw [hnext]
    exact posture?_awaited_of_cancelled hturn (h.link (Nat.zero_le last) hlink) hne hasleep
  have hbefore : ∀ time < last + 1,
      (state time).posture? place (.child child) = some (.waits cell .asleep) :=
    fun time hlt => hwaits time (Nat.le_of_lt_succ hlt)
  obtain ⟨final, hfinal⟩ := h.unwinds hbefore hreached fun execution hcell => by
    subst hcell
    refine (h.lawful last).sound.dropped_of_adds (h.lawful (last + 1)).sound
      (h.reaches (Nat.le_succ last)).keeps ?_ hasleep hreached
    rw [hnext]
    exact adds_resume_of_cancelled hturn
  exact ⟨cell, last + 1, final, hfinal⟩

theorem reaches_down (h : Dispatch state) {reached last : Nat}
    (hroot : Unwinds state place .root (some number) reached last)
    {world : World α} (hwaits : world.posture? place .root = some (.waits (some number) .asleep))
    (hlinks : ∀ number child, world.link? place number = some child →
      (state 0).link? place number = some child)
    (hchildren : ∀ child cell, world.posture? place (.child child) = some (.waits cell .asleep) →
      (state 0).posture? place (.child child) = some (.waits cell .asleep))
    (hpath : Relation.ReflTransGen (world.Awaits place) .root thread) :
    (∃ other, Relation.ReflTransGen (world.Awaits place) .root other ∧
      Relation.ReflTransGen (world.Awaits place) other thread ∧ GoesOn state place other) ∨
    ∃ cell reached last, Unwinds state place thread cell reached last := by
  induction hpath with
  | refl => exact .inr ⟨some number, reached, last, hroot⟩
  | @tail before after hbefore hawaits ih =>
      rcases ih with ⟨other, hfrom, hto, hgoes⟩ | ⟨cell, first, final, hunwinds⟩
      · exact .inl ⟨other, hfrom, hto.tail hawaits, hgoes⟩
      · obtain ⟨execution, child, hasleep, hlink, rfl⟩ := hawaits
        obtain ⟨wake, hstart⟩ := hunwinds.start
        have hcell : cell = some execution := by
          cases before with
          | root =>
              obtain ⟨other, hother⟩ := hroot.start
              have hsame := (Posture.waits.inj (Option.some.inj (hasleep.symm.trans hwaits))).1
              exact (Posture.waits.inj (Option.some.inj (hstart.symm.trans hother))).1.trans hsame.symm
          | child own =>
              have hstill := hchildren own (some execution) hasleep
              exact (Posture.waits.inj (Option.some.inj (hstart.symm.trans hstill))).1
        subst hcell
        rcases h.descends hunwinds (hlinks execution child hlink) with hgoes | hends
        · exact .inl ⟨.child child, hbefore.tail ⟨execution, child, hasleep, hlink, rfl⟩, .refl, hgoes⟩
        · exact .inr hends

end Dispatch

end World

end Cascade
