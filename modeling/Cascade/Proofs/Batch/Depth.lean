import Cascade.Proofs.Batch.Descent
import Cascade.Proofs.Trace.Known

/-!
Chains that are given up. The supervisor watches every chain that has not ended, so it gives up each of
them when it stops watching, and the cancellation comes down to whatever the chain waits for.
-/

namespace Cascade

namespace World

variable {α : Type}

theorem exists_waits_of_perform {world : World α} {job : Job} {place : Nat} {cell : Option Nat}
    {wake : Wake} (h : (world.perform job).posture? place .root = some (.waits cell wake)) :
    ∃ cell wake, world.posture? place .root = some (.waits cell wake) := by
  have hroot : ∀ {other : World α} {posture : Posture}, other.posture? place .root = some posture →
      place < other.strands.length := by
    intro other posture hposture
    obtain ⟨strand, hstrand, -⟩ := Option.bind_eq_some_iff.mp hposture
    exact (List.getElem?_eq_some_iff.mp hstrand).1
  have hplace : place < world.strands.length := length_perform job world ▸ hroot h
  have hposture : world.posture? place .root = some world.strands[place].root.posture := by
    rw [posture?, strand?, List.getElem?_eq_getElem hplace]
    rfl
  cases hstands : world.strands[place].root.posture with
  | waits cell wake => exact ⟨cell, wake, hposture.trans (congrArg some hstands)⟩
  | _ =>
      rw [hstands] at hposture
      rcases turns_perform job hposture with ⟨_, _, hwaits, -, -⟩ | hstays | ⟨_, hwaits, -⟩ | hcancelled
      · cases hwaits
      · cases hstays.symm.trans h
      · cases hwaits
      · cases hcancelled.symm.trans h

theorem posture?_of_strands_eq {world after : World α} (h : after.strands = world.strands) (place : Nat)
    (thread : ThreadId) : after.posture? place thread = world.posture? place thread := by
  rw [posture?, strand?, h, posture?, strand?]

end World

namespace Batch

variable {batch next : Batch} {pending : List Nat} {notified : Bool} {place : Nat}

/-! ### Watching -/

/-- The supervisor watches every chain whose thread waits. -/
def Heeds (batch : Batch) : Prop :=
  ∀ pending notified, batch.supervision = .watching pending notified →
    ∀ place cell wake, batch.world.posture? place .root = some (.waits cell wake) → place ∈ pending

theorem result?_of_waits {world : World ChainResult} {cell : Option Nat} {wake : Wake}
    (h : world.posture? place .root = some (.waits cell wake)) : result? world place = none := by
  obtain ⟨strand, hstrand, hroot⟩ := Option.bind_eq_some_iff.mp h
  have hposture : strand.root.status.posture = .waits cell wake := Option.some.inj hroot
  rw [result?, hstrand]
  change strand.root.result? = none
  rw [Thread.result?]
  cases hstatus : strand.root.status with
  | finished result =>
      rw [hstatus] at hposture
      cases result <;> cases hposture
  | _ => rfl

def unfinished (world : World ChainResult) (pending : List Nat) : List Nat :=
  pending.filter fun strand => !(result? world strand).isSome

theorem mem_unfinished {world : World ChainResult} {cell : Option Nat} {wake : Wake}
    (hmem : place ∈ pending) (hwaits : world.posture? place .root = some (.waits cell wake)) :
    place ∈ unfinished world pending := by
  refine List.mem_filter.mpr ⟨hmem, ?_⟩
  rw [result?_of_waits hwaits]
  rfl

theorem supervise_cases (batch : Batch) (pending : List Nat) :
    batch.supervise pending =
        { batch with supervision := .watching (unfinished batch.world pending) false } ∨
      (unfinished batch.world pending = [] ∧ batch.supervise pending = batch.conclude batch.world) ∨
      ∃ fault, (batch.supervise pending).supervision = .ended (.error fault) ∧
        ((batch.supervise pending).world = abandon (unfinished batch.world pending) batch.world ∨
          (batch.supervise pending).world =
            dumpErrors (abandon (unfinished batch.world pending) batch.world)) := by
  have hrest : (pending.partition fun strand => (result? batch.world strand).isSome).2 =
      unfinished batch.world pending := by
    rw [List.partition_eq_filter_filter]
    rfl
  simp only [supervise, hrest]
  split
  · exact .inr (.inr ⟨_, rfl, .inl rfl⟩)
  · split
    · exact .inr (.inr ⟨_, rfl, .inr rfl⟩)
    · split
      · rename_i hempty
        exact .inr (.inl ⟨List.isEmpty_iff.mp hempty, rfl⟩)
      · exact .inl rfl
  · split
    · rename_i hempty
      exact .inr (.inl ⟨List.isEmpty_iff.mp hempty, rfl⟩)
    · exact .inl rfl

/-- A step of a batch that is watched. -/
inductive Watching (batch next : Batch) (pending : List Nat) (notified : Bool) : Prop
  /-- A job is done, or time goes on. -/
  | on (other : Bool) (supervision : next.supervision = .watching pending other)
      (waits : ∀ place cell wake, next.world.posture? place .root = some (.waits cell wake) →
        ∃ cell wake, batch.world.posture? place .root = some (.waits cell wake))
  /-- The supervisor looks. -/
  | looks (world : World ChainResult) (strands : world.strands = batch.world.strands)
      (record : world.record = batch.world.record)
      (next : next = Batch.supervise { batch with world := world } pending)
  /-- Nothing can happen any more. -/
  | stalls (next : next = { batch with world := abandon pending batch.world, supervision := .stalled })

theorem watching_of_step (hwatching : batch.supervision = .watching pending notified)
    (hstep : batch.step? = some next) : Watching batch next pending notified := by
  rw [step?] at hstep
  cases htake : batch.world.takeJob? with
  | some taken =>
      obtain ⟨job, rest⟩ := taken
      obtain ⟨-, hrest⟩ := eq_of_takeJob? htake
      have hstrands : rest.strands = batch.world.strands := by rw [hrest]
      have hrecord : rest.record = batch.world.record := by rw [hrest]
      rw [htake] at hstep
      obtain rfl := Option.some.inj hstep
      have hdone : ∀ place cell wake,
          (rest.perform job).posture? place .root = some (.waits cell wake) →
            ∃ cell wake, batch.world.posture? place .root = some (.waits cell wake) := by
        intro place cell wake hwaits
        obtain ⟨before, mark, hbefore⟩ := World.exists_waits_of_perform hwaits
        exact ⟨before, mark, (World.posture?_of_strands_eq hstrands place .root).symm.trans hbefore⟩
      have htaken : ∀ (world : World ChainResult) (place : Nat) (cell : Option Nat) (wake : Wake),
          world.strands = batch.world.strands →
            world.posture? place .root = some (.waits cell wake) →
              ∃ cell wake, batch.world.posture? place .root = some (.waits cell wake) :=
        fun world place cell wake hsame hwaits =>
          ⟨cell, wake, (World.posture?_of_strands_eq hsame place .root).symm.trans hwaits⟩
      rw [Batch.perform.eq_def]
      split
      · rename_i strand others hothers
        obtain ⟨rfl, rfl⟩ := Supervision.watching.inj (hwatching.symm.trans hothers)
        split
        · exact .on true rfl fun place cell wake => htaken (rest.enqueue .supervise) place cell wake hstrands
        · exact .on false hwatching fun place cell wake => htaken rest place cell wake hstrands
      · rename_i others mark hothers
        obtain ⟨rfl, -⟩ := Supervision.watching.inj (hwatching.symm.trans hothers)
        exact .looks rest hstrands hrecord rfl
      · exact .on notified hwatching hdone
  | none =>
      rw [htake, hwatching] at hstep
      dsimp only at hstep
      split at hstep
      · rename_i world hadvance
        obtain rfl := Option.some.inj hstep
        refine .on notified rfl fun place cell wake hwaits => ?_
        obtain ⟨due, -, heq⟩ := Option.bind_eq_some_iff.mp hadvance
        obtain rfl := Option.some.inj heq
        exact ⟨cell, wake, hwaits⟩
      · exact .stalls (Option.some.inj hstep).symm

theorem Heeds.step (h : batch.Heeds) (hstep : batch.step? = some next) : next.Heeds := by
  intro others mark hothers place cell wake hwaits
  cases hsupervision : batch.supervision with
  | watching pending notified =>
      rcases watching_of_step hsupervision hstep with ⟨other, hother, hbefore⟩ |
        ⟨world, hstrands, -, rfl⟩ | rfl
      · obtain ⟨rfl, -⟩ := Supervision.watching.inj (hother.symm.trans hothers)
        obtain ⟨_, _, hstill⟩ := hbefore place cell wake hwaits
        exact h pending notified hsupervision place _ _ hstill
      · rcases supervise_cases { batch with world := world } pending with hlooks | ⟨-, hends⟩ |
          ⟨fault, hends, -⟩
        · rw [hlooks] at hothers hwaits
          obtain ⟨rfl, -⟩ := Supervision.watching.inj hothers
          have hbefore := (World.posture?_of_strands_eq hstrands place .root).symm.trans hwaits
          exact mem_unfinished (h pending notified hsupervision place cell wake hbefore) hwaits
        · rw [hends] at hothers
          cases hothers
        · cases hends.symm.trans hothers
      · cases hothers
  | _ =>
      rw [step?_of_not_watching fun _ _ hwatching => by cases hsupervision.symm.trans hwatching]
        at hstep
      obtain ⟨taken, -, rfl⟩ := Option.map_eq_some_iff.mp hstep
      cases hsupervision.symm.trans hothers

theorem Heeds.start (surroundings : Surroundings) (exitOnError : Bool) (calls : Entries Nat)
    (chains : List Chain) : (Batch.start surroundings exitOnError calls chains).Heeds := by
  rw [Batch.start]
  split
  · intro _ _ hwatching
    cases hwatching
  · rintro _ _ ⟨⟩ place cell wake hwaits
    obtain ⟨strand, hstrand, -⟩ := Option.bind_eq_some_iff.mp hwaits
    have hplace := (List.getElem?_eq_some_iff.mp hstrand).1
    rw [World.start, List.length_map] at hplace
    exact List.mem_range.mpr hplace

theorem Heeds.settle (h : batch.Heeds) (steps : Nat) : (batch.settle steps).Heeds := by
  induction steps with
  | zero => exact h
  | succ steps ih =>
      rw [settle_succ]
      cases hstep : (batch.settle steps).step? with
      | none => exact ih
      | some next => exact ih.step hstep

/-! ### Giving up -/

theorem Heeds.gives_up (h : batch.Heeds) (hwatching : batch.supervision = .watching pending notified)
    (hstep : batch.step? = some next)
    (hends : ∀ pending notified, next.supervision ≠ .watching pending notified) {cell : Option Nat}
    {wake : Wake} (hwaits : batch.world.posture? place .root = some (.waits cell wake)) :
    ∃ strands world, place ∈ strands ∧ world.strands = batch.world.strands ∧
      world.record = batch.world.record ∧ next.world.strands = (abandon strands world).strands ∧
        World.Adds Occurrence.ResolvesNothing (abandon strands world) next.world := by
  have hmem := h pending notified hwatching place cell wake hwaits
  rcases watching_of_step hwatching hstep with ⟨other, hother, -⟩ |
    ⟨world, hstrands, hrecord, rfl⟩ | rfl
  · exact absurd hother (hends pending other)
  · have hplace := mem_unfinished hmem
      ((World.posture?_of_strands_eq hstrands place .root).trans hwaits)
    rcases supervise_cases { batch with world := world } pending with hlooks | ⟨hnone, -⟩ |
      ⟨fault, -, hworld | hworld⟩
    · exact absurd (congrArg Batch.supervision hlooks) (hends _ _)
    · rw [hnone] at hplace
      cases hplace
    · refine ⟨_, world, hplace, hstrands, hrecord, congrArg World.strands hworld, ?_⟩
      rw [hworld]
      exact .refl _
    · refine ⟨_, world, hplace, hstrands, hrecord, ?_, ?_⟩
      · rw [hworld, strands_dumpErrors]
      · rw [hworld]
        refine ⟨_, record_writeLines _ _, fun occurrence hmem => ?_⟩
        obtain ⟨line, -, rfl⟩ := List.mem_map.mp (List.mem_reverse.mp hmem)
        exact .item _ _ _ _
  · exact ⟨pending, batch.world, hmem, rfl, rfl, rfl, .refl _⟩

theorem posture?_child_abandon (strands : List Nat) (world : World ChainResult) (place child : Nat) :
    (abandon strands world).posture? place (.child child) = world.posture? place (.child child) := by
  induction strands generalizing world with
  | nil => rfl
  | cons strand rest ih =>
      refine (ih (world.cancel strand .root)).trans ?_
      rw [World.posture?_cancel, if_neg fun hboth => by cases hboth.2]

theorem link?_abandon (strands : List Nat) {world : World ChainResult} {place number child : Nat}
    (h : world.link? place number = some child) :
    (abandon strands world).link? place number = some child := by
  induction strands generalizing world with
  | nil => exact h
  | cons strand rest ih => exact ih (World.link?_cancel strand .root world h)

/-- What giving up a chain does to it while its thread waits for an execution. -/
structure GivesUp (place number : Nat) (world next : World ChainResult) : Prop where
  root : next.posture? place .root = some (.waits (some number) .cancelled)
  children : ∀ child, next.posture? place (.child child) = world.posture? place (.child child)
  links : ∀ execution child, world.link? place execution = some child →
    next.link? place execution = some child
  dropped : ∃ found, next.cell? place number = some found ∧ found.state = .dropped

theorem Heeds.givesUp (h : batch.Heeds) (hlawful : batch.world.Lawful)
    (hwatching : batch.supervision = .watching pending notified)
    (hstep : batch.step? = some next)
    (hends : ∀ pending notified, next.supervision ≠ .watching pending notified) {number : Nat}
    (hwaits : batch.world.posture? place .root = some (.waits (some number) .asleep)) :
    GivesUp place number batch.world next.world := by
  obtain ⟨strands, middle, hmem, hstrands, hrecord, hnext, hprints⟩ :=
    h.gives_up hwatching hstep hends hwaits
  have hposture : ∀ id, next.world.posture? place id = (abandon strands middle).posture? place id :=
    World.posture?_of_strands_eq hnext place
  have hsame : ∀ id, middle.posture? place id = batch.world.posture? place id :=
    World.posture?_of_strands_eq hstrands place
  have hroot : next.world.posture? place .root = some (.waits (some number) .cancelled) := by
    rw [hposture, posture?_abandon, if_pos hmem, hsame, hwaits]
    rfl
  have hadds : World.Adds Occurrence.ResolvesNothing batch.world next.world := by
    refine World.Adds.trans (.of_record_eq hrecord) (((adds_abandon strands middle).mono ?_).trans
      hprints)
    rintro occurrence ⟨strand, execution, command, rfl⟩
    exact .dropped strand execution command
  have hreaches := reaches_step? hstep
  refine ⟨hroot, fun child => ?_, fun execution child hlink => ?_, ?_⟩
  · rw [hposture, posture?_child_abandon, hsame]
  · have hmiddle : middle.link? place execution = some child := by
      rwa [World.link?, World.cell?, World.strand?, hstrands]
    have hafter := link?_abandon strands hmiddle
    rwa [World.link?, World.cell?, World.strand?, ← hnext] at hafter
  · exact hlawful.sound.dropped_of_adds (hlawful.reaches hreaches).sound hreaches.keeps hadds hwaits
      hroot

/-! ### Afterwards -/

section Afterwards

variable {surroundings : Surroundings} {exitOnError : Bool} {calls : Entries Nat}
  {chains : List Chain} {seen : Nat}

/-- The states of a batch after a step. -/
def after (batch : Batch) (seen time : Nat) : World ChainResult :=
  (batch.settle (seen + 1 + time)).world

theorem spared_of_cancelled (steps : Nat) {place number child : Nat} {found : Cell} {cell : Option Nat}
    (hlink : ((Batch.start surroundings exitOnError calls chains).settle steps).world.link? place
      number = some child)
    (hfound : ((Batch.start surroundings exitOnError calls chains).settle steps).world.cell? place
      number = some found)
    (hcancelled : ((Batch.start surroundings exitOnError calls chains).settle steps).world.posture?
      place (.child child) = some (.waits cell .cancelled)) :
    ((Batch.start surroundings exitOnError calls chains).settle steps).world.posture? place
      found.caller = some (.finished true) := by
  have hcourse : World.Course (World.startOf surroundings calls chains) _
      ((Batch.start surroundings exitOnError calls chains).settle steps).world :=
    World.course_of_start exitOnError steps
  have hrecounts := hcourse.recounts (.startOf ..) (.startOf ..)
  obtain ⟨other, hother, hchild⟩ := Option.bind_eq_some_iff.mp hlink
  obtain rfl := Option.some.inj (hother.symm.trans hfound)
  obtain ⟨shape, thread, hshape, hthread, hcell⟩ := hrecounts.adopted place number other child hfound hchild
  obtain ⟨execution, command, caller, hdescends⟩ := hrecounts.children place shape child thread hshape hthread
  obtain rfl := Option.some.inj (hcell.symm.trans hdescends.cell)
  have horigin := (World.getElem?_cells hshape hfound).symm.trans hdescends.origin
  have hcaller : other.caller = caller := congrArg (fun origin => origin.2.1) (Option.some.inj horigin)
  rcases hdescends.spared cell hcancelled with hnever | hended
  · exact hnever.elim
  · exact hcaller ▸ hended

theorem dispatch (hends : ¬ Watches (Batch.start surroundings exitOnError calls chains) (seen + 1)) :
    World.Dispatch ((Batch.start surroundings exitOnError calls chains).after seen) := by
  have hreaches : ∀ steps, (World.startOf surroundings calls chains).Reaches
      ((Batch.start surroundings exitOnError calls chains).settle steps).world :=
    fun steps => (World.course_of_start exitOnError steps).reaches
  refine ⟨fun time => ?_, fun time => ?_, fun time => ?_, fun time => ?_⟩
  · have hstopped : ∀ pending notified,
        ((Batch.start surroundings exitOnError calls chains).settle (seen + 1 + time)).supervision ≠
          .watching pending notified := by
      intro pending notified hwatching
      rw [supervision_settle_add (fun _ _ hsame => hends ⟨_, _, hsame⟩) rfl time] at hwatching
      exact hends ⟨pending, notified, hwatching⟩
    have hnext := settle_succ (seen + 1 + time) (Batch.start surroundings exitOnError calls chains)
    rw [step?_of_not_watching hstopped] at hnext
    cases htake :
        ((Batch.start surroundings exitOnError calls chains).settle (seen + 1 + time)).world.takeJob? with
    | none =>
        rw [htake] at hnext
        refine .inr ⟨?_, congrArg Batch.world hnext⟩
        rw [World.takeJob?.eq_def] at htake
        split at htake
        · assumption
        · cases htake
    | some taken =>
        obtain ⟨job, rest⟩ := taken
        obtain ⟨hqueue, hrest⟩ := eq_of_takeJob? htake
        rw [htake] at hnext
        refine .inl ⟨job, rest.queue, hqueue, (congrArg Batch.world hnext).trans ?_⟩
        exact congrArg (World.perform job) hrest
  · exact (World.Lawful.startOf ..).reaches (hreaches _)
  · refine World.Ready.reaches (World.Ready.start surroundings calls fun strand hmem => ?_)
      (hreaches (seen + 1 + time))
    obtain ⟨chain, -, rfl⟩ := List.mem_map.mp hmem
    rfl
  · intro place number child found cell
    exact spared_of_cancelled (seen + 1 + time)

theorem exists_step (hwatches : Watches batch seen) (hends : ¬ Watches batch (seen + 1)) :
    (batch.settle seen).step? = some (batch.settle (seen + 1)) := by
  have hnext := settle_succ seen batch
  cases hstep : (batch.settle seen).step? with
  | none =>
      rw [hstep] at hnext
      exact absurd (hwatches.imp fun _ h => h.imp fun _ h => (congrArg _ hnext).trans h) hends
  | some next =>
      rw [hstep] at hnext
      exact congrArg some hnext.symm

/-- When the supervisor stops watching while a chain waits for its current step, the cancellation comes
down to every thread that the chain waits for, over any number of others. A thread to which it comes
while it still waits ends by it and does nothing more, and what it waited for is never resolved. The only
ones that are spared are those below a thread whose own wait ends before. -/
theorem cancellation_comes_down {place number : Nat} {thread : ThreadId}
    (hwatches : Watches (Batch.start surroundings exitOnError calls chains) seen)
    (hends : ¬ Watches (Batch.start surroundings exitOnError calls chains) (seen + 1))
    (hwaits : ((Batch.start surroundings exitOnError calls chains).settle seen).world.posture? place
      .root = some (.waits (some number) .asleep))
    (hpath : Relation.ReflTransGen
      (((Batch.start surroundings exitOnError calls chains).settle seen).world.Awaits place)
        .root thread) :
    (∃ other, Relation.ReflTransGen
        (((Batch.start surroundings exitOnError calls chains).settle seen).world.Awaits place)
          .root other ∧
      Relation.ReflTransGen
        (((Batch.start surroundings exitOnError calls chains).settle seen).world.Awaits place)
          other thread ∧
      World.GoesOn ((Batch.start surroundings exitOnError calls chains).after seen) place other) ∨
    ∃ cell reached last,
      World.Unwinds ((Batch.start surroundings exitOnError calls chains).after seen) place thread cell
        reached last := by
  have hdispatch := dispatch hends
  have hheeds := (Heeds.start surroundings exitOnError calls chains).settle seen
  have hlawful : ((Batch.start surroundings exitOnError calls chains).settle seen).world.Lawful :=
    (World.course_of_start exitOnError seen).lawful
  have hstep := exists_step hwatches hends
  obtain ⟨pending, notified, hwatching⟩ := hwatches
  have hgives := hheeds.givesUp hlawful hwatching hstep
    (fun others mark hagain => hends ⟨others, mark, hagain⟩) hwaits
  obtain ⟨last, hunwinds⟩ := hdispatch.unwinds (fun time hlt => absurd hlt (Nat.not_lt_zero time))
    hgives.root fun execution hcell => Option.some.inj hcell ▸ hgives.dropped
  exact hdispatch.reaches_down hunwinds hwaits hgives.links
    (fun child cell hasleep => (hgives.children child).trans hasleep) hpath

end Afterwards

/-! ### Two batches -/

/-- A command that has another one executed and waits for it. -/
def relayCommand (name other : String) : Command where
  name := name
  help := ""
  group := ""
  hidden := false
  convention := .awaited
  accepts := fun _ => true
  initializer := none
  run := fun _ => .finish (.awaitable false
    (.invoke other (.form .absent) fun outcome => Routine.ofExcept outcome.unwrap))

/-- A command that gives a value at once. -/
def promptCommand : Command where
  name := "prompt"
  help := ""
  group := ""
  hidden := false
  convention := .direct
  accepts := fun _ => true
  initializer := none
  run := fun _ => .finish (.value .null)

/-- A command that never reports its end. -/
def idleCommand : Command where
  name := "idle"
  help := ""
  group := ""
  hidden := false
  convention := .callback
  accepts := fun _ => true
  initializer := none
  run := fun _ => .finish (.value .null)

/-- A command that fails, at once or after a second. -/
def failingCommand (name : String) (delay : Bool) : Command where
  name := name
  help := ""
  group := ""
  hidden := false
  convention := .awaited
  accepts := fun _ => true
  initializer := none
  run := fun _ =>
    if delay then .finish (.awaitable false (.sleep (.ofNat 1) none fun _ =>
      .fail (.raised .general none)))
    else .fail (.raised .general none)

/-- An engine with commands that have others executed, and with two that fail. -/
def stackedSurroundings : Surroundings :=
  ⟨⟨[relayCommand "outer" "middle", relayCommand "middle" "inner", relayCommand "inner" "idle",
    relayCommand "upper" "lower", relayCommand "lower" "prompt", idleCommand, promptCommand,
    failingCommand "bad" false, failingCommand "late" true], []⟩, false, "", false, .empty⟩

/-- A batch of two chains of that engine with exit-on-error. -/
def stackedBatch (tokens : List String) : Batch :=
  Batch.start stackedSurroundings true [] (Engine.chainsOf stackedSurroundings.registry tokens)

instance (batch : Batch) (steps : Nat) : Decidable (Watches batch steps) :=
  match hsupervision : (batch.settle steps).supervision with
  | .watching pending notified => isTrue ⟨pending, notified, hsupervision⟩
  | .ended _ => isFalse fun ⟨_, _, hwatching⟩ => by cases hsupervision.symm.trans hwatching
  | .stalled => isFalse fun ⟨_, _, hwatching⟩ => by cases hsupervision.symm.trans hwatching

/-- The wait of no thread below a chain ends before the cancellation comes to it, so all of them unwind,
and last the one that waits for a report. -/
theorem stackedBatch_unwinds :
    Watches (stackedBatch ["outer", "late"]) 12 ∧ ¬ Watches (stackedBatch ["outer", "late"]) 13 ∧
      ∃ cell reached last,
        World.Unwinds ((stackedBatch ["outer", "late"]).after 12) 0 (.child 2) cell reached last := by
  have hwatches : Watches (stackedBatch ["outer", "late"]) 12 := by decide +kernel
  have hends : ¬ Watches (stackedBatch ["outer", "late"]) 13 := by decide +kernel
  have hwaits : ((stackedBatch ["outer", "late"]).settle 12).world.posture? 0 .root =
      some (.waits (some 0) .asleep) := by decide +kernel
  have hlinks : ((stackedBatch ["outer", "late"]).settle 12).world.Awaits 0 .root (.child 0) ∧
      ((stackedBatch ["outer", "late"]).settle 12).world.Awaits 0 (.child 0) (.child 1) ∧
      ((stackedBatch ["outer", "late"]).settle 12).world.Awaits 0 (.child 1) (.child 2) := by
    decide +kernel
  have hpath := ((Relation.ReflTransGen.single hlinks.1).tail hlinks.2.1).tail hlinks.2.2
  refine ⟨hwatches, hends, (cancellation_comes_down hwatches hends hwaits hpath).resolve_left ?_⟩
  rintro ⟨other, hfrom, -, hgoes⟩
  -- the threads of the path, what they wait for, and when the cancellation comes to them
  have hcancelled : ∀ entry ∈ [(ThreadId.root, 0, 0), (.child 0, 1, 1), (.child 1, 2, 2),
      (.child 2, 3, 4)], (∀ time < entry.2.2,
        ((stackedBatch ["outer", "late"]).after 12 time).posture? 0 entry.1 =
          some (.waits (some entry.2.1) .asleep)) ∧
      ((stackedBatch ["outer", "late"]).after 12 entry.2.2).posture? 0 entry.1 =
        some (.waits (some entry.2.1) .cancelled) := by
    decide +kernel
  have hclosed : ∀ before ∈ [ThreadId.root, .child 0, .child 1, .child 2],
      ∀ next ∈ ((stackedBatch ["outer", "late"]).settle 12).world.awaited? 0 before,
        next ∈ [ThreadId.root, .child 0, .child 1, .child 2] := by
    decide +kernel
  have hmem : other ∈ [ThreadId.root, .child 0, .child 1, .child 2] := by
    clear hgoes
    induction hfrom with
    | refl => exact List.mem_cons_self
    | tail _ hawaits ih => exact hclosed _ ih _ (World.awaits_iff.mp hawaits)
  obtain ⟨entry, hentry, rfl⟩ := List.mem_map.mp (show other ∈ List.map Prod.fst
    [(ThreadId.root, 0, 0), (.child 0, 1, 1), (.child 1, 2, 2), (.child 2, 3, 4)] from hmem)
  exact World.not_goesOn_of_cancelled (hcancelled entry hentry).1 (hcancelled entry hentry).2 hgoes

/-- The second chain waits when the first one fails, and a thread below it is just about to start: before
the cancellation comes down to it, it has another command executed, gets its value and ends well. -/
theorem stackedBatch_starts_below :
    Watches (stackedBatch ["bad", "upper"]) 4 ∧ ¬ Watches (stackedBatch ["bad", "upper"]) 5 ∧
      ((stackedBatch ["bad", "upper"]).settle 4).world.posture? 1 .root =
        some (.waits (some 0) .asleep) ∧
      Relation.ReflTransGen (((stackedBatch ["bad", "upper"]).settle 4).world.Awaits 1) .root
        (.child 1) ∧
      (((stackedBatch ["bad", "upper"]).settle 5).world.cell? 1 2).isNone ∧
      (((stackedBatch ["bad", "upper"]).settle 6).world.cell? 1 2).map
        (fun cell => (cell.caller, cell.command.name)) = some (.child 1, "prompt") ∧
      (Past.yields (((stackedBatch ["bad", "upper"]).settle 6).world.past 1 2)).map
        Outcome.isSuccess = [true] ∧
      ((stackedBatch ["bad", "upper"]).settle 6).world.posture? 1 (.child 1) =
        some (.finished false) := by
  have hlinks : ((stackedBatch ["bad", "upper"]).settle 4).world.Awaits 1 .root (.child 0) ∧
      ((stackedBatch ["bad", "upper"]).settle 4).world.Awaits 1 (.child 0) (.child 1) := by
    decide +kernel
  exact ⟨by decide +kernel, by decide +kernel, by decide +kernel,
    (Relation.ReflTransGen.single hlinks.1).tail hlinks.2, by decide +kernel, by decide +kernel,
    by decide +kernel, by decide +kernel⟩

end Batch

end Cascade
