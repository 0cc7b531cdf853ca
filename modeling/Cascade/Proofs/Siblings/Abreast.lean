import Cascade.Proofs.Batch.Course
import Cascade.Proofs.Siblings.Alone

/-!
The chains of a batch that goes on after failures. Each of them goes the way that it goes alone, and the
supervisor disturbs none of them.
-/

namespace Cascade

namespace World

/-- What a later state of a strand alone has besides an earlier one. After its end the chain keeps its
result, and what is recorded then is not the doing of its own thread. -/
structure Extends (before after : World ChainResult) : Prop where
  record : ∃ added, after.record = added ++ before.record ∧
    ((Batch.result? before 0).isSome → ∀ occurrence ∈ added, occurrence.isMain = false)
  result : ∀ result, Batch.result? before 0 = some result → Batch.result? after 0 = some result

theorem Extends.refl (world : World ChainResult) : Extends world world :=
  ⟨⟨[], rfl, fun _ _ h => by cases h⟩, fun _ h => h⟩

theorem Extends.trans {before middle after : World ChainResult} (h : Extends before middle)
    (k : Extends middle after) : Extends before after := by
  obtain ⟨first, hfirst, hfirsts⟩ := h.record
  obtain ⟨second, hsecond, hseconds⟩ := k.record
  refine ⟨⟨second ++ first, by rw [hsecond, hfirst, List.append_assoc], fun hended => ?_⟩,
    fun result hresult => k.result result (h.result result hresult)⟩
  obtain ⟨result, hresult⟩ := Option.isSome_iff_exists.mp hended
  refine List.forall_mem_append.mpr ⟨hseconds ?_, hfirsts hended⟩
  rw [h.result result hresult]
  rfl

theorem adds_perform_of_result {world : World ChainResult} {place : Nat}
    (h : (Batch.result? world place).isSome) (job : Job) :
    Adds (fun occurrence => occurrence.strand = some place → occurrence.isMain = false) world
      (world.perform job) := by
  cases job with
  | resume strand thread =>
      cases thread with
      | child number => exact (within_resume ..).mono fun _ h _ => h.isMain_eq_false
      | root =>
          by_cases hsame : strand = place
          · subst hsame
            rcases world.resume_root_cases strand with heq |
              ⟨current, waiting, isCancelled, after, status, hstrand, hstatus, -, -⟩
            · exact .of_record_eq (congrArg World.record heq)
            · have hnone : Batch.result? world strand = none := by
                rw [Batch.result?, hstrand]
                change current.root.result? = none
                rw [Thread.result?, hstatus]
              rw [hnone] at h
              cases h
          · refine (within_resume ..).mono fun occurrence hwithin heq => ?_
            exact absurd (Option.some.inj (hwithin.1.symm.trans heq)) hsame
  | fire strand goal => exact (told_fire ..).mono fun _ h _ => h.isMain_eq_false
  | deliver strand child => exact (told_deliver ..).mono fun _ h _ => h.isMain_eq_false
  | announce | supervise => exact .refl world

theorem result?_view (place : Nat) (world : World ChainResult) :
    Batch.result? (world.view place) 0 = Batch.result? world place := by
  rw [Batch.result?, strand?_view, Batch.result?]

theorem extends_next? {lone next : World ChainResult} (hlone : lone.view 0 = lone)
    (h : lone.next? = some next) : Extends lone next ∧ next.view 0 = next := by
  rw [next?, takeJob?] at h
  cases hqueue : lone.queue with
  | nil =>
      rw [hqueue] at h
      obtain ⟨-, heq, -⟩ := advance?_eq_some h
      rw [heq]
      refine ⟨⟨⟨[], rfl, fun _ _ h => by cases h⟩, fun result hresult => hresult⟩, ?_⟩
      rw [view_reach, hlone]
  | cons job rest =>
      rw [hqueue] at h
      obtain rfl := Option.some.inj h
      let taken : World ChainResult := { lone with queue := rest }
      refine ⟨⟨?_, fun result hresult => ?_⟩, view_view 0 _⟩
      · have hadds : ∀ {allowed : Occurrence → Prop}, Adds allowed taken (taken.perform job) →
            ∃ added, ((taken.perform job).view 0).record = added ++ lone.record ∧
              ∀ occurrence ∈ added, ∃ origin, origin.strand = some 0 ∧ allowed origin ∧
                occurrence.isMain = origin.isMain := by
          rintro allowed ⟨added, hrecord, hadded⟩
          refine ⟨(added.filter fun occurrence => occurrence.strand = some 0).map
            fun occurrence => { occurrence with strand := some 0 }, ?_, fun occurrence hmem => ?_⟩
          · have hold := congrArg World.record hlone
            change _ = taken.record at hold
            rw [World.view, hrecord, List.filter_append, List.map_append]
            exact congrArg _ hold
          · obtain ⟨origin, hfound, rfl⟩ := List.mem_map.mp hmem
            obtain ⟨horigin, hstrand⟩ := List.mem_filter.mp hfound
            have hplace := of_decide_eq_true hstrand
            refine ⟨origin, hplace, hadded origin horigin, ?_⟩
            rw [Occurrence.isMain, Occurrence.isMain, hplace]
        by_cases hended : (Batch.result? lone 0).isSome
        · have htaken : (Batch.result? taken 0).isSome := hended
          obtain ⟨added, hrecord, hadded⟩ := hadds (adds_perform_of_result htaken job)
          refine ⟨added, hrecord, fun _ occurrence hmem => ?_⟩
          obtain ⟨origin, hplace, hmain, heq⟩ := hadded occurrence hmem
          exact heq.trans (hmain hplace)
        · obtain ⟨added, hrecord, -⟩ := hadds (Batch.owned_perform job taken)
          exact ⟨added, hrecord, fun h => absurd h hended⟩
      · rw [result?_view]
        rcases (Batch.performs_perform job taken).announces 0 with hsame | ⟨hnone, -⟩
        · exact hsame.trans hresult
        · cases hnone.symm.trans hresult

theorem Leads.extends {lone later : World ChainResult} (h : Leads lone later)
    (hlone : lone.view 0 = lone) : Extends lone later ∧ later.view 0 = later := by
  induction h with
  | refl => exact ⟨.refl lone, hlone⟩
  | tail _ hstep ih =>
      obtain ⟨hextends, hview⟩ := ih
      obtain ⟨hnext, hlater⟩ := extends_next? hview hstep
      exact ⟨hextends.trans hnext, hlater⟩

/-- Of two states of a strand alone one leads to the other. -/
theorem Leads.total {α : Type} {start first second : World α} (h : Leads start first)
    (k : Leads start second) : Leads first second ∨ Leads second first := by
  refine Relation.ReflTransGen.total_of_right_unique ?_ h k
  intro before middle after hmiddle hafter
  exact Option.some.inj (hmiddle.symm.trans hafter)

end World

namespace Batch

open World

/-! ### All chains of a batch -/

/-- Each chain of a world is in a state that it comes to alone, and there is nothing besides the
chains. -/
structure Abreast (starts : List (World ChainResult)) (world : World ChainResult) : Prop where
  secluded : world.Secluded
  follows : ∀ place start, starts[place]? = some start →
    ∃ lone, Leads start lone ∧ Matches place world lone
  idle : ∀ place, starts[place]? = none →
    (world.view place).queue = [] ∧ (world.view place).timers = []

namespace Abreast

variable {starts : List (World ChainResult)} {world : World ChainResult}

theorem of_views_eq (h : Abreast starts world) {after : World ChainResult}
    (hviews : ∀ place, after.view place = world.view place) : Abreast starts after where
  secluded := .of_views fun place => hviews place ▸ h.secluded.view place
  follows := by
    intro place start hstart
    obtain ⟨lone, hleads, hmatches⟩ := h.follows place start hstart
    exact ⟨lone, hleads, hmatches.congr (hviews place)⟩
  idle := by
    intro place hnone
    rw [hviews place]
    exact h.idle place hnone

theorem perform (h : Abreast starts world) {job : Job} {rest : List Job}
    (hqueue : world.queue = job :: rest) :
    Abreast starts (World.perform job { world with queue := rest }) where
  secluded := by
    have htaken : Secluded { world with queue := rest } :=
      ⟨h.secluded.commands, h.secluded.strands, h.secluded.clock, h.secluded.timers⟩
    exact htaken.perform job
  follows := by
    intro place start hstart
    obtain ⟨lone, hleads, hmatches⟩ := h.follows place start hstart
    by_cases hjob : job.strand? = some place
    · obtain ⟨next, hnext, hlater⟩ := hmatches.perform h.secluded hqueue hjob
      exact ⟨next, hleads.tail hnext, hlater⟩
    · exact ⟨lone, hleads, hmatches.perform_of_ne h.secluded hqueue hjob⟩
  idle := by
    intro place hnone
    obtain ⟨hempty, htimers⟩ := h.idle place hnone
    have hjob : job.strand? ≠ some place := by
      intro hjob
      simp [World.view, hqueue, hjob] at hempty
    have hmatches : Matches place world (world.view place) := .of_view_eq rfl
    have hnext := hmatches.perform_of_ne h.secluded hqueue hjob
    exact ⟨hnext.queue_eq.trans hempty, hnext.timers_eq.trans htimers⟩

theorem advance (h : Abreast starts world) (hqueue : world.queue = [])
    {next : World ChainResult} (hnext : world.advance? = some next) : Abreast starts next where
  secluded := h.secluded.advance hnext
  follows := by
    intro place start hstart
    obtain ⟨lone, hleads, hmatches⟩ := h.follows place start hstart
    rcases hmatches.advance h.secluded hqueue hnext with ⟨later, hlater, hnew⟩ | ⟨-, hold⟩
    · exact ⟨later, hleads.tail hlater, hnew⟩
    · exact ⟨lone, hleads, hold⟩
  idle := by
    intro place hnone
    obtain ⟨hempty, htimers⟩ := h.idle place hnone
    obtain ⟨-, heq, -⟩ := advance?_eq_some hnext
    rw [heq, view_reach]
    simp [reach, hempty, htimers]

end Abreast

theorem view_dumpErrors (place : Nat) (world : World ChainResult) :
    (dumpErrors world).view place = world.view place := by
  have hall : ∀ (lines : List Line) (other : World ChainResult),
      (writeLines lines other).view place = other.view place := by
    intro lines
    induction lines with
    | nil => exact fun _ => rfl
    | cons line rest ih =>
        intro other
        refine (ih _).trans ?_
        rw [view_write, if_neg fun h => by cases h]
  exact hall _ world

theorem view_notify (place : Nat) (world : World ChainResult) :
    (world.enqueue .supervise).view place = world.view place := by
  rw [view_enqueue, if_neg (Option.some_ne_none place ·.symm), List.append_nil]

theorem view_supervise {batch : Batch} {pending : List Nat}
    (hraised : ∀ fault, (batch.supervise pending).supervision ≠ .ended (.error fault))
    (place : Nat) : (batch.supervise pending).world.view place = batch.world.view place := by
  rw [Batch.supervise] at hraised ⊢
  dsimp only at hraised ⊢
  split
  · rename_i fault hfailed
    simp only [hfailed] at hraised
    exact absurd rfl (hraised fault)
  · rename_i fault hfailed
    simp only [hfailed] at hraised
    split
    · rename_i hexit
      simp only [hexit, if_true] at hraised
      exact absurd rfl (hraised _)
    · split
      · exact view_dumpErrors place batch.world
      · rfl
  · split
    · exact view_dumpErrors place batch.world
    · rfl

theorem step?_views {batch next : Batch} (h : batch.step? = some next)
    (hstalled : next.supervision ≠ .stalled)
    (hraised : ∀ fault, next.supervision ≠ .ended (.error fault)) :
    (∃ job rest, batch.world.queue = job :: rest ∧ ∀ place, next.world.view place =
        (World.perform job { batch.world with queue := rest }).view place) ∨
      batch.world.queue = [] ∧ batch.world.advance? = some next.world := by
  rw [step?, takeJob?] at h
  cases hqueue : batch.world.queue with
  | nil =>
      rw [hqueue] at h
      dsimp only at h
      split at h
      · split at h
        · rename_i world hadvance
          obtain rfl := Option.some.inj h
          exact .inr ⟨rfl, hadvance⟩
        · obtain rfl := Option.some.inj h
          exact absurd rfl hstalled
      · cases h
  | cons job rest =>
      rw [hqueue] at h
      obtain rfl := Option.some.inj h
      refine .inl ⟨job, rest, rfl, fun place => ?_⟩
      rw [Batch.perform.eq_def] at hraised ⊢
      split
      · split
        · exact view_notify place _
        · rfl
      · rename_i pending notified hwatching
        rw [hwatching] at hraised
        exact view_supervise hraised place
      · rfl

end Batch

end Cascade
