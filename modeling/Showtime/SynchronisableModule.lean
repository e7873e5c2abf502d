import Showtime.Library.Run
/-!
# Events of destroyed synchronisables

`ZstSynchronisableModule` defers a closure for a synchronisable that has events,
and a closure that runs late is to find the id of a destroyed synchronisable
among the dead ones. The polling thread clears the dead ids after each pass,
while other threads queue events and destroy synchronisables.
-/

namespace Showtime.SynchronisableModule

open Library

/-- `instance_id`, by which a synchronisable stands here. -/
abbrev InstanceID := Nat

/-- Where the polling thread is in `process_events`. -/
inductive Polling
  | idle
  | draining
  /-- A closure is to run for so many more adaptors of the dispatcher. -/
  | visiting (x : InstanceID) (adaptors : Nat)
  /-- The id was not dead, and the events are processed next. -/
  | entering (x : InstanceID) (adaptors : Nat)
  | reaping
  | clearing
  deriving DecidableEq, Repr

structure Module where
  /-- The closures in `m_synchronisable_events`. -/
  queue : List InstanceID := []
  /-- `m_dead_syncronisable_IDS`. -/
  deadIDs : List InstanceID := []
  /-- `m_cleanup_callbacks` of the reaper. -/
  cleanupCallbacks : List InstanceID := []
  /-- The synchronisables whose status is `DESTROYED`. -/
  statusDestroyed : List InstanceID := []
  /-- The synchronisables whose destructor has run. -/
  gone : List InstanceID := []
  polling : Polling := .idle
  /-- Whose events were processed, and whether it was gone then. -/
  processed : List (InstanceID × Bool) := []

inductive ModuleStep
  | synchronisableHasEvent (x : InstanceID)
  | onSynchronisableDestroyed (x : InstanceID)
  | destroy (x : InstanceID)
  | poll
  deriving DecidableEq, Repr

namespace Module

def synchronisableHasEvent (s : Module) (x : InstanceID) : Except Unit Module :=
  if x ∈ s.gone then .error () else .ok { s with queue := s.queue ++ [x] }

/-- `on_synchronisable_destroyed` for one that is not removed yet. -/
def onSynchronisableDestroyed (s : Module) (x : InstanceID) : Except Unit Module :=
  if x ∈ s.gone then .error ()
  else .ok { s with
             cleanupCallbacks := s.cleanupCallbacks ++ [x]
             statusDestroyed := x :: s.statusDestroyed }

/-- The destructor: `dispatch_destroyed` comes to `add_dead_synchronisable_ID`
unless the status is `DESTROYED`. -/
def delete (s : Module) (x : InstanceID) : Module :=
  { s with
    deadIDs := if x ∈ s.statusDestroyed then s.deadIDs else x :: s.deadIDs
    gone := x :: s.gone }

/-- The callback that `on_synchronisable_destroyed` adds removes a proxy. -/
def cleanup (isProxy : InstanceID → Bool) (s : Module) (x : InstanceID) : Except Unit Module :=
  if x ∈ s.deadIDs then .ok s
  else if x ∈ s.gone then .error ()
  else .ok (if isProxy x then s.delete x else s)

/-- The adaptors of `m_synchronisable_events`: its default one and the module. -/
def numAdaptors : Nat :=
  2

/-- The next piece of `process_events`. -/
def poll (isProxy : InstanceID → Bool) (s : Module) : Except Unit Module :=
  match s.polling with
  | .idle => .ok { s with polling := .draining }
  | .draining =>
    match s.queue with
    | [] => .ok { s with polling := .reaping }
    | x :: queue => .ok { s with queue := queue, polling := .visiting x numAdaptors }
  | .visiting _ 0 => .ok { s with polling := .draining }
  | .visiting x (adaptors + 1) =>
    .ok { s with polling := if x ∈ s.deadIDs then .visiting x adaptors else .entering x adaptors }
  | .entering x adaptors =>
    .ok { s with
          processed := s.processed ++ [(x, decide (x ∈ s.gone))]
          polling := .visiting x adaptors }
  | .reaping =>
    match s.cleanupCallbacks with
    | [] => .ok { s with polling := .clearing }
    | x :: callbacks => cleanup isProxy { s with cleanupCallbacks := callbacks } x
  | .clearing => .ok { s with deadIDs := [], polling := .idle }

def step (isProxy : InstanceID → Bool) (s : Module) : ModuleStep → Except Unit Module
  | .synchronisableHasEvent x => s.synchronisableHasEvent x
  | .onSynchronisableDestroyed x => s.onSynchronisableDestroyed x
  | .destroy x => if x ∈ s.gone then .error () else .ok (s.delete x)
  | .poll => s.poll isProxy

end Module

/-! ## When the dead ids cover the queue -/

/-- What the step destroys. -/
def deleted (isProxy : InstanceID → Bool) (s : Module) : ModuleStep → Option InstanceID
  | .destroy x => some x
  | .poll =>
    if s.polling = .reaping then
      s.cleanupCallbacks.head?.filter fun x => isProxy x && decide (x ∉ s.deadIDs)
    else none
  | .synchronisableHasEvent _ | .onSynchronisableDestroyed _ => none

/-- The polling thread has checked the id of the synchronisable already. -/
def Polling.enters (x : InstanceID) : Polling → Bool
  | .entering y _ => x == y
  | _ => false

/-- The closures that are queued or being run. -/
def waiting (s : Module) : List InstanceID :=
  match s.polling with
  | .visiting x _ => x :: s.queue
  | _ => s.queue

/-- Nothing is destroyed between the check of its id and the processing of its
events, nothing with the status `DESTROYED` is destroyed while it has events in
the queue, and no id is cleared that has. -/
structure Guarded (isProxy : InstanceID → Bool) (s : Module) (step : ModuleStep) : Prop where
  entering : ∀ x ∈ deleted isProxy s step, ¬ s.polling.enters x
  unrecorded : ∀ x ∈ deleted isProxy s step, x ∈ s.statusDestroyed → x ∉ waiting s
  cleared : step = .poll → s.polling = .clearing → ∀ x ∈ s.queue, x ∉ s.deadIDs

instance (isProxy : InstanceID → Bool) (s : Module) (step : ModuleStep) :
    Decidable (Guarded isProxy s step) :=
  decidable_of_iff
    ((∀ x ∈ deleted isProxy s step, ¬ s.polling.enters x) ∧
      (∀ x ∈ deleted isProxy s step, x ∈ s.statusDestroyed → x ∉ waiting s) ∧
      (step = .poll → s.polling = .clearing → ∀ x ∈ s.queue, x ∉ s.deadIDs))
    ⟨fun ⟨h₁, h₂, h₃⟩ => ⟨h₁, h₂, h₃⟩, fun ⟨h₁, h₂, h₃⟩ => ⟨h₁, h₂, h₃⟩⟩

/-- Every destroyed synchronisable with a closure that waits is known as dead. -/
structure Protected (s : Module) : Prop where
  waiting : ∀ x ∈ waiting s, x ∈ s.gone → x ∈ s.deadIDs
  entering : ∀ x, s.polling.enters x → x ∉ s.gone
  processed : ∀ p ∈ s.processed, p.2 = false

theorem protected_opened : Protected {} where
  waiting x hx := absurd hx List.not_mem_nil
  entering x hx := by cases hx
  processed p hp := absurd hp List.not_mem_nil

section Steps

variable {isProxy : InstanceID → Bool} {s t : Module} {x : InstanceID}

theorem queue_subset_waiting (s : Module) : s.queue ⊆ waiting s := by
  unfold waiting
  split
  · exact List.subset_cons_self _ _
  · exact List.Subset.refl _

theorem protected_delete (hs : Protected s) (hentering : ¬ s.polling.enters x)
    (hunrecorded : x ∈ s.statusDestroyed → x ∉ waiting s) : Protected (s.delete x) where
  waiting y hy hgone := by
    have hwaiting : y ∈ waiting s := hy
    unfold Module.delete
    dsimp only
    rcases List.mem_cons.mp hgone with rfl | hgone
    · rw [if_neg fun hstatus => hunrecorded hstatus hwaiting]
      exact List.mem_cons_self
    · have hdead := hs.waiting y hwaiting hgone
      split
      · exact hdead
      · exact List.mem_cons_of_mem _ hdead
  entering y hy := by
    intro hgone
    rcases List.mem_cons.mp hgone with rfl | hgone
    · exact hentering hy
    · exact hs.entering y hy hgone
  processed := hs.processed

/-- A step that only moves the polling thread on. -/
theorem protected_move (hs : Protected s) {polling : Polling}
    (hwaiting : ∀ y ∈ waiting { s with polling := polling }, y ∈ waiting s)
    (hentering : ∀ y, polling.enters y → y ∉ s.gone) :
    Protected { s with polling := polling } where
  waiting y hy hgone := hs.waiting y (hwaiting y hy) hgone
  entering := hentering
  processed := hs.processed

theorem protected_poll (hs : Protected s) (hguard : Guarded isProxy s .poll)
    (hstep : s.poll isProxy = .ok t) : Protected t := by
  unfold Module.poll at hstep
  split at hstep
  case h_1 hpolling =>
    obtain rfl := Except.ok.inj hstep
    exact protected_move hs (fun y hy => queue_subset_waiting s hy) fun _ h => Bool.noConfusion h
  case h_2 hpolling =>
    split at hstep
    · obtain rfl := Except.ok.inj hstep
      exact protected_move hs (fun y hy => queue_subset_waiting s hy) fun _ h => Bool.noConfusion h
    · rename_i x queue hqueue
      obtain rfl := Except.ok.inj hstep
      refine ⟨fun y hy hgone => hs.waiting y (queue_subset_waiting s ?_) hgone,
        fun _ h => Bool.noConfusion h, hs.processed⟩
      rw [hqueue]
      exact hy
  case h_3 x hpolling =>
    obtain rfl := Except.ok.inj hstep
    exact protected_move hs (fun y hy => queue_subset_waiting s hy) fun _ h => Bool.noConfusion h
  case h_4 x adaptors hpolling =>
    obtain rfl := Except.ok.inj hstep
    have hall : waiting s = x :: s.queue := by
      unfold waiting
      rw [hpolling]
    split
    · refine protected_move hs (fun y hy => ?_) fun _ h => Bool.noConfusion h
      rw [hall]
      exact hy
    · -- a closure goes on only if the id is not dead, so the synchronisable is not gone
      rename_i hdead
      refine protected_move hs (fun y hy => queue_subset_waiting s hy) fun y hy hgone => hdead ?_
      obtain rfl : y = x := eq_of_beq hy
      refine hs.waiting y ?_ hgone
      rw [hall]
      exact List.mem_cons_self
  case h_5 x adaptors hpolling =>
    obtain rfl := Except.ok.inj hstep
    have halive : x ∉ s.gone := hs.entering x (by rw [hpolling]; exact beq_self_eq_true x)
    refine ⟨fun y hy hgone => ?_, fun _ h => Bool.noConfusion h, fun p hp => ?_⟩
    · rcases List.mem_cons.mp hy with rfl | hy
      · exact absurd hgone halive
      · exact hs.waiting y (queue_subset_waiting s hy) hgone
    · rcases List.mem_append.mp hp with hp | hp
      · exact hs.processed p hp
      · rw [List.mem_singleton.mp hp]
        exact decide_eq_false halive
  case h_6 hpolling =>
    split at hstep
    · obtain rfl := Except.ok.inj hstep
      exact protected_move hs (fun y hy => queue_subset_waiting s hy) fun _ h => Bool.noConfusion h
    · rename_i x callbacks hcallbacks
      have hrest : Protected { s with cleanupCallbacks := callbacks } :=
        ⟨hs.waiting, hs.entering, hs.processed⟩
      unfold Module.cleanup at hstep
      split at hstep
      · obtain rfl := Except.ok.inj hstep
        exact hrest
      · rename_i hdead
        split at hstep
        · cases hstep
        · obtain rfl := Except.ok.inj hstep
          split
          · rename_i hproxy
            have hdeleted : deleted isProxy s .poll = some x := by
              unfold deleted
              dsimp only at hdead ⊢
              rw [if_pos hpolling, hcallbacks]
              simp [Option.filter, hproxy, hdead]
            exact protected_delete hrest (hguard.entering x hdeleted) (hguard.unrecorded x hdeleted)
          · exact hrest
  case h_7 hpolling =>
    obtain rfl := Except.ok.inj hstep
    refine ⟨fun y hy hgone => ?_, fun _ h => Bool.noConfusion h, hs.processed⟩
    have hqueue : y ∈ s.queue := hy
    exact absurd (hs.waiting y (queue_subset_waiting s hqueue) hgone)
      (hguard.cleared rfl hpolling y hqueue)

theorem protected_step (hs : Protected s) {step : ModuleStep} (hguard : Guarded isProxy s step)
    (hstep : s.step isProxy step = .ok t) : Protected t := by
  cases step with
  | synchronisableHasEvent x =>
    simp only [Module.step, Module.synchronisableHasEvent] at hstep
    split at hstep
    case isTrue => cases hstep
    rename_i halive
    obtain rfl := Except.ok.inj hstep
    refine ⟨fun y hy hgone => ?_, hs.entering, hs.processed⟩
    by_cases heq : y = x
    · exact absurd (heq ▸ hgone) halive
    · refine hs.waiting y ?_ hgone
      unfold waiting at hy ⊢
      dsimp only at hy
      split at hy
      · simpa [heq] using hy
      · simpa [heq] using hy
  | onSynchronisableDestroyed x =>
    simp only [Module.step, Module.onSynchronisableDestroyed] at hstep
    split at hstep
    case isTrue => cases hstep
    obtain rfl := Except.ok.inj hstep
    exact ⟨hs.waiting, hs.entering, hs.processed⟩
  | destroy x =>
    simp only [Module.step] at hstep
    split at hstep
    case isTrue => cases hstep
    obtain rfl := Except.ok.inj hstep
    exact protected_delete hs (hguard.entering x rfl) (hguard.unrecorded x rfl)
  | poll => exact protected_poll hs hguard hstep

end Steps

/-! ## The result -/

/-- While the queue is never left without the ids it needs, no event of a
destroyed synchronisable is processed. -/
theorem processed_alive (isProxy : InstanceID → Bool) (steps : List ModuleStep) {s : Module}
    (hguard : Along (Module.step isProxy) (Guarded isProxy) {} steps)
    (hrun : run (Module.step isProxy) {} steps = .ok s) : ∀ p ∈ s.processed, p.2 = false :=
  (run_invariant (fun _ _ _ hs hcondition hstep => protected_step hs hcondition hstep)
    protected_opened hguard hrun).processed

/-- A synchronisable is destroyed before the pass that would process its event. -/
def destroyedInTime : List ModuleStep :=
  [.synchronisableHasEvent 1, .synchronisableHasEvent 2, .destroy 1] ++ List.replicate 13 .poll

theorem processed_alive_destroyedInTime : ∃ s : Module,
    run (Module.step fun _ => false) {} destroyedInTime = .ok s ∧
      s.processed = [(2, false), (2, false)] ∧ ∀ p ∈ s.processed, p.2 = false :=
  ⟨_, rfl, rfl, processed_alive (fun _ => false) destroyedInTime (by decide) rfl⟩

/-- The event is queued and the synchronisable destroyed after the queue was
drained, before the dead ids are cleared. -/
def destroyedWhileReaping : List ModuleStep :=
  [.poll, .poll, .synchronisableHasEvent 1, .destroy 1] ++ List.replicate 6 .poll

theorem destroyedWhileReaping_processed : ∃ s : Module,
    run (Module.step fun _ => false) {} destroyedWhileReaping = .ok s ∧
      s.processed = [(1, true)] ∧ ¬ ∀ p ∈ s.processed, p.2 = false :=
  ⟨_, rfl, rfl, by decide⟩

end Showtime.SynchronisableModule
