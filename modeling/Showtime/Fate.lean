import Showtime.Lifecycle
/-!
# The fate of an entity

The status that an entity has once the events that it has queued have run. The
events of an entity do not affect each other in any other way: a destruction
follows a deactivation, so it deactivates nobody.
-/

namespace Showtime

open ZstHierarchy

/-- The status of an entity after one of its events. -/
def statusAfter (status : ZstSyncStatus) : SynchronisableEvent → ZstSyncStatus
  | .activated => .activated
  | .deactivated => .deactivated
  | .destroyed => .destroyed
  | .updated => status

/-- The status that an entity has once its events have run. -/
def Entity.fate (x : Entity) : ZstSyncStatus :=
  x.synchronisableEvents.foldl statusAfter x.syncStatus

/-- Activations, updates, and deactivations that a destruction follows. -/
inductive OwnEvents : List SynchronisableEvent → Prop
  | nil : OwnEvents []
  | activated {rest} : OwnEvents rest → OwnEvents (.activated :: rest)
  | updated {rest} : OwnEvents rest → OwnEvents (.updated :: rest)
  | destroyed {rest} : OwnEvents rest → OwnEvents (.deactivated :: .destroyed :: rest)

theorem OwnEvents.append {first second : List SynchronisableEvent} (hfirst : OwnEvents first)
    (hsecond : OwnEvents second) : OwnEvents (first ++ second) := by
  induction hfirst with
  | nil => exact hsecond
  | activated _ ih => exact .activated ih
  | updated _ ih => exact .updated ih
  | destroyed _ ih => exact .destroyed ih

/-- Without a status of its own an entity is not activated in the end, whatever
else the status is now. -/
theorem foldl_statusAfter_ne {s t : ZstSyncStatus} (ht : t ≠ .activated)
    (events : List SynchronisableEvent) (hs : events.foldl statusAfter s ≠ .activated) :
    events.foldl statusAfter t ≠ .activated := by
  induction events generalizing s t with
  | nil => exact ht
  | cons event events ih =>
    cases event with
    | activated => exact hs
    | deactivated => exact hs
    | destroyed => exact hs
    | updated => exact ih ht hs

theorem foldl_statusAfter_of_not_mem {s : ZstSyncStatus} {events : List SynchronisableEvent}
    (hevents : .activated ∉ events) (hs : s ≠ .activated) :
    events.foldl statusAfter s ≠ .activated := by
  induction events generalizing s with
  | nil => exact hs
  | cons event events ih =>
    have hrest : .activated ∉ events := fun h => hevents (List.mem_cons_of_mem _ h)
    refine ih hrest ?_
    cases event with
    | activated => exact absurd List.mem_cons_self hevents
    | deactivated => simp [statusAfter]
    | destroyed => simp [statusAfter]
    | updated => exact hs

section Own

variable (v : Overrides)

/-- The events of an entity only change its own state and add cleanup callbacks
for its destructions: none of them deactivates it, since each follows a
deactivation. -/
theorem processOwnEvents_own {own : List SynchronisableEvent} (howns : OwnEvents own)
    (h : ZstHierarchy) (e : EntityId) (hown : (h.entities e).synchronisableEvents = own) :
    ∃ x n, processOwnEvents v own.length h e =
        { h.modify e (fun _ => x) with cleanupOps := h.cleanupOps ++ List.replicate n e } ∧
      x.uri = (h.entities e).uri ∧ x.registered = (h.entities e).registered ∧
      x.isProxy = (h.entities e).isProxy ∧ x.synchronisableEvents = [] ∧
      x.syncStatus = (h.entities e).fate ∧ (.destroyed ∉ own → n = 0) := by
  induction howns generalizing h with
  | nil =>
    refine ⟨h.entities e, 0, ?_, rfl, rfl, rfl, hown, ?_, fun _ => rfl⟩
    · simp [processOwnEvents, ZstHierarchy.modify]
    · simp [Entity.fate, hown]
  | @activated rest _ ih =>
    let y : Entity := onActivation
      { h.entities e with synchronisableEvents := rest, syncStatus := .activated }
    have hfields : y.uri = (h.entities e).uri ∧ y.registered = (h.entities e).registered ∧
        y.isProxy = (h.entities e).isProxy ∧ y.synchronisableEvents = rest ∧
        y.syncStatus = .activated := by
      simp only [y, onActivation]
      split <;> exact ⟨rfl, rfl, rfl, rfl, rfl⟩
    have hstep : processOwnEvents v (rest.length + 1) h e =
        processOwnEvents v rest.length (h.modify e fun _ => y) e := by
      rw [processOwnEvents, hown]
      simp [processEvent, setActivationStatus, ZstHierarchy.modify, y]
    have hfate : y.fate = (h.entities e).fate := by
      unfold Entity.fate
      rw [hown, hfields.2.2.2.1, hfields.2.2.2.2]
      rfl
    obtain ⟨x, n, hx, huri, hregistered, hproxy, hdone, hstatus, hn⟩ :=
      ih (h.modify e fun _ => y) (by rw [modify_entities_self, hfields.2.2.2.1])
    rw [modify_entities_self] at huri hregistered hproxy hstatus
    refine ⟨x, n, ?_, huri.trans hfields.1, hregistered.trans hfields.2.1,
      hproxy.trans hfields.2.2.1, hdone, hstatus.trans hfate,
      fun h => hn fun hrest => h (List.mem_cons_of_mem _ hrest)⟩
    rw [List.length_cons, hstep, hx]
    simp [ZstHierarchy.modify]
  | @updated rest _ ih =>
    let y : Entity := { h.entities e with synchronisableEvents := rest }
    have hstep : processOwnEvents v (rest.length + 1) h e =
        processOwnEvents v rest.length (h.modify e fun _ => y) e := by
      rw [processOwnEvents, hown]
      simp [processEvent, ZstHierarchy.modify, y]
    have hfate : y.fate = (h.entities e).fate := by
      unfold Entity.fate
      rw [hown]
      rfl
    obtain ⟨x, n, hx, huri, hregistered, hproxy, hdone, hstatus, hn⟩ :=
      ih (h.modify e fun _ => y) (by rw [modify_entities_self])
    rw [modify_entities_self] at huri hregistered hproxy hstatus
    refine ⟨x, n, ?_, huri, hregistered, hproxy, hdone, hstatus.trans hfate,
      fun h => hn fun hrest => h (List.mem_cons_of_mem _ hrest)⟩
    rw [List.length_cons, hstep, hx]
    simp [ZstHierarchy.modify]
  | @destroyed rest _ ih =>
    let y : Entity :=
      { onDeactivation
          { h.entities e with
            synchronisableEvents := .destroyed :: rest
            syncStatus := .deactivated } with
        synchronisableEvents := rest
        syncStatus := .destroyed }
    have hfields : y.uri = (h.entities e).uri ∧ y.registered = (h.entities e).registered ∧
        y.isProxy = (h.entities e).isProxy := by
      simp only [y, onDeactivation]
      split <;> exact ⟨rfl, rfl, rfl⟩
    have hstep : processOwnEvents v (rest.length + 2) h e =
        processOwnEvents v rest.length
          { h.modify e (fun _ => y) with cleanupOps := h.cleanupOps ++ [e] } e := by
      rw [processOwnEvents, hown]
      by_cases hplug : (h.entities e).entityType = .plug <;>
        simp [processOwnEvents, processEvent, onSynchronisableDestroyed, setActivationStatus,
          onDeactivation, Entity.isActivated, ZstHierarchy.modify, y, hplug]
    have hfate : y.fate = (h.entities e).fate := by
      unfold Entity.fate
      rw [hown]
      rfl
    obtain ⟨x, n, hx, huri, hregistered, hproxy, hdone, hstatus, -⟩ :=
      ih { h.modify e (fun _ => y) with cleanupOps := h.cleanupOps ++ [e] }
        (by
          change ((h.modify e fun _ => y).entities e).synchronisableEvents = rest
          rw [modify_entities_self])
    simp only [modify_entities_self] at huri hregistered hproxy hstatus
    refine ⟨x, n + 1, ?_, huri.trans hfields.1, hregistered.trans hfields.2.1,
      hproxy.trans hfields.2.2, hdone, hstatus.trans hfate, fun h => absurd (by simp) h⟩
    rw [List.length_cons, List.length_cons, hstep, hx]
    simp [ZstHierarchy.modify, List.replicate_succ]

end Own

end Showtime
