import Showtime.Entity
/-!
# After `set_destroyed`

`ZstSynchronisable` changes its status at once when something is enqueued, and
again in closures that run with its next `process_events`. A closure that waits
while the synchronisable is destroyed still sets the status when it runs.
-/

namespace Showtime.ZstSynchronisable

/-- Who listens to a synchronisable: the hierarchy, which destroys what has been
deactivated, or an adaptor that does nothing to it. -/
inductive Adaptor
  | hierarchy | listener
  deriving DecidableEq, Repr

/-- The callbacks that tell of an activation or a deactivation. -/
inductive Callback
  | onSynchronisableActivated (adaptor : Adaptor)
  | onSynchronisableDeactivated (adaptor : Adaptor)
  | onActivation
  | onDeactivation
  deriving DecidableEq, Repr

structure Synchronisable where
  isDestroyed : Bool := false
  syncStatus : ZstSyncStatus := .deactivated
  /-- `m_adaptors` of the dispatcher. -/
  adaptors : List Adaptor
  events : List SynchronisableEvent := []
  /-- Everything that `set_activation_status` was given. -/
  statuses : List ZstSyncStatus := []
  callbacks : List Callback := []
  deriving DecidableEq, Repr

inductive SynchronisableCall
  | enqueueActivation | enqueueDeactivation | announceUpdate | processEvents
  | setActivated | setActivating | setDeactivated | setDeactivating | setDestroyed | setError
  deriving DecidableEq, Repr

namespace Synchronisable

def setActivationStatus (x : Synchronisable) (status : ZstSyncStatus) : Synchronisable :=
  { x with syncStatus := status, statuses := x.statuses ++ [status] }

def call (x : Synchronisable) (callback : Callback) : Synchronisable :=
  { x with callbacks := x.callbacks ++ [callback] }

def deferEvents (x : Synchronisable) (events : List SynchronisableEvent) : Synchronisable :=
  { x with events := x.events ++ events }

def enqueueActivation (x : Synchronisable) : Synchronisable :=
  if x.syncStatus = .activating then
    (x.setActivationStatus .activationQueued).deferEvents [.activated]
  else x

def enqueueDeactivation (x : Synchronisable) : Synchronisable :=
  if x.syncStatus = .destroyed then x
  else if x.syncStatus = .activated ∨ x.syncStatus = .deactivating then
    (x.setActivationStatus .deactivationQueued).deferEvents [.deactivated, .destroyed]
  else x

def setDestroyed (x : Synchronisable) : Synchronisable :=
  x.setActivationStatus .destroyed

/-- `ZstHierarchy::on_synchronisable_destroyed` as the synchronisable sees it. -/
def onSynchronisableDestroyed (x : Synchronisable) : Synchronisable :=
  (if x.syncStatus = .activated then x.setActivationStatus .deactivating else x).setDestroyed

/-- The function of an event, for one adaptor. -/
def visit (event : SynchronisableEvent) (x : Synchronisable) (adaptor : Adaptor) :
    Synchronisable :=
  match event with
  | .activated => (x.setActivationStatus .activated).call (.onSynchronisableActivated adaptor)
  | .deactivated =>
    (x.setActivationStatus .deactivated).call (.onSynchronisableDeactivated adaptor)
  | .destroyed => if adaptor = .hierarchy then x.onSynchronisableDestroyed else x
  | .updated => x

/-- The completion callback of an event. -/
def completed (x : Synchronisable) : SynchronisableEvent → Synchronisable
  | .activated => x.call .onActivation
  | .deactivated => x.call .onDeactivation
  | .destroyed | .updated => x

def process (x : Synchronisable) (event : SynchronisableEvent) : Synchronisable :=
  (x.adaptors.foldl (visit event) x).completed event

/-- `process_events`. No event adds another one. -/
def processEvents (x : Synchronisable) : Synchronisable :=
  x.events.foldl process { x with events := [] }

def step (x : Synchronisable) : SynchronisableCall → Synchronisable
  | .enqueueActivation => x.enqueueActivation
  | .enqueueDeactivation => x.enqueueDeactivation
  | .announceUpdate => x.deferEvents [.updated]
  | .processEvents => x.processEvents
  | .setActivated => x.setActivationStatus .activated
  | .setActivating => x.setActivationStatus .activating
  | .setDeactivated => x.setActivationStatus .deactivated
  | .setDeactivating => x.setActivationStatus .deactivating
  | .setDestroyed => x.setDestroyed
  | .setError => { x with syncStatus := .err }

end Synchronisable

open Synchronisable

def run (x : Synchronisable) (calls : List SynchronisableCall) : Synchronisable :=
  calls.foldl step x

/-- The calls that anyone makes on a synchronisable that was destroyed. -/
def MadeAfterDestroy : SynchronisableCall → Prop
  | .enqueueActivation | .enqueueDeactivation | .announceUpdate | .processEvents => True
  | _ => False

instance : DecidablePred MadeAfterDestroy
  | .enqueueActivation | .enqueueDeactivation | .announceUpdate | .processEvents =>
    isTrue trivial
  | .setActivated | .setActivating | .setDeactivated | .setDeactivating | .setDestroyed
  | .setError => isFalse not_false

/-- The status has been `destroyed` all along, and nobody was called. -/
structure Rested (x y : Synchronisable) : Prop where
  statuses : ∀ status ∈ y.statuses.drop x.statuses.length, status = .destroyed
  callbacks : y.callbacks = x.callbacks

/-- What is to hold from `set_destroyed` on. -/
structure StaysDestroyed (x y : Synchronisable) : Prop where
  isDestroyed : y.isDestroyed = true
  rested : Rested x y

/-- The event sets the status when it runs. -/
def Changes (event : SynchronisableEvent) : Prop :=
  event = .activated ∨ event = .deactivated

/-! ## The flag -/

/-- An event only sets the status and calls someone. -/
theorem process_field {α : Type} {f : Synchronisable → α}
    (hstatus : ∀ x status, f (x.setActivationStatus status) = f x)
    (hcall : ∀ (x : Synchronisable) callback, f (x.call callback) = f x) (x : Synchronisable)
    (event : SynchronisableEvent) : f (x.process event) = f x := by
  have hvisits : f (x.adaptors.foldl (visit event) x) = f x := by
    refine List.foldlRecOn (motive := fun (y : Synchronisable) => f y = f x) _ _ rfl
      fun y hy adaptor _ => Eq.trans ?_ hy
    cases event with
    | activated | deactivated => exact (hcall _ _).trans (hstatus _ _)
    | updated => rfl
    | destroyed =>
      unfold visit
      dsimp only
      split
      · unfold onSynchronisableDestroyed setDestroyed
        split
        · exact (hstatus _ _).trans (hstatus _ _)
        · exact hstatus _ _
      · rfl
  cases event with
  | activated | deactivated => exact (hcall _ _).trans hvisits
  | destroyed | updated => exact hvisits

theorem foldl_process_field {α : Type} {f : Synchronisable → α}
    (hstatus : ∀ x status, f (x.setActivationStatus status) = f x)
    (hcall : ∀ (x : Synchronisable) callback, f (x.call callback) = f x)
    (events : List SynchronisableEvent) (x : Synchronisable) :
    f (events.foldl process x) = f x :=
  List.foldlRecOn (motive := fun (y : Synchronisable) => f y = f x) _ _ rfl
    fun y hy event _ => (process_field hstatus hcall y event).trans hy

/-- Nothing sets the flag. -/
theorem step_isDestroyed (x : Synchronisable) (call : SynchronisableCall) :
    (x.step call).isDestroyed = x.isDestroyed := by
  cases call with
  | enqueueActivation =>
    unfold step enqueueActivation
    dsimp only
    split <;> rfl
  | enqueueDeactivation =>
    unfold step enqueueDeactivation
    dsimp only
    split
    · rfl
    · split <;> rfl
  | processEvents =>
    exact foldl_process_field (f := isDestroyed) (fun _ _ => rfl) (fun _ _ => rfl) x.events
      { x with events := [] }
  | _ => rfl

theorem run_isDestroyed (x : Synchronisable) (calls : List SynchronisableCall) :
    (run x calls).isDestroyed = x.isDestroyed :=
  List.foldlRecOn (motive := fun (y : Synchronisable) => y.isDestroyed = x.isDestroyed) _ _ rfl
    fun y hy call _ => (step_isDestroyed y call).trans hy

/-! ## The callbacks of the events -/

@[simp] theorem call_callbacks (x : Synchronisable) (callback : Callback) :
    (x.call callback).callbacks = x.callbacks ++ [callback] := rfl

theorem visit_callbacks (event : SynchronisableEvent) (x : Synchronisable) (adaptor : Adaptor) :
    x.callbacks.length ≤ (visit event x adaptor).callbacks.length := by
  cases event with
  | activated | deactivated => simp [visit, setActivationStatus]
  | updated => exact Nat.le_refl _
  | destroyed =>
    unfold visit
    dsimp only
    split
    · unfold onSynchronisableDestroyed
      split <;> exact Nat.le_refl _
    · exact Nat.le_refl _

/-- An event that sets the status calls someone in the end. -/
theorem process_callbacks (x : Synchronisable) (event : SynchronisableEvent) :
    x.callbacks.length ≤ (x.process event).callbacks.length ∧
      (Changes event → x.callbacks.length < (x.process event).callbacks.length) := by
  have hvisits : x.callbacks.length ≤ (x.adaptors.foldl (visit event) x).callbacks.length :=
    List.foldlRecOn (motive := fun (y : Synchronisable) =>
      x.callbacks.length ≤ y.callbacks.length) _ _ (Nat.le_refl _)
      fun y hy adaptor _ => hy.trans (visit_callbacks event y adaptor)
  cases event with
  | activated | deactivated =>
    unfold process completed
    simp only [call_callbacks, List.length_append, List.length_singleton]
    omega
  | destroyed | updated =>
    exact ⟨hvisits, fun hchanges => by cases hchanges <;> contradiction⟩

theorem foldl_process_callbacks (events : List SynchronisableEvent) (x : Synchronisable) :
    x.callbacks.length ≤ (events.foldl process x).callbacks.length ∧
      ((∃ event ∈ events, Changes event) →
        x.callbacks.length < (events.foldl process x).callbacks.length) := by
  induction events generalizing x with
  | nil => simp
  | cons event events ih =>
    obtain ⟨hle, hlt⟩ := process_callbacks x event
    obtain ⟨hrest, hrestlt⟩ := ih (x.process event)
    rw [List.foldl_cons]
    refine ⟨hle.trans hrest, fun hchanges => ?_⟩
    obtain ⟨change, hmem, hchange⟩ := hchanges
    rcases List.mem_cons.mp hmem with rfl | hmem
    · exact Nat.lt_of_lt_of_le (hlt hchange) hrest
    · exact Nat.lt_of_le_of_lt hle (hrestlt ⟨change, hmem, hchange⟩)

/-- Other than `process_events`, nothing calls anyone, and what waits goes on waiting. -/
theorem step_callbacks (x : Synchronisable) {call : SynchronisableCall}
    (hcall : call ≠ .processEvents) :
    (x.step call).callbacks = x.callbacks ∧ ∀ event ∈ x.events, event ∈ (x.step call).events := by
  cases call with
  | processEvents => exact absurd rfl hcall
  | enqueueActivation =>
    unfold step enqueueActivation
    dsimp only
    split
    · exact ⟨rfl, fun event hevent => List.mem_append_left _ hevent⟩
    · exact ⟨rfl, fun _ hevent => hevent⟩
  | enqueueDeactivation =>
    unfold step enqueueDeactivation
    dsimp only
    split
    · exact ⟨rfl, fun _ hevent => hevent⟩
    · split
      · exact ⟨rfl, fun event hevent => List.mem_append_left _ hevent⟩
      · exact ⟨rfl, fun _ hevent => hevent⟩
  | announceUpdate => exact ⟨rfl, fun event hevent => List.mem_append_left _ hevent⟩
  | _ => exact ⟨rfl, fun _ hevent => hevent⟩

theorem run_callbacks_le (x : Synchronisable) (calls : List SynchronisableCall) :
    x.callbacks.length ≤ (run x calls).callbacks.length := by
  refine List.foldlRecOn (motive := fun (y : Synchronisable) =>
    x.callbacks.length ≤ y.callbacks.length) _ _ (Nat.le_refl _) fun y hy call _ => hy.trans ?_
  by_cases hcall : call = .processEvents
  · subst hcall
    exact (foldl_process_callbacks y.events { y with events := [] }).1
  · rw [(step_callbacks y hcall).1]

/-- A pending change of the status calls someone when it is processed. -/
theorem run_callbacks_lt {x : Synchronisable} {calls : List SynchronisableCall}
    {change : SynchronisableEvent}
    (hpending : change ∈ x.events) (hchange : Changes change)
    (hprocess : .processEvents ∈ calls) :
    x.callbacks.length < (run x calls).callbacks.length := by
  induction calls generalizing x with
  | nil => cases hprocess
  | cons call calls ih =>
    have hrun : run x (call :: calls) = run (x.step call) calls := rfl
    rw [hrun]
    by_cases hcall : call = .processEvents
    · subst hcall
      refine Nat.lt_of_lt_of_le ?_ (run_callbacks_le _ calls)
      exact (foldl_process_callbacks x.events { x with events := [] }).2
        ⟨change, hpending, hchange⟩
    · obtain ⟨hcallbacks, hwaits⟩ := step_callbacks x hcall
      rw [← hcallbacks]
      refine ih (hwaits change hpending) ?_
      rcases List.mem_cons.mp hprocess with hfirst | hlater
      · exact absurd hfirst.symm hcall
      · exact hlater

/-! ## Rest -/

/-- A destroyed synchronisable that nothing has happened to since. -/
structure RestingDestroyed (x y : Synchronisable) : Prop where
  rested : Rested x y
  longer : x.statuses.length ≤ y.statuses.length
  syncStatus : y.syncStatus = .destroyed

theorem RestingDestroyed.setDestroyed (x : Synchronisable) :
    RestingDestroyed x.setDestroyed x.setDestroyed :=
  ⟨⟨by simp, rfl⟩, Nat.le_refl _, rfl⟩

theorem RestingDestroyed.again {x y : Synchronisable} (hy : RestingDestroyed x y) :
    RestingDestroyed x y.setDestroyed where
  rested := by
    refine ⟨fun status hstatus => ?_, hy.rested.callbacks⟩
    unfold Synchronisable.setDestroyed setActivationStatus at hstatus
    dsimp only at hstatus
    rw [List.drop_append_of_le_length hy.longer] at hstatus
    rcases List.mem_append.mp hstatus with hstatus | hstatus
    · exact hy.rested.statuses status hstatus
    · exact List.mem_singleton.mp hstatus
  longer := hy.longer.trans (by simp [Synchronisable.setDestroyed, setActivationStatus])
  syncStatus := rfl

theorem RestingDestroyed.of_eq {x y z : Synchronisable} (hy : RestingDestroyed x y)
    (hstatus : z.syncStatus = y.syncStatus) (hstatuses : z.statuses = y.statuses)
    (hcallbacks : z.callbacks = y.callbacks) : RestingDestroyed x z where
  rested := ⟨hstatuses ▸ hy.rested.statuses, hcallbacks.trans hy.rested.callbacks⟩
  longer := hstatuses ▸ hy.longer
  syncStatus := hstatus.trans hy.syncStatus

/-- Events that do not change the status leave a destroyed synchronisable at rest. -/
theorem RestingDestroyed.process {x y : Synchronisable} (hy : RestingDestroyed x y)
    {event : SynchronisableEvent}
    (hevent : ¬ Changes event) : RestingDestroyed x (y.process event) := by
  have hvisits : RestingDestroyed x (y.adaptors.foldl (visit event) y) := by
    refine List.foldlRecOn (motive := RestingDestroyed x) _ _ hy fun z hz adaptor _ => ?_
    cases event with
    | activated => exact absurd (Or.inl rfl) hevent
    | deactivated => exact absurd (Or.inr rfl) hevent
    | updated => exact hz
    | destroyed =>
      unfold visit
      dsimp only
      split
      · unfold onSynchronisableDestroyed
        rw [if_neg (by rw [hz.syncStatus]; exact ZstSyncStatus.noConfusion)]
        exact hz.again
      · exact hz
  cases event with
  | activated => exact absurd (Or.inl rfl) hevent
  | deactivated => exact absurd (Or.inr rfl) hevent
  | destroyed | updated => exact hvisits

/-- The quiet calls queue nothing that changes the status. -/
theorem RestingDestroyed.step {x y : Synchronisable} (hy : RestingDestroyed x y)
    {call : SynchronisableCall}
    (hquiet : MadeAfterDestroy call)
    (hevents : call = .processEvents → ∀ event ∈ y.events, ¬ Changes event) :
    RestingDestroyed x (y.step call) ∧
      ∀ event ∈ (y.step call).events, event ∈ y.events ∨ ¬ Changes event := by
  cases call with
  | enqueueActivation =>
    unfold Synchronisable.step enqueueActivation
    dsimp only
    rw [if_neg (by rw [hy.syncStatus]; exact ZstSyncStatus.noConfusion)]
    exact ⟨hy, fun _ => Or.inl⟩
  | enqueueDeactivation =>
    unfold Synchronisable.step enqueueDeactivation
    dsimp only
    rw [if_pos hy.syncStatus]
    exact ⟨hy, fun _ => Or.inl⟩
  | announceUpdate =>
    refine ⟨hy.of_eq rfl rfl rfl, fun event hevent => ?_⟩
    rcases List.mem_append.mp hevent with hevent | hevent
    · exact Or.inl hevent
    · rw [List.mem_singleton.mp hevent]
      exact Or.inr (by simp [Changes])
  | processEvents =>
    have hall : ∀ (events : List SynchronisableEvent) (z : Synchronisable),
        (∀ event ∈ events, ¬ Changes event) → RestingDestroyed x z →
          RestingDestroyed x (events.foldl Synchronisable.process z) := by
      intro events z hcalm hz
      exact List.foldlRecOn (motive := RestingDestroyed x) _ _ hz fun w hw event hevent =>
        hw.process (hcalm event hevent)
    refine ⟨hall y.events { y with events := [] } (hevents rfl) (hy.of_eq rfl rfl rfl), ?_⟩
    have hdrained : y.processEvents.events = [] :=
      foldl_process_field (f := Synchronisable.events) (fun _ _ => rfl) (fun _ _ => rfl) y.events
        { y with events := [] }
    intro event hevent
    have hnone : event ∈ y.processEvents.events := hevent
    rw [hdrained] at hnone
    cases hnone
  | _ => exact hquiet.elim

theorem RestingDestroyed.run {x y : Synchronisable} (hy : RestingDestroyed x y)
    {calls : List SynchronisableCall}
    (hquiet : ∀ call ∈ calls, MadeAfterDestroy call)
    (hevents : .processEvents ∈ calls → ∀ event ∈ y.events, ¬ Changes event) :
    RestingDestroyed x (run y calls) := by
  induction calls generalizing y with
  | nil => exact hy
  | cons call calls ih =>
    obtain ⟨hfirst, hlater⟩ := List.forall_mem_cons.mp hquiet
    obtain ⟨hstep, hwaits⟩ := hy.step hfirst fun hcall =>
      hevents (hcall ▸ List.mem_cons_self)
    refine ih hstep hlater fun hprocess event hevent => ?_
    rcases hwaits event hevent with hbefore | hcalm
    · exact hevents (List.mem_cons_of_mem call hprocess) event hbefore
    · exact hcalm

/-- **After `set_destroyed`.** Whatever was called before, and whatever is called
after it until `set_activating`: the flag is not set. The status stays, and nobody is called,
if and only if no pending activation or deactivation is processed. -/
theorem setDestroyed_rested_iff (adaptors : List Adaptor) (before after : List SynchronisableCall)
    (hquiet : ∀ call ∈ after, MadeAfterDestroy call) :
    ¬ StaysDestroyed (run { adaptors } before).setDestroyed
        (run (run { adaptors } before).setDestroyed after) ∧
      (Rested (run { adaptors } before).setDestroyed
          (run (run { adaptors } before).setDestroyed after) ↔
        (.processEvents ∈ after →
          ∀ event ∈ (run { adaptors } before).events, ¬ Changes event)) := by
  have hflag : (run (run { adaptors } before).setDestroyed after).isDestroyed = false := by
    rw [run_isDestroyed]
    exact run_isDestroyed { adaptors } before
  refine ⟨fun hstays => Bool.false_ne_true (hflag.symm.trans hstays.isDestroyed), ?_⟩
  constructor
  · intro hrested hprocess event hevent hchange
    have hcalled := run_callbacks_lt (x := (run { adaptors } before).setDestroyed) hevent hchange
      hprocess
    rw [hrested.callbacks] at hcalled
    exact Nat.lt_irrefl _ hcalled
  · intro hcalm
    exact ((RestingDestroyed.setDestroyed _).run hquiet hcalm).rested

/-- An activation that has been processed, and one that is still queued, when the
synchronisable is destroyed. -/
theorem setDestroyed_rested_iff_queued :
    Rested (run { adaptors := [.listener] }
        [.setActivating, .enqueueActivation, .processEvents]).setDestroyed
      (run (run { adaptors := [.listener] }
        [.setActivating, .enqueueActivation, .processEvents]).setDestroyed [.processEvents]) ∧
    ¬ Rested (run { adaptors := [.listener] } [.setActivating, .enqueueActivation]).setDestroyed
      (run (run { adaptors := [.listener] } [.setActivating, .enqueueActivation]).setDestroyed
        [.processEvents]) := by
  constructor
  · have hprocessed := (setDestroyed_rested_iff [.listener]
      [.setActivating, .enqueueActivation, .processEvents] [.processEvents] (by decide)).2
    exact hprocessed.mpr fun _ _ hevent => absurd hevent List.not_mem_nil
  · intro hrested
    have hqueued := (setDestroyed_rested_iff [.listener] [.setActivating, .enqueueActivation]
      [.processEvents] (by decide)).2
    exact hqueued.mp hrested List.mem_cons_self .activated List.mem_cons_self (Or.inl rfl)

/-- The queued activation brings a destroyed synchronisable back. -/
theorem setDestroyed_revived :
    ¬ ∀ adaptors before after, (∀ call ∈ after, MadeAfterDestroy call) →
      StaysDestroyed (run { adaptors } before).setDestroyed
        (run (run { adaptors } before).setDestroyed after) := by
  intro hall
  have hstays := hall [.listener] [.setActivating, .enqueueActivation] [.processEvents]
    (by decide)
  have hcalls := hstays.rested.callbacks
  exact absurd hcalls (by decide)

end Showtime.ZstSynchronisable
