import Mathlib.Data.List.Basic
import Showtime.Library.Run
/-!
# The stage's event loop

Any thread may defer an event: it puts the event into a dispatcher's queue and
then notifies the semaphore that the event loop waits on. A step is what one
thread does between two points where another one can come in. The semaphore's
count is a natural number: it stays far below the range of an `int`.
-/

namespace Showtime.EventLoop

open Library

/-- The dispatchers whose queues the event loop drains. -/
inductive Dispatcher
  | hierarchyRouter | hierarchyEvents | hierarchySynchronisable
  | sessionEvents | computeEvents | sessionSynchronisable | sessionRouter | logEvents
  deriving DecidableEq, Repr

/-- Which dispatchers `ZstStageSession::set_wake_condition` and
`ZstStageHierarchy::set_wake_condition` give the semaphore to. -/
def Dispatcher.hasWakeCondition : Dispatcher → Bool
  | .hierarchyRouter | .hierarchyEvents | .hierarchySynchronisable => true
  | .sessionEvents | .sessionSynchronisable | .sessionRouter => true
  | .computeEvents | .logEvents => false

/-- What the loop does in a pass: it processes a dispatcher's events, or reaps. -/
inductive Chore
  | process (dispatcher : Dispatcher)
  | reapAll
  deriving DecidableEq, Repr

/-- `ZstStageHierarchy::process_events`. -/
def hierarchyChores : List Chore :=
  [.process .hierarchyRouter, .process .hierarchyEvents, .process .hierarchySynchronisable, .reapAll]

/-- `ZstStageSession::process_events`, which processes the hierarchy twice. -/
def sessionChores : List Chore :=
  hierarchyChores ++
    [.process .sessionEvents, .process .computeEvents, .process .sessionSynchronisable, .reapAll] ++
    [.process .sessionRouter] ++ hierarchyChores

/-- `ZstStage::process_events`. -/
def stageChores : List Chore :=
  sessionChores ++ [.process .logEvents]

inductive Thread
  | eventLoop
  | other (n : Nat)
  deriving DecidableEq, Repr

/-- Where the event loop is. -/
inductive Position
  /-- In `wait`, about to look at the count. -/
  | waiting
  /-- In `wait`, inside `cv.wait`. -/
  | asleep
  /-- In a pass, between two events, with the chores that are left. -/
  | passing (chores : List Chore)
  /-- In an event's handler or in the reaper's callbacks. -/
  | handling (chores : List Chore)
  | exited
  deriving DecidableEq, Repr

def Position.isHandling : Position → Bool
  | .handling _ => true
  | .waiting | .asleep | .passing _ | .exited => false

structure Stage (Event : Type) where
  queues : Dispatcher → List Event := fun _ => []
  /-- `ZstSemaphore::count`. -/
  count : Nat := 0
  position : Position := .waiting
  /-- The dispatcher on which a thread has enqueued and not yet notified. -/
  deferring : Thread → Option Dispatcher := fun _ => none
  isDestroyed : Bool := false

inductive LoopStep (Event : Type)
  | enqueue (thread : Thread) (dispatcher : Dispatcher) (event : Event)
  | notify (thread : Thread)
  | wait
  | spuriousWakeup
  | continuePass
  | handled
  | destroy

variable {Event : Type}

namespace Stage

/-- `ZstSemaphore::notify`. -/
def semaphoreNotify (s : Stage Event) : Stage Event :=
  { s with
    count := s.count + 1
    position := if s.position = .asleep then .waiting else s.position }

/-- The event loop's thread defers only from what it handles. -/
def mayDefer (s : Stage Event) : Thread → Bool
  | .eventLoop => s.position.isHandling
  | .other _ => true

/-- `defer` up to and including the enqueue. -/
def enqueue (s : Stage Event) (thread : Thread) (dispatcher : Dispatcher) (event : Event) :
    Except Unit (Stage Event) :=
  if s.mayDefer thread ∧ s.deferring thread = none then
    .ok { s with
          queues := Function.update s.queues dispatcher (s.queues dispatcher ++ [event])
          deferring := Function.update s.deferring thread (some dispatcher) }
  else .error ()

/-- The rest of `defer`: `notify` does nothing without a wake condition. -/
def notify (s : Stage Event) (thread : Thread) : Except Unit (Stage Event) :=
  match s.deferring thread with
  | none => .error ()
  | some dispatcher =>
    let s := { s with deferring := Function.update s.deferring thread none }
    .ok (if dispatcher.hasWakeCondition then s.semaphoreNotify else s)

/-- `ZstSemaphore::wait` looks at the count, and `event_loop` goes on from there. -/
def wait (s : Stage Event) : Except Unit (Stage Event) :=
  if s.position = .waiting then
    if s.count = 0 then .ok { s with position := .asleep }
    else .ok { s with
               count := s.count - 1
               position := if s.isDestroyed then .exited else .passing stageChores }
  else .error ()

/-- The next event of the queue that is being processed, or the next chore. -/
def continuePass (s : Stage Event) : Except Unit (Stage Event) :=
  match s.position with
  | .passing [] => .ok { s with position := .waiting }
  | .passing (.reapAll :: chores) => .ok { s with position := .handling chores }
  | .passing (.process dispatcher :: chores) =>
    match s.queues dispatcher with
    | [] => .ok { s with position := .passing chores }
    | _ :: events =>
      .ok { s with
            queues := Function.update s.queues dispatcher events
            position := .handling (.process dispatcher :: chores) }
  | _ => .error ()

/-- A handler returns once it has finished its own defers. -/
def handled (s : Stage Event) : Except Unit (Stage Event) :=
  match s.position with
  | .handling chores =>
    if s.deferring .eventLoop = none then .ok { s with position := .passing chores } else .error ()
  | _ => .error ()

/-- `ZstStage::destroy`. -/
def destroy (s : Stage Event) : Stage Event :=
  { s with isDestroyed := true }.semaphoreNotify

def step (s : Stage Event) : LoopStep Event → Except Unit (Stage Event)
  | .enqueue thread dispatcher event => s.enqueue thread dispatcher event
  | .notify thread => s.notify thread
  | .wait => s.wait
  | .spuriousWakeup =>
    if s.position = .asleep then .ok { s with position := .waiting } else .error ()
  | .continuePass => s.continuePass
  | .handled => s.handled
  | .destroy => .ok s.destroy

end Stage

/-! ## Why no event is left behind -/

/-- The chores that are left in the pass. -/
def Position.chores : Position → List Chore
  | .passing chores | .handling chores => chores
  | .waiting | .asleep | .exited => []

/-- Every event in a queue is accounted for: its dispatcher is still to be
processed in this pass, or the semaphore has a unit for another one, or will get it. -/
structure Covered (s : Stage Event) : Prop where
  covered : ∀ d : Dispatcher, d.hasWakeCondition → s.queues d ≠ [] → s.position ≠ .exited →
    0 < s.count ∨ (∃ t d', s.deferring t = some d' ∧ d'.hasWakeCondition) ∨
      .process d ∈ s.position.chores
  asleep : s.position = .asleep → s.count = 0

theorem mem_stageChores (d : Dispatcher) : .process d ∈ stageChores := by
  cases d <;> decide

theorem covered_opened : Covered ({} : Stage Event) where
  covered _ _ hne := absurd rfl hne
  asleep _ := rfl

section Steps

variable {s t : Stage Event}

theorem covered_semaphoreNotify (s : Stage Event) : Covered s.semaphoreNotify where
  covered _ _ _ _ := Or.inl (Nat.succ_pos s.count)
  asleep hasleep := by
    unfold Stage.semaphoreNotify at hasleep
    dsimp only at hasleep
    split at hasleep
    · cases hasleep
    · contradiction

theorem covered_enqueue (hs : Covered s) {thread : Thread} {dispatcher : Dispatcher} {event : Event}
    (hstep : s.enqueue thread dispatcher event = .ok t) : Covered t := by
  unfold Stage.enqueue at hstep
  split at hstep
  case isFalse => cases hstep
  rename_i hmay
  obtain rfl := Except.ok.inj hstep
  refine ⟨fun d hd hne hexited => ?_, hs.asleep⟩
  have hkept : ∀ {u d'}, s.deferring u = some d' →
      Function.update s.deferring thread (some dispatcher) u = some d' := fun {u d'} hu => by
    rw [Function.update_of_ne, hu]
    rintro rfl
    rw [hmay.2] at hu
    cases hu
  by_cases heq : d = dispatcher
  · subst heq
    exact Or.inr (Or.inl ⟨thread, d, Function.update_self .., hd⟩)
  · have hsame : s.queues d ≠ [] := by
      dsimp only at hne
      rwa [Function.update_of_ne heq] at hne
    rcases hs.covered d hd hsame hexited with hcount | ⟨u, d', hu, hd'⟩ | hchore
    · exact Or.inl hcount
    · exact Or.inr (Or.inl ⟨u, d', hkept hu, hd'⟩)
    · exact Or.inr (Or.inr hchore)

theorem covered_notify (hs : Covered s) {thread : Thread} (hstep : s.notify thread = .ok t) :
    Covered t := by
  unfold Stage.notify at hstep
  split at hstep
  · cases hstep
  · rename_i dispatcher hthread
    obtain rfl := Except.ok.inj hstep
    by_cases hwake : dispatcher.hasWakeCondition
    · rw [if_pos hwake]
      exact covered_semaphoreNotify _
    · rw [if_neg hwake]
      refine ⟨fun d hd hne hexited => ?_, hs.asleep⟩
      rcases hs.covered d hd hne hexited with hcount | ⟨u, d', hu, hd'⟩ | hchore
      · exact Or.inl hcount
      · refine Or.inr (Or.inl ⟨u, d', ?_, hd'⟩)
        dsimp only
        rw [Function.update_of_ne, hu]
        rintro rfl
        obtain rfl := Option.some.inj (hthread.symm.trans hu)
        exact hwake hd'
      · exact Or.inr (Or.inr hchore)

theorem covered_wait (hs : Covered s) (hstep : s.wait = .ok t) : Covered t := by
  unfold Stage.wait at hstep
  split at hstep
  case isFalse => cases hstep
  rename_i hwaiting
  split at hstep
  · rename_i hzero
    obtain rfl := Except.ok.inj hstep
    refine ⟨fun d hd hne _ => ?_, fun _ => hzero⟩
    have hcovered := hs.covered d hd hne (by rw [hwaiting]; exact Position.noConfusion)
    rwa [hwaiting] at hcovered
  · obtain rfl := Except.ok.inj hstep
    by_cases hdestroyed : s.isDestroyed
    · simp only [hdestroyed, if_true]
      exact ⟨fun _ _ _ hexited => absurd rfl hexited, fun h => Position.noConfusion h⟩
    · simp only [hdestroyed]
      exact ⟨fun d _ _ _ => Or.inr (Or.inr (mem_stageChores d)), fun h => Position.noConfusion h⟩

theorem covered_continuePass (hs : Covered s) (hstep : s.continuePass = .ok t) : Covered t := by
  unfold Stage.continuePass at hstep
  split at hstep
  · rename_i hposition
    obtain rfl := Except.ok.inj hstep
    refine ⟨fun d hd hne _ => ?_, fun h => Position.noConfusion h⟩
    have hcovered := hs.covered d hd hne (by rw [hposition]; exact Position.noConfusion)
    rwa [hposition] at hcovered
  · rename_i chores hposition
    obtain rfl := Except.ok.inj hstep
    refine ⟨fun d hd hne _ => ?_, fun h => Position.noConfusion h⟩
    have hcovered := hs.covered d hd hne (by rw [hposition]; exact Position.noConfusion)
    rw [hposition] at hcovered
    exact hcovered.imp_right (Or.imp_right fun hmem => List.mem_of_ne_of_mem (by simp) hmem)
  · rename_i dispatcher chores hposition
    have hlive : s.position ≠ .exited := by
      rw [hposition]
      exact Position.noConfusion
    split at hstep
    · rename_i hempty
      obtain rfl := Except.ok.inj hstep
      refine ⟨fun d hd hne _ => ?_, fun h => Position.noConfusion h⟩
      have hcovered := hs.covered d hd hne hlive
      rw [hposition] at hcovered
      -- the chore that is over was for a queue that is empty
      refine hcovered.imp_right (Or.imp_right fun hmem => List.mem_of_ne_of_mem ?_ hmem)
      rintro heq
      obtain rfl := Chore.process.inj heq
      exact hne hempty
    · rename_i first events hqueue
      obtain rfl := Except.ok.inj hstep
      refine ⟨fun d hd hne _ => ?_, fun h => Position.noConfusion h⟩
      by_cases heq : d = dispatcher
      · subst heq
        exact Or.inr (Or.inr List.mem_cons_self)
      · have hsame : s.queues d ≠ [] := by
          dsimp only at hne
          rwa [Function.update_of_ne heq] at hne
        have hcovered := hs.covered d hd hsame hlive
        rwa [hposition] at hcovered
  · cases hstep

theorem covered_handled (hs : Covered s) (hstep : s.handled = .ok t) : Covered t := by
  unfold Stage.handled at hstep
  split at hstep
  · rename_i chores hposition
    split at hstep
    case isFalse => cases hstep
    obtain rfl := Except.ok.inj hstep
    refine ⟨fun d hd hne _ => ?_, fun h => Position.noConfusion h⟩
    have hcovered := hs.covered d hd hne (by rw [hposition]; exact Position.noConfusion)
    rwa [hposition] at hcovered
  · cases hstep

theorem covered_step (hs : Covered s) {event : LoopStep Event} (hstep : s.step event = .ok t) :
    Covered t := by
  cases event with
  | enqueue thread dispatcher event => exact covered_enqueue hs hstep
  | notify thread => exact covered_notify hs hstep
  | wait => exact covered_wait hs hstep
  | spuriousWakeup =>
    simp only [Stage.step] at hstep
    split at hstep
    case isFalse => cases hstep
    rename_i hasleep
    obtain rfl := Except.ok.inj hstep
    refine ⟨fun d hd hne _ => ?_, fun h => Position.noConfusion h⟩
    have hcovered := hs.covered d hd hne (by rw [hasleep]; exact Position.noConfusion)
    rwa [hasleep] at hcovered
  | continuePass => exact covered_continuePass hs hstep
  | handled => exact covered_handled hs hstep
  | destroy =>
    obtain rfl := Except.ok.inj hstep
    exact covered_semaphoreNotify _

end Steps

theorem covered_run {events : List (LoopStep Event)} {s : Stage Event}
    (hrun : run Stage.step {} events = .ok s) : Covered s :=
  run_invariant (fun _ _ _ hs _ hstep => covered_step hs hstep) covered_opened
    (along_of_forall fun _ _ _ _ _ _ => trivial) hrun

/-! ## The result -/

/-- The loop is in `wait` and finds the count zero. -/
def Blocked (s : Stage Event) : Prop :=
  (s.position = .waiting ∨ s.position = .asleep) ∧ s.count = 0

/-- When the loop is blocked and nobody is in the middle of `defer`, no event is
in a queue that has a wake condition; and the loop sleeps only with count zero. -/
theorem queues_empty_of_blocked (events : List (LoopStep Event)) {s : Stage Event}
    (hrun : run Stage.step {} events = .ok s) :
    (s.position = .asleep → s.count = 0) ∧
      (Blocked s → (∀ thread, s.deferring thread = none) →
        ∀ d : Dispatcher, d.hasWakeCondition → s.queues d = []) := by
  have hs := covered_run hrun
  refine ⟨hs.asleep, fun hblocked hnone d hd => ?_⟩
  obtain ⟨hposition, hzero⟩ := hblocked
  by_contra hne
  have hchores : s.position ≠ .exited ∧ s.position.chores = [] := by
    rcases hposition with h | h
    · rw [h]
      exact ⟨Position.noConfusion, rfl⟩
    · rw [h]
      exact ⟨Position.noConfusion, rfl⟩
  rcases hs.covered d hd hne hchores.1 with hcount | ⟨u, d', hu, -⟩ | hchore
  · omega
  · rw [hnone u] at hu
    cases hu
  · rw [hchores.2] at hchore
    exact absurd hchore List.not_mem_nil

/-- The steps of `ZstHierarchy::process_events` when nothing is queued. -/
def emptyHierarchy : List (LoopStep Nat) :=
  List.replicate 4 .continuePass ++ [.handled]

/-- A thread defers an event whose handler defers another one, and the loop goes
through its pass twice. -/
def deferredTwice : List (LoopStep Nat) :=
  [.enqueue (.other 0) .sessionEvents 7, .notify (.other 0), .wait] ++ emptyHierarchy ++
    [.continuePass, .enqueue .eventLoop .hierarchyRouter 8, .notify .eventLoop, .handled] ++
    emptyHierarchy ++ [.continuePass] ++ [.continuePass, .handled] ++ emptyHierarchy ++
    List.replicate 2 .continuePass ++ [.wait] ++ emptyHierarchy ++ emptyHierarchy ++
    [.continuePass] ++ emptyHierarchy ++ List.replicate 2 .continuePass ++ [.wait]

theorem queues_empty_of_blocked_deferredTwice : ∃ s : Stage Nat,
    run Stage.step {} deferredTwice = .ok s ∧ s.position = .asleep ∧
      ∀ d : Dispatcher, d.hasWakeCondition → s.queues d = [] :=
  ⟨_, rfl, rfl, (queues_empty_of_blocked deferredTwice rfl).2 ⟨Or.inr rfl, rfl⟩
    fun thread => by
      cases thread with
      | eventLoop => rfl
      | other n => cases n with
        | zero => rfl
        | succ n => rfl⟩

end Showtime.EventLoop
