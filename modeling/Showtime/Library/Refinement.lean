import Showtime.Library.Run
/-!
# Refinement of runs

Every step of a fallible system asks something of an abstract one. If the two
agree after each step they agree after every run, on what the run has asked.
-/

namespace Showtime.Library

variable {State Event Error Abstract Request : Type*}

/-- What a run asks, step by step. -/
def requests (step : State → Event → Except Error State) (requestOf : State → Event → Request) :
    State → List Event → List Request
  | _, [] => []
  | s, event :: events =>
    requestOf s event ::
      match step s event with
      | .ok t => requests step requestOf t events
      | .error _ => []

section Rules

variable {step : State → Event → Except Error State} {requestOf : State → Event → Request}

theorem requests_cons_ok {s t : State} {event : Event} {events : List Event}
    (hstep : step s event = .ok t) :
    requests step requestOf s (event :: events) =
      requestOf s event :: requests step requestOf t events := by
  simp only [requests, hstep]

/-- A relation that every step keeps is kept by every run. -/
theorem run_refines (refines : State → Abstract → Prop) {condition : State → Event → Prop}
    {perform : Abstract → Request → Abstract}
    (hstep : ∀ s a event t, refines s a → condition s event → step s event = .ok t →
      refines t (perform a (requestOf s event)))
    {s t : State} {a : Abstract} {events : List Event} (hs : refines s a)
    (hcondition : Along step condition s events) (hrun : run step s events = .ok t) :
    refines t ((requests step requestOf s events).foldl perform a) := by
  induction events generalizing s a with
  | nil =>
    obtain rfl : s = t := by simpa using hrun
    exact hs
  | cons event events ih =>
    obtain ⟨u, hu, hrest⟩ := run_cons_ok.mp hrun
    rw [requests_cons_ok hu, List.foldl_cons]
    exact ih (hstep s a event u hs hcondition.1 hu) (hcondition.2 u hu) hrest

end Rules

end Showtime.Library
