import Mathlib.Data.List.Basic
/-!
# Deferred readers of an overwritten cell

Every write puts a value into a cell and queues one observation of it. The
observations run later, and see what the cell holds then. They see the values
that were written, each once and in order, exactly if no two values that differ
wait at the same time when an observation runs.
-/

namespace Showtime.Library

variable {Value : Type*}

inductive CellEvent (Value : Type*)
  | write (value : Value)
  | observe

/-- The values that were written. -/
def writes : List (CellEvent Value) → List Value
  | [] => []
  | .write value :: events => value :: writes events
  | .observe :: events => writes events

/-- What the observations see, in a cell that holds `current`. -/
def observations : Value → List (CellEvent Value) → List Value
  | _, [] => []
  | _, .write value :: events => observations value events
  | current, .observe :: events => current :: observations current events

/-- The written values whose observation has not run, in a schedule in which
every observation has a write that queued it. -/
def waiting : List Value → List (CellEvent Value) → Option (List Value)
  | pending, [] => some pending
  | pending, .write value :: events => waiting (pending ++ [value]) events
  | [], .observe :: _ => none
  | _ :: pending, .observe :: events => waiting pending events

/-- Whenever an observation runs, the values that wait for one are all the same. -/
def Steady : List Value → List (CellEvent Value) → Prop
  | _, [] => True
  | pending, .write value :: events => Steady (pending ++ [value]) events
  | pending, .observe :: events =>
    (∀ v ∈ pending, ∀ w ∈ pending, v = w) ∧ Steady pending.tail events

instance decidableSteady [DecidableEq Value] :
    ∀ (pending : List Value) (events : List (CellEvent Value)), Decidable (Steady pending events)
  | _, [] => isTrue trivial
  | pending, .write value :: events => decidableSteady (pending ++ [value]) events
  | pending, .observe :: events =>
    haveI := decidableSteady pending.tail events
    inferInstanceAs (Decidable (_ ∧ _))

/-- If everything is observed in the end, the values that wait are the same
already before the next observation. -/
theorem Steady.pending_eq {events : List (CellEvent Value)} {pending : List Value}
    (hsteady : Steady pending events) (hdrained : waiting pending events = some []) :
    ∀ v ∈ pending, ∀ w ∈ pending, v = w := by
  induction events generalizing pending with
  | nil =>
    obtain rfl : pending = [] := Option.some.inj hdrained
    simp
  | cons event events ih =>
    cases event with
    | write value =>
      intro v hv w hw
      exact ih hsteady hdrained v (List.mem_append_left _ hv) w (List.mem_append_left _ hw)
    | observe => exact hsteady.1

/-- The observations see what was written exactly in a steady schedule. -/
theorem observations_eq_iff {events : List (CellEvent Value)} {pending : List Value}
    {current : Value} (hcurrent : ∀ h : pending ≠ [], pending.getLast h = current)
    (hdrained : waiting pending events = some []) :
    observations current events = pending ++ writes events ↔ Steady pending events := by
  induction events generalizing pending current with
  | nil =>
    obtain rfl : pending = [] := Option.some.inj hdrained
    simp [observations, writes, Steady]
  | cons event events ih =>
    cases event with
    | write value =>
      have hlast : ∀ h : pending ++ [value] ≠ [], (pending ++ [value]).getLast h = value := by
        simp
      rw [observations, writes, Steady, ← ih hlast hdrained, List.append_assoc]
      rfl
    | observe =>
      cases pending with
      | nil => cases hdrained
      | cons first pending =>
        have htail : ∀ h : pending ≠ [], pending.getLast h = current := by
          intro h
          rw [← hcurrent (List.cons_ne_nil _ _), List.getLast_cons h]
        rw [observations, writes, Steady, List.cons_append, List.cons.injEq, ih htail hdrained,
          List.tail_cons]
        refine ⟨fun ⟨hfirst, hsteady⟩ => ⟨?_, hsteady⟩, fun ⟨hsame, hsteady⟩ => ⟨?_, hsteady⟩⟩
        · have hpending := hsteady.pending_eq hdrained
          have hall : ∀ v ∈ first :: pending, v = current := by
            intro v hv
            rcases List.mem_cons.mp hv with rfl | hv
            · exact hfirst.symm
            · rw [← htail (List.ne_nil_of_mem hv)]
              exact hpending v hv _ (List.getLast_mem _)
          intro v hv w hw
          rw [hall v hv, hall w hw]
        · rw [← hcurrent (List.cons_ne_nil _ _)]
          exact hsame _ (List.getLast_mem _) _ List.mem_cons_self

theorem waiting_writes (values pending : List Value) (events : List (CellEvent Value)) :
    waiting pending (values.map .write ++ events) = waiting (pending ++ values) events := by
  induction values generalizing pending with
  | nil => simp
  | cons value values ih =>
    rw [List.map_cons, List.cons_append, waiting, ih, List.append_assoc]
    rfl

theorem observations_replicate (count : Nat) (value current : Value)
    (events : List (CellEvent Value)) :
    observations current ((List.replicate count value).map .write ++ events) =
      observations (if count = 0 then current else value) events := by
  induction count generalizing current with
  | zero => rfl
  | succ count ih =>
    rw [List.replicate_succ, List.map_cons, List.cons_append, observations, ih]
    simp

theorem writes_append (first second : List (CellEvent Value)) :
    writes (first ++ second) = writes first ++ writes second := by
  induction first with
  | nil => rfl
  | cons event first ih => cases event <;> simp [writes, ih]

theorem writes_map_write (values : List Value) :
    writes (values.map CellEvent.write) = values := by
  induction values with
  | nil => rfl
  | cons value values ih => simp [writes, ih]

/-- There are as many observations as writes, but for those that wait. -/
theorem length_observations (current : Value) {events : List (CellEvent Value)}
    {pending rest : List Value} (hwaiting : waiting pending events = some rest) :
    (observations current events).length + rest.length =
      pending.length + (writes events).length := by
  induction events generalizing pending current with
  | nil =>
    obtain rfl := Option.some.inj hwaiting
    simp [observations, writes]
  | cons event events ih =>
    cases event with
    | write value =>
      have hstep := ih value hwaiting
      rw [List.length_append, List.length_singleton] at hstep
      rw [observations, writes, List.length_cons]
      omega
    | observe =>
      cases pending with
      | nil => cases hwaiting
      | cons first pending =>
        have hstep := ih current hwaiting
        rw [observations, writes, List.length_cons, List.length_cons]
        omega

end Showtime.Library
