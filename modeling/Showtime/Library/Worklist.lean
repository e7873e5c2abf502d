import Mathlib.Logic.Function.Iterate
/-!
# Work that makes more work

A call that makes other calls, as a list of tasks. A task changes the state and
leaves further tasks, which are done before the ones behind it, so the list is
what a call stack still has to do. Nothing bounds the depth of the calls.
-/

namespace Showtime.Library

variable {State Task : Type*}

structure Worklist (State Task : Type*) where
  state : State
  tasks : List Task

namespace Worklist

variable (perform : State → Task → State × List Task)

/-- The first task is done. -/
def step (s : Worklist State Task) : Worklist State Task :=
  match s.tasks with
  | [] => s
  | task :: tasks =>
    ⟨(perform s.state task).1, (perform s.state task).2 ++ tasks⟩

@[simp] theorem step_nil (x : State) : step perform ⟨x, []⟩ = ⟨x, []⟩ := rfl

@[simp] theorem step_cons (x : State) (task : Task) (tasks : List Task) :
    step perform ⟨x, task :: tasks⟩ =
      ⟨(perform x task).1, (perform x task).2 ++ tasks⟩ := rfl

/-- What holds of the first task, if there is one. -/
def Next (P : State → Task → Prop) (s : Worklist State Task) : Prop :=
  ∀ task ∈ s.tasks.head?, P s.state task

theorem next_nil {P : State → Task → Prop} (x : State) : Next P ⟨x, []⟩ := nofun

theorem next_cons {P : State → Task → Prop} {x : State} {task : Task} {tasks : List Task} :
    Next P ⟨x, task :: tasks⟩ ↔ P x task := by
  simp [Next]

section Invariant

variable {perform} {Inv Clear : Worklist State Task → Prop}

/-- What every step that meets the condition preserves. -/
theorem iterate_invariant (hstep : ∀ s, Inv s → Clear s → Inv (step perform s)) (n : Nat)
    {s : Worklist State Task} (hs : Inv s) (hclear : ∀ m < n, Clear ((step perform)^[m] s)) :
    Inv ((step perform)^[n] s) := by
  induction n with
  | zero => exact hs
  | succ n ih =>
    rw [Function.iterate_succ_apply']
    exact hstep _ (ih fun m hm => hclear m (by omega)) (hclear n (by omega))

/-- Where one step is good exactly under the condition, so is every run. -/
theorem iterate_iff {Good Fair : Worklist State Task → Prop}
    (hstep : ∀ s, Inv s → Clear s → Inv (step perform s)) (hgood : ∀ s, Inv s → Good s)
    (hexact : ∀ s, Inv s → (Good (step perform s) ∧ Fair s ↔ Clear s)) (n : Nat)
    {s : Worklist State Task} (hs : Inv s) :
    ((∀ m ≤ n, Good ((step perform)^[m] s)) ∧ ∀ m < n, Fair ((step perform)^[m] s)) ↔
      ∀ m < n, Clear ((step perform)^[m] s) := by
  constructor
  · rintro ⟨hall, hfair⟩ m hm
    induction m using Nat.strongRecOn with
    | ind m ih =>
      have hbefore := iterate_invariant hstep m hs fun l hl => ih l hl (by omega)
      have hnext := hall (m + 1) (by omega)
      rw [Function.iterate_succ_apply'] at hnext
      exact (hexact _ hbefore).mp ⟨hnext, hfair m hm⟩
  · intro hclear
    have hinv (m : Nat) (hm : m ≤ n) : Inv ((step perform)^[m] s) :=
      iterate_invariant hstep m hs fun l hl => hclear l (by omega)
    refine ⟨fun m hm => hgood _ (hinv m hm), fun m hm => ?_⟩
    exact ((hexact _ (hinv m (by omega))).mpr (hclear m hm)).2

end Invariant

section Tasks

variable {perform} {P : State → Prop} {C : Task → Prop}
  (hperform : ∀ x task, C task → P x → P (perform x task).1 ∧ ∀ next ∈ (perform x task).2, C next)

include hperform

/-- What every task preserves, as long as it only leaves tasks of the same kind. -/
theorem iterate_tasks (n : Nat) {x : State} {tasks : List Task} (hx : P x)
    (htasks : ∀ task ∈ tasks, C task) :
    P ((step perform)^[n] ⟨x, tasks⟩).state ∧ ∀ task ∈ ((step perform)^[n] ⟨x, tasks⟩).tasks,
      C task := by
  have hstep (s : Worklist State Task) (hs : P s.state ∧ ∀ task ∈ s.tasks, C task) (_ : True) :
      P (step perform s).state ∧ ∀ task ∈ (step perform s).tasks, C task := by
    obtain ⟨x, tasks⟩ := s
    cases tasks with
    | nil => exact hs
    | cons task tasks =>
      obtain ⟨hdone, hnew⟩ := hperform x task (hs.2 task (List.mem_cons_self ..)) hs.1
      refine ⟨hdone, fun next hnext => ?_⟩
      rcases List.mem_append.mp hnext with hnext | hnext
      · exact hnew next hnext
      · exact hs.2 next (List.mem_cons_of_mem task hnext)
  exact iterate_invariant hstep n ⟨hx, htasks⟩ fun _ _ => trivial

/-- A fold that goes deeper for the further tasks preserves it as well. -/
theorem eval_tasks {eval : Nat → State → Task → State}
    (hzero : ∀ x task, C task → P x → P (eval 0 x task))
    (heval : ∀ depth x task,
      eval (depth + 1) x task = (perform x task).2.foldl (eval depth) (perform x task).1)
    (depth : Nat) {x : State} {task : Task} (htask : C task) (hx : P x) :
    P (eval depth x task) := by
  induction depth generalizing x task with
  | zero => exact hzero x task htask hx
  | succ depth ih =>
    obtain ⟨hdone, hnew⟩ := hperform x task htask hx
    rw [heval]
    exact List.foldlRecOn (motive := P) _ _ hdone fun y hy next hnext => ih (hnew next hnext) hy

end Tasks

/-- The tasks are done in so many steps. -/
def Ends (n : Nat) (x : State) (tasks : List Task) (y : State) : Prop :=
  (step perform)^[n] ⟨x, tasks⟩ = ⟨y, []⟩

variable {perform} {x y : State} {tasks : List Task} {n : Nat}

theorem iterate_nil (n : Nat) (x : State) : (step perform)^[n] ⟨x, []⟩ = ⟨x, []⟩ :=
  Function.iterate_fixed (step_nil perform x) n

theorem Ends.of_nil (hends : Ends perform n x [] y) : y = x := by
  unfold Ends at hends
  rw [iterate_nil] at hends
  exact (congrArg state hends).symm

theorem Ends.cons {task : Task} (hends : Ends perform n x (task :: tasks) y) :
    ∃ m < n, Ends perform m (perform x task).1 ((perform x task).2 ++ tasks) y := by
  cases n with
  | zero => cases hends
  | succ n => exact ⟨n, by omega, hends⟩

/-- What ends does the first tasks before the others. -/
theorem Ends.split {first : List Task} (hends : Ends perform n x (first ++ tasks) y) :
    ∃ z, ∃ l ≤ n, ∃ m ≤ n, Ends perform l x first z ∧ Ends perform m z tasks y := by
  induction n using Nat.strongRecOn generalizing x first with
  | ind n ih =>
    cases first with
    | nil => exact ⟨x, 0, by omega, n, by omega, rfl, hends⟩
    | cons task first =>
      rw [List.cons_append] at hends
      obtain ⟨m, hm, hrest⟩ := hends.cons
      rw [← List.append_assoc] at hrest
      obtain ⟨z, l, hl, i, hi, hfirst, hlast⟩ := ih m hm hrest
      exact ⟨z, l + 1, by omega, i, by omega, hfirst, hlast⟩

/-- A fold that does a task as its further tasks, only deeper, does what the
worklist does, if it may go deep enough. -/
theorem Ends.foldl_eq {eval : Nat → State → Task → State}
    (heval : ∀ depth x task,
      eval (depth + 1) x task = (perform x task).2.foldl (eval depth) (perform x task).1)
    (hends : Ends perform n x tasks y) {depth : Nat} (hdepth : n ≤ depth) :
    tasks.foldl (eval depth) x = y := by
  induction n using Nat.strongRecOn generalizing x y tasks depth with
  | ind n ih =>
    cases tasks with
    | nil => exact hends.of_nil.symm
    | cons task tasks =>
      obtain ⟨m, hm, hrest⟩ := hends.cons
      obtain ⟨z, l, hl, i, hi, hfirst, hlast⟩ := hrest.split
      obtain ⟨deep, rfl⟩ : ∃ deep, depth = deep + 1 := ⟨depth - 1, by omega⟩
      rw [List.foldl_cons, heval, ih l (by omega) hfirst (by omega)]
      exact ih i (by omega) hlast (by omega)

end Worklist

end Showtime.Library
