import Mathlib.Data.List.Induction
import Mathlib.Logic.Function.Basic
/-!
# Runs of a fallible system

A system is a step function that takes an event and may fail. These are the
rules for what holds along its runs: an invariant of every step is an
invariant of every run, if need be only for runs whose steps all meet a
condition, and a fact that mentions the history of events is proved one event
at a time.
-/

namespace Showtime.Library

variable {State Event Error : Type*}

/-- The state after the events, if none of them fails. -/
def run (step : State → Event → Except Error State) (s : State) (events : List Event) :
    Except Error State :=
  events.foldlM step s

/-- Every step of the run from `s` meets the condition. -/
def Along (step : State → Event → Except Error State) (condition : State → Event → Prop) :
    State → List Event → Prop
  | _, [] => True
  | s, event :: events =>
    condition s event ∧ ∀ t, step s event = .ok t → Along step condition t events

/-- A sequence of two fallible computations succeeds if both of them do. -/
theorem bind_ok.{u, v} {Error : Type u} {First Second : Type v} {x : Except Error First}
    {f : First → Except Error Second} {b : Second} :
    x >>= f = .ok b ↔ ∃ a, x = .ok a ∧ f a = .ok b := by
  cases x with
  | error fault => simp [bind, Except.bind]
  | ok a => simp [bind, Except.bind]

section Rules

variable {step : State → Event → Except Error State}

@[simp] theorem run_nil (s : State) : run step s [] = .ok s := rfl

theorem run_cons_ok {s t : State} {event : Event} {events : List Event} :
    run step s (event :: events) = .ok t ↔
      ∃ u, step s event = .ok u ∧ run step u events = .ok t := by
  unfold run
  rw [List.foldlM_cons]
  cases step s event with
  | error fault => simp [bind, Except.bind]
  | ok u => simp [bind, Except.bind]

theorem run_append_ok {s t : State} {first second : List Event} :
    run step s (first ++ second) = .ok t ↔
      ∃ u, run step s first = .ok u ∧ run step u second = .ok t := by
  induction first generalizing s with
  | nil => simp
  | cons event first ih =>
    rw [List.cons_append, run_cons_ok]
    constructor
    · rintro ⟨u, hstep, hrest⟩
      obtain ⟨w, hfirst, hsecond⟩ := ih.mp hrest
      exact ⟨w, run_cons_ok.mpr ⟨u, hstep, hfirst⟩, hsecond⟩
    · rintro ⟨w, hfirst, hsecond⟩
      obtain ⟨u, hstep, hrest⟩ := run_cons_ok.mp hfirst
      exact ⟨u, hstep, ih.mpr ⟨w, hrest, hsecond⟩⟩

theorem run_concat_ok {s t : State} {events : List Event} {event : Event} :
    run step s (events ++ [event]) = .ok t ↔
      ∃ u, run step s events = .ok u ∧ step u event = .ok t := by
  rw [run_append_ok]
  constructor
  · rintro ⟨u, hrun, hlast⟩
    obtain ⟨w, hstep, hnil⟩ := run_cons_ok.mp hlast
    obtain rfl : w = t := by simpa using hnil
    exact ⟨u, hrun, hstep⟩
  · rintro ⟨u, hrun, hstep⟩
    exact ⟨u, hrun, run_cons_ok.mpr ⟨t, hstep, run_nil t⟩⟩

theorem along_cons_of_ok {condition : State → Event → Prop} {s u : State} {event : Event}
    {events : List Event} (hstep : step s event = .ok u) :
    Along step condition s (event :: events) ↔
      condition s event ∧ Along step condition u events := by
  refine and_congr_right fun _ => ⟨fun h => h u hstep, fun h t ht => ?_⟩
  obtain rfl : u = t := Except.ok.inj (hstep.symm.trans ht)
  exact h

theorem along_cons_of_error {condition : State → Event → Prop} {s : State} {event : Event}
    {events : List Event} {fault : Error} (hstep : step s event = .error fault) :
    Along step condition s (event :: events) ↔ condition s event := by
  refine and_iff_left fun t ht => ?_
  rw [hstep] at ht
  cases ht

/-- A run meets the condition if its first part does, and the rest from there on. -/
theorem along_append {condition : State → Event → Prop} {s : State} {first second : List Event} :
    Along step condition s (first ++ second) ↔
      Along step condition s first ∧
        ∀ u, run step s first = .ok u → Along step condition u second := by
  induction first generalizing s with
  | nil => simp [Along]
  | cons event first ih =>
    rw [List.cons_append]
    constructor
    · rintro ⟨hnow, hlater⟩
      refine ⟨⟨hnow, fun t ht => (ih.mp (hlater t ht)).1⟩, fun u hu => ?_⟩
      obtain ⟨t, ht, hrest⟩ := run_cons_ok.mp hu
      exact (ih.mp (hlater t ht)).2 u hrest
    · rintro ⟨⟨hnow, hfirst⟩, hsecond⟩
      exact ⟨hnow, fun t ht => ih.mpr
        ⟨hfirst t ht, fun u hu => hsecond u (run_cons_ok.mpr ⟨t, ht, hu⟩)⟩⟩

/-- The condition holds of the step that follows a part of the run. -/
theorem along_append_cons {condition : State → Event → Prop} {s u : State}
    {first second : List Event} {event : Event}
    (hcondition : Along step condition s (first ++ event :: second))
    (hrun : run step s first = .ok u) : condition u event :=
  ((along_append.mp hcondition).2 u hrun).1

/-- The condition holds along a run if it holds of every step of it. -/
theorem along_of_forall {condition : State → Event → Prop} {s : State} {events : List Event}
    (hevery : ∀ first event last u, events = first ++ event :: last →
      run step s first = .ok u → condition u event) : Along step condition s events := by
  induction events generalizing s with
  | nil => trivial
  | cons event events ih =>
    refine ⟨hevery [] event events s rfl rfl, fun t ht => ih fun first later last u hsplit hrun => ?_⟩
    subst hsplit
    exact hevery (event :: first) later last u rfl (run_cons_ok.mpr ⟨t, ht, hrun⟩)

/-- Whether the steps of a run meet a decidable condition can be computed. -/
instance decidableAlong {condition : State → Event → Prop}
    [∀ s event, Decidable (condition s event)] :
    ∀ (s : State) (events : List Event), Decidable (Along step condition s events)
  | _, [] => isTrue trivial
  | s, event :: events =>
    match hstep : step s event with
    | .ok u =>
      haveI : Decidable (Along step condition u events) := decidableAlong u events
      decidable_of_iff _ (along_cons_of_ok hstep).symm
    | .error _ => decidable_of_iff _ (along_cons_of_error hstep).symm

/-- The invariant rule, for runs whose steps all meet a condition. -/
theorem run_invariant {invariant : State → Prop} {condition : State → Event → Prop}
    (hstep : ∀ s event t, invariant s → condition s event → step s event = .ok t → invariant t)
    {s t : State} {events : List Event} (hs : invariant s)
    (hcondition : Along step condition s events) (hrun : run step s events = .ok t) :
    invariant t := by
  induction events generalizing s with
  | nil =>
    obtain rfl : s = t := by simpa using hrun
    exact hs
  | cons event events ih =>
    obtain ⟨u, hu, hrest⟩ := run_cons_ok.mp hrun
    exact ih (hstep s event u hs hcondition.1 hu) (hcondition.2 u hu) hrest

/-- What every step from an invariant state meets, every run from there meets
along its way, if need be under a condition that the run meets. -/
theorem along_of_invariant (invariant : State → Prop) {condition conclusion : State → Event → Prop}
    (hstep : ∀ s event t, invariant s → condition s event → step s event = .ok t → invariant t)
    (hconclusion : ∀ s event, invariant s → condition s event → conclusion s event)
    {s : State} {events : List Event} (hs : invariant s)
    (hcondition : Along step condition s events) : Along step conclusion s events := by
  induction events generalizing s with
  | nil => trivial
  | cons event events ih =>
    refine ⟨hconclusion s event hs hcondition.1, fun t ht => ?_⟩
    exact ih (hstep s event t hs hcondition.1 ht) (hcondition.2 t ht)

/-- The rule for what holds until an event that ends it: there is a first such
event in the run, or it still holds. -/
theorem run_until {invariant held : State → Prop} {ends : State → Event → Prop}
    (hstep : ∀ s event t, invariant s → step s event = .ok t → invariant t)
    (hheld : ∀ s event t, invariant s → held s → step s event = .ok t → ends s event ∨ held t)
    {s t : State} {events : List Event} (hs : invariant s) (hheldFirst : held s)
    (hrun : run step s events = .ok t) :
    (∃ first event last u, events = first ++ event :: last ∧ run step s first = .ok u ∧
      ends u event) ∨ held t := by
  induction events generalizing s with
  | nil =>
    obtain rfl : s = t := by simpa using hrun
    exact Or.inr hheldFirst
  | cons event events ih =>
    obtain ⟨u, hu, hrest⟩ := run_cons_ok.mp hrun
    rcases hheld s event u hs hheldFirst hu with hends | hlater
    · exact Or.inl ⟨[], event, events, s, rfl, rfl, hends⟩
    · rcases ih (hstep s event u hs hu) hlater hrest with
        ⟨first, later, last, v, rfl, hfirst, hends⟩ | hlast
      · exact Or.inl ⟨event :: first, later, last, v, rfl, run_cons_ok.mpr ⟨u, hu, hfirst⟩, hends⟩
      · exact Or.inr hlast

/-- The rule for a fact that relates the state to the events so far. -/
theorem run_history (fact : List Event → State → Prop)
    (hstep : ∀ history s event t, fact history s → step s event = .ok t →
      fact (history ++ [event]) t)
    {s t : State} {events : List Event} (hs : fact [] s) (hrun : run step s events = .ok t) :
    fact events t := by
  induction events using List.reverseRecOn generalizing t with
  | nil =>
    obtain rfl : s = t := by simpa using hrun
    exact hs
  | append_singleton events event ih =>
    obtain ⟨u, hu, hlast⟩ := run_concat_ok.mp hrun
    exact hstep events u event t (ih hu) hlast

end Rules

/-! ## Loops over a list -/

/-- A loop does its work for every item if one pass does it for its own item
and undoes it for none. -/
theorem foldl_establishes {Item : Type*} (f : State → Item → State) (items : List Item)
    (invariant : State → Prop) (done : Item → State → Prop)
    (hinvariant : ∀ s, invariant s → ∀ a ∈ items, invariant (f s a))
    (hdone : ∀ s, invariant s → ∀ a ∈ items, done a (f s a))
    (hkeep : ∀ s, invariant s → ∀ a ∈ items, ∀ b, done b s → done b (f s a))
    {s : State} (hs : invariant s) :
    invariant (items.foldl f s) ∧ (∀ b, done b s → done b (items.foldl f s)) ∧
      ∀ a ∈ items, done a (items.foldl f s) := by
  induction items generalizing s with
  | nil => exact ⟨hs, fun _ hb => hb, by simp⟩
  | cons a items ih =>
    have hmem : a ∈ a :: items := List.mem_cons_self
    obtain ⟨hlast, hkept, hall⟩ := ih
      (fun s hs b hb => hinvariant s hs b (List.mem_cons_of_mem _ hb))
      (fun s hs b hb => hdone s hs b (List.mem_cons_of_mem _ hb))
      (fun s hs b hb => hkeep s hs b (List.mem_cons_of_mem _ hb)) (hinvariant s hs a hmem)
    refine ⟨hlast, fun b hb => hkept b (hkeep s hs a hmem b hb), fun b hb => ?_⟩
    rcases List.mem_cons.mp hb with rfl | hb
    · exact hkept b (hdone s hs b hmem)
    · exact hall b hb

theorem forall₂_of_mapM_ok {Item Image : Type*} {f : Item → Except Error Image}
    {items : List Item} {images : List Image} (hmap : items.mapM f = .ok images) :
    List.Forall₂ (fun item image => f item = .ok image) items images := by
  induction items generalizing images with
  | nil =>
    obtain rfl : [] = images := by simpa [pure, Except.pure] using hmap
    exact .nil
  | cons item items ih =>
    rw [List.mapM_cons] at hmap
    cases hitem : f item with
    | error fault => simp [hitem, bind, Except.bind] at hmap
    | ok image =>
      cases hitems : items.mapM f with
      | error fault => simp [hitem, hitems, bind, Except.bind] at hmap
      | ok rest =>
        obtain rfl : image :: rest = images := by
          simpa [hitem, hitems, bind, Except.bind, pure, Except.pure] using hmap
        exact .cons hitem (ih hitems)

/-- A list is mapped by a fallible function item by item. -/
theorem mapM_ok_iff {Item Image : Type*} {f : Item → Except Error Image}
    {items : List Item} {images : List Image} : items.mapM f = .ok images ↔
      List.Forall₂ (fun item image => f item = .ok image) items images := by
  refine ⟨forall₂_of_mapM_ok, fun hall => ?_⟩
  induction hall with
  | nil => rfl
  | cons hitem _ ih =>
    rw [List.mapM_cons, hitem, ih]
    rfl

/-- A loop that rewrites one entry of a table after the other. -/
theorem foldlM_update_ok {Key Entry : Type} [DecidableEq Key] {f : Entry → Except Error Entry}
    {keys : List Key} (hnodup : keys.Nodup) {table table' : Key → Entry}
    (hfold : keys.foldlM (fun table key => do
      let entry ← f (table key)
      return Function.update table key entry) table = .ok table') (key : Key) :
    (key ∈ keys → f (table key) = .ok (table' key)) ∧
      (key ∉ keys → table' key = table key) := by
  induction keys generalizing table with
  | nil =>
    obtain rfl := Except.ok.inj hfold
    simp
  | cons first keys ih =>
    obtain ⟨next, hstep, hrest⟩ := run_cons_ok.mp hfold
    cases hentry : f (table first) with
    | error fault => simp [hentry, bind, Except.bind] at hstep
    | ok entry =>
      obtain rfl : Function.update table first entry = next := by
        simpa [hentry, bind, Except.bind, pure, Except.pure] using hstep
      obtain ⟨hin, hout⟩ := ih (List.nodup_cons.mp hnodup).2 hrest
      by_cases hkey : key = first
      · subst hkey
        have hnot : key ∉ keys := (List.nodup_cons.mp hnodup).1
        refine ⟨fun _ => ?_, fun hmem => absurd List.mem_cons_self hmem⟩
        rw [hout hnot, Function.update_self]
        exact hentry
      · rw [Function.update_of_ne hkey] at hin hout
        refine ⟨fun hmem => hin ?_, fun hmem => hout fun h => hmem (List.mem_cons_of_mem _ h)⟩
        exact (List.mem_cons.mp hmem).resolve_left hkey

end Showtime.Library
