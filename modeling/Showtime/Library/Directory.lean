import Mathlib.Data.List.Infix
import Mathlib.Order.Basic
/-!
# Directories

A directory has entries at paths, and nothing is at a path whose parent is not
there. Entries are entered below what is there, and removed with everything
below them.
-/

namespace Showtime.Library

/-- Entries at paths, each of them at the top or below another one. -/
@[ext]
structure Directory (Segment Entry : Type*) where
  entry : List Segment → Option Entry
  nowhere : entry [] = none
  parent : ∀ q s, q ≠ [] → (entry (q ++ [s])).isSome → (entry q).isSome

/-- What a directory is asked to do. -/
inductive Directory.Request (Segment Entry : Type*)
  | enter (path : List Segment) (entry : Entry)
  | remove (path : List Segment)
  | nothing
deriving DecidableEq

namespace Directory

variable {Segment Entry : Type*}

/-- The directory without any entry. -/
def empty : Directory Segment Entry where
  entry _ := none
  nowhere := rfl
  parent _ _ _ hentry := hentry

/-- Something is at every path above an entry. -/
theorem isSome_of_extends (d : Directory Segment Entry) {p q : List Segment} (hp : p ≠ [])
    (hextends : p <+: q) (hq : (d.entry q).isSome) : (d.entry p).isSome := by
  obtain ⟨rest, rfl⟩ := hextends
  induction rest using List.reverseRecOn with
  | nil => rwa [List.append_nil] at hq
  | append_singleton rest s ih =>
    rw [← List.append_assoc] at hq
    exact ih (d.parent (p ++ rest) s (fun hnil => hp (List.append_eq_nil_iff.mp hnil).1) hq)

variable [DecidableEq Segment]

/-- The path is free, and what is above it is there. -/
def Admits (d : Directory Segment Entry) (path : List Segment) : Prop :=
  path ≠ [] ∧ (d.entry path).isNone ∧ (path.dropLast ≠ [] → (d.entry path.dropLast).isSome)

instance (d : Directory Segment Entry) (path : List Segment) : Decidable (d.Admits path) :=
  inferInstanceAs (Decidable (_ ∧ _ ∧ (_ → _)))

/-- A new entry, if the directory admits one at the path. -/
def enter (d : Directory Segment Entry) (path : List Segment) (entry : Entry) :
    Directory Segment Entry :=
  if hadmits : d.Admits path then
    { entry := fun q => if q = path then some entry else d.entry q
      nowhere := by rw [if_neg hadmits.1.symm, d.nowhere]
      parent := fun q s hq hentry => by
        by_cases hpath : q ++ [s] = path
        · have habove := hadmits.2.2
          rw [← hpath, List.dropLast_concat] at habove
          split
          · rfl
          · exact habove hq
        · rw [if_neg hpath] at hentry
          split
          · rfl
          · exact d.parent q s hq hentry }
  else d

/-- The directory without what is at a path or below it. -/
def remove (d : Directory Segment Entry) (path : List Segment) : Directory Segment Entry where
  entry q := if path <+: q then none else d.entry q
  nowhere := by rw [d.nowhere, ite_self]
  parent q s hq hentry := by
    split at hentry
    · cases hentry
    · rename_i hout
      rw [if_neg fun hextends => hout (hextends.trans (List.prefix_append q [s]))]
      exact d.parent q s hq hentry

/-- What a request makes of a directory. -/
def perform (d : Directory Segment Entry) : Request Segment Entry → Directory Segment Entry
  | .enter path entry => d.enter path entry
  | .remove path => d.remove path
  | .nothing => d

theorem entry_enter {d : Directory Segment Entry} {path : List Segment}
    (hadmits : d.Admits path) (entry : Entry) (q : List Segment) :
    (d.enter path entry).entry q = if q = path then some entry else d.entry q := by
  unfold enter
  rw [dif_pos hadmits]

theorem entry_remove (d : Directory Segment Entry) (path q : List Segment) :
    (d.remove path).entry q = if path <+: q then none else d.entry q := rfl

theorem enter_eq_self {d : Directory Segment Entry} {path : List Segment}
    (hadmits : ¬ d.Admits path) (entry : Entry) : d.enter path entry = d :=
  dif_neg hadmits

end Directory

end Showtime.Library
