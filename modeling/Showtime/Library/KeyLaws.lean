import Mathlib.Data.List.Lex
import Mathlib.Data.Prod.Lex
import Mathlib.Data.Set.Defs
/-!
# Keys of ordered and hashed containers

A key type brings an equality, an order and a hash, and each may read the key in its
own way. A container that sorts takes two keys for the same when neither comes first,
one that hashes when they are equal. The laws here are what makes the two agree.
-/

namespace Showtime.Library

section KeyLaws

variable {Key Hash Ident Order : Type*}

/-- Equality, order and hash agree on the keys of a set. -/
structure KeyLaws (keys : Set Key) (eq lt : Key → Key → Bool) (hash : Key → Hash) : Prop where
  eq_iff : ∀ a ∈ keys, ∀ b ∈ keys, eq a b ↔ ¬ lt a b ∧ ¬ lt b a
  irrefl : ∀ a ∈ keys, ¬ lt a a
  trans : ∀ a ∈ keys, ∀ b ∈ keys, ∀ c ∈ keys, lt a b → lt b c → lt a c
  total : ∀ a ∈ keys, ∀ b ∈ keys, lt a b ∨ eq a b ∨ lt b a
  congr : ∀ a ∈ keys, ∀ b ∈ keys, ∀ c ∈ keys, eq a b → (lt a c ↔ lt b c) ∧ (lt c a ↔ lt c b)
  hash_eq : ∀ a ∈ keys, ∀ b ∈ keys, eq a b → hash a = hash b

/-- Where the order reads more of a key than the equality does, the laws hold on the
keys that do not differ in the rest. -/
theorem keyLaws_iff [LinearOrder Order] {eq lt : Key → Key → Bool} {hash : Key → Hash}
    {ident : Key → Ident} {order : Key → Order} (heq : ∀ a b, eq a b ↔ ident a = ident b)
    (hlt : ∀ a b, lt a b ↔ order a < order b)
    (hident : ∀ a b, order a = order b → ident a = ident b)
    (hhash : ∀ a b, ident a = ident b → hash a = hash b) (keys : Set Key) :
    KeyLaws keys eq lt hash ↔
      ∀ a ∈ keys, ∀ b ∈ keys, ident a = ident b → order a = order b := by
  constructor
  · intro h a ha b hb hsame
    obtain ⟨hab, hba⟩ := (h.eq_iff a ha b hb).mp ((heq a b).mpr hsame)
    rw [hlt] at hab hba
    exact le_antisymm (not_lt.mp hba) (not_lt.mp hab)
  · intro h
    have hsame : ∀ a ∈ keys, ∀ b ∈ keys, eq a b ↔ order a = order b := fun a ha b hb =>
      (heq a b).trans ⟨h a ha b hb, hident a b⟩
    refine ⟨fun a ha b hb => ?_, fun a _ => ?_, fun a _ b _ c _ => ?_, fun a ha b hb => ?_,
      fun a ha b hb c _ hab => ?_, fun a _ b _ hab => hhash a b ((heq a b).mp hab)⟩
    · rw [hsame a ha b hb, hlt, hlt, not_lt, not_lt]
      exact ⟨fun heq => ⟨heq.ge, heq.le⟩, fun hle => le_antisymm hle.2 hle.1⟩
    · rw [hlt]
      exact lt_irrefl _
    · rw [hlt, hlt, hlt]
      exact lt_trans
    · rw [hsame a ha b hb, hlt, hlt]
      exact lt_trichotomy _ _
    · rw [hsame a ha b hb] at hab
      rw [hlt, hlt, hlt, hlt, hab]
      exact ⟨Iff.rfl, Iff.rfl⟩

end KeyLaws

/-! ## Lexicographic comparison -/

/-- `std::lexicographical_compare`. -/
def lexicographicalCompare {α : Type*} (lt : α → α → Bool) : List α → List α → Bool
  | _, [] => false
  | [], _ :: _ => true
  | x :: xs, y :: ys =>
    if lt x y then true else if lt y x then false else lexicographicalCompare lt xs ys

/-- On keys that are compared by a value it is the order of the lists of values. -/
theorem lexicographicalCompare_iff {α β : Type*} [LinearOrder β] {lt : α → α → Bool} {f : α → β}
    (hlt : ∀ x y, lt x y ↔ f x < f y) (xs ys : List α) :
    lexicographicalCompare lt xs ys ↔ xs.map f < ys.map f := by
  fun_induction lexicographicalCompare lt xs ys with
  | case1 xs => simp
  | case2 y ys => simp
  | case3 x xs y ys h =>
    rw [List.map_cons, List.map_cons, List.cons_lt_cons_iff]
    exact iff_of_true rfl (Or.inl ((hlt x y).mp h))
  | case4 x xs y ys h h' =>
    rw [hlt] at h h'
    rw [List.map_cons, List.map_cons, List.cons_lt_cons_iff]
    refine iff_of_false Bool.false_ne_true ?_
    rintro (hless | ⟨heq, -⟩)
    · exact h hless
    · exact h'.ne heq.symm
  | case5 x xs y ys h h' ih =>
    rw [hlt] at h h'
    have heq : f x = f y := le_antisymm (not_lt.mp h') (not_lt.mp h)
    rw [List.map_cons, List.map_cons, List.cons_lt_cons_iff, ih, heq]
    simp

/-- The comparison of two tuples of references made by `std::tie`. -/
theorem tie_lt_iff {α β : Type*} [LinearOrder α] [LinearOrder β] (a a' : α) (b b' : β) :
    a < a' ∨ ¬ a' < a ∧ b < b' ↔ toLex (a, b) < toLex (a', b') := by
  rw [Prod.Lex.toLex_lt_toLex]
  constructor
  · rintro (h | ⟨hle, h⟩)
    · exact Or.inl h
    · exact (lt_or_eq_of_le (not_lt.mp hle)).imp_right fun heq => ⟨heq, h⟩
  · rintro (h | ⟨heq, h⟩)
    · exact Or.inl h
    · exact Or.inr ⟨not_lt.mpr heq.le, h⟩

end Showtime.Library
