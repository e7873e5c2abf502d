import Mathlib.Algebra.GroupWithZero.Nat
import Mathlib.Data.String.Basic
/-!
# Splitting at slashes

`String.splitOn` walks over positions in bytes. These lemmas say what it does in
terms of the characters, and when the parts of a joined text come back. The last two
sections count and cut the parts of lists of any kind.
-/

namespace Showtime.Library

open String

/-- The walk of `splitOn`: `l` is behind the last slash, `m` follows it, and `r`
has not been read yet. -/
theorem splitOnAux_slash (l m r : List Char) (parts : List String) :
    splitOnAux (ofList (l ++ m ++ r)) "/" ⟨utf8Len l⟩ ⟨utf8Len l + utf8Len m⟩ 0 parts =
      parts.reverse ++ (List.splitOnPPrepend (· == '/') r m.reverse).map ofList := by
  have hend := String.atEnd_of_valid (l ++ m) r
  rw [utf8Len_append] at hend
  unfold splitOnAux
  cases r with
  | nil =>
    rw [if_pos (hend.mpr rfl)]
    simpa using extract_of_valid l m []
  | cons c r =>
    have hget : Pos.Raw.get (ofList (l ++ m ++ c :: r)) ⟨utf8Len l + utf8Len m⟩ = c := by
      simpa using get_of_valid (l ++ m) (c :: r)
    have hnext : Pos.Raw.next (ofList (l ++ m ++ c :: r)) ⟨utf8Len l + utf8Len m⟩ =
        ⟨utf8Len l + utf8Len m + c.utf8Size⟩ := by
      simpa using next_of_valid (l ++ m) c r
    have hsep : Pos.Raw.get "/" 0 = '/' := rfl
    rw [if_neg fun h => List.cons_ne_nil c r (hend.mp h), hget, hsep,
      List.splitOnPPrepend_cons_eq_if]
    by_cases hc : c = '/'
    · subst hc
      have hlast : (Pos.Raw.next "/" 0).atEnd "/" = true := rfl
      have hback : (Pos.Raw.next (ofList (l ++ m ++ '/' :: r)) ⟨utf8Len l + utf8Len m⟩).unoffsetBy
          (Pos.Raw.next "/" 0) = ⟨utf8Len l + utf8Len m⟩ := by
        rw [hnext]
        rfl
      dsimp only
      rw [if_pos (beq_self_eq_true _), if_pos hlast, if_pos (beq_self_eq_true _), hback, hnext]
      have hcut : Pos.Raw.extract (ofList (l ++ m ++ '/' :: r)) ⟨utf8Len l⟩
          ⟨utf8Len l + utf8Len m⟩ = ofList m := extract_of_valid l m ('/' :: r)
      rw [hcut]
      simpa [Nat.add_assoc] using splitOnAux_slash (l ++ m ++ ['/']) [] r (ofList m :: parts)
    · have hne : ¬ (c == '/') = true := fun h => hc (eq_of_beq h)
      rw [if_neg hne, if_neg hne]
      have hback : Pos.Raw.next (ofList (l ++ m ++ c :: r))
          ((⟨utf8Len l + utf8Len m⟩ : Pos.Raw).unoffsetBy 0) =
            ⟨utf8Len l + utf8Len m + c.utf8Size⟩ := hnext
      rw [hback]
      simpa [Nat.add_assoc] using splitOnAux_slash l (m ++ [c]) r parts

theorem splitOn_slash (s : String) :
    s.splitOn "/" = (s.toList.splitOn '/').map ofList := by
  have hwalk := splitOnAux_slash [] [] s.toList []
  simp only [List.nil_append, ofList_toList, List.reverse_nil] at hwalk
  rw [List.splitOn_eq_splitOnP]
  exact hwalk

/-- Joining the parts gives the text back. -/
theorem intercalate_splitOn_slash (s : String) : "/".intercalate (s.splitOn "/") = s := by
  apply String.toList_inj.mp
  have hparts : ((s.toList.splitOn '/').map ofList).map toList = s.toList.splitOn '/' := by
    rw [List.map_map]
    exact (List.map_congr_left fun _ _ => toList_ofList).trans (List.map_id _)
  rw [splitOn_slash, toList_intercalate, hparts]
  exact List.intercalate_splitOn '/'

/-- Parts that have no slash come back from the joined text. -/
theorem splitOn_slash_intercalate {parts : List String} (hparts : ∀ s ∈ parts, '/' ∉ s.toList)
    (hne : parts ≠ []) : ("/".intercalate parts).splitOn "/" = parts := by
  have hlists : ∀ l ∈ parts.map toList, '/' ∉ l := fun l hl => by
    obtain ⟨s, hs, rfl⟩ := List.mem_map.mp hl
    exact hparts s hs
  have hslash : "/".toList = ['/'] := rfl
  rw [splitOn_slash, toList_intercalate, hslash,
    List.splitOn_intercalate '/' hlists (by simpa using hne), List.map_map]
  exact (List.map_congr_left fun _ _ => ofList_toList).trans (List.map_id _)

/-! ## The parts of a list -/

theorem length_splitOn {α : Type*} [BEq α] [LawfulBEq α] (a : α) (l : List α) :
    (l.splitOn a).length = l.count a + 1 := by
  induction l with
  | nil => rfl
  | cons x l ih =>
    rw [List.splitOn_cons_eq_if_modifyHead, List.count_cons]
    split
    · rw [List.length_cons, ih]
    · rw [List.length_modifyHead, ih]

/-- No part holds the separator. -/
theorem not_mem_of_mem_splitOn {α : Type*} [BEq α] [LawfulBEq α] {a : α} {l part : List α}
    (hpart : part ∈ l.splitOn a) : a ∉ part := by
  induction l generalizing part with
  | nil =>
    obtain rfl := List.mem_singleton.mp hpart
    exact List.not_mem_nil
  | cons x l ih =>
    rw [List.splitOn_cons_eq_if_modifyHead] at hpart
    split at hpart
    · rcases List.mem_cons.mp hpart with rfl | hpart
      · exact List.not_mem_nil
      · exact ih hpart
    · rename_i hx
      obtain ⟨head, tail, hsplit⟩ := List.exists_cons_of_ne_nil (List.splitOn_ne_nil a l)
      rw [hsplit, List.modifyHead_cons] at hpart
      rw [hsplit] at ih
      rcases List.mem_cons.mp hpart with rfl | hpart
      · have hne : a ≠ x := fun heq => hx (by simp [heq])
        simpa [hne] using ih List.mem_cons_self
      · exact ih (List.mem_cons_of_mem _ hpart)

/-! ## Joining the parts -/

section Parts

variable {α : Type*}

theorem intercalate_append (sep : List α) {xs ys : List (List α)} (hxs : xs ≠ [])
    (hys : ys ≠ []) :
    sep.intercalate (xs ++ ys) = sep.intercalate xs ++ sep ++ sep.intercalate ys := by
  induction xs with
  | nil => exact absurd rfl hxs
  | cons x xs ih =>
    have hnext : xs ++ ys ≠ [] := by simp [hys]
    rw [List.cons_append, List.intercalate_cons_of_ne_nil hnext]
    by_cases hnil : xs = []
    · subst hnil
      rw [List.nil_append, List.intercalate_singleton]
    · rw [ih hnil, List.intercalate_cons_of_ne_nil hnil]
      simp only [List.append_assoc]

theorem mem_intercalate_of_mem (sep : List α) {parts : List (List α)} {part : List α} {x : α}
    (hpart : part ∈ parts) (hx : x ∈ part) : x ∈ sep.intercalate parts := by
  induction parts with
  | nil => exact absurd hpart List.not_mem_nil
  | cons first parts ih =>
    by_cases hnil : parts = []
    · subst hnil
      obtain rfl := List.mem_singleton.mp hpart
      rwa [List.intercalate_singleton]
    · rw [List.intercalate_cons_of_ne_nil hnil, List.mem_append, List.mem_append]
      rcases List.mem_cons.mp hpart with rfl | hpart
      · exact Or.inl (Or.inl hx)
      · exact Or.inr (ih hpart)

/-- What stands before a part: the earlier parts, each with its separator. -/
theorem intercalate_eq_append_drop (sep : List α) {parts : List (List α)} {k : Nat}
    (hk : k < parts.length) :
    sep.intercalate parts =
      (parts.take k).flatMap (· ++ sep) ++ sep.intercalate (parts.drop k) := by
  induction k generalizing parts with
  | zero => rfl
  | succ k ih =>
    cases parts with
    | nil => exact absurd hk (Nat.not_lt_zero _)
    | cons x parts =>
      have hk' : k < parts.length := Nat.lt_of_succ_lt_succ hk
      have hne : parts ≠ [] := List.ne_nil_of_length_pos (Nat.zero_lt_of_lt hk')
      rw [List.intercalate_cons_of_ne_nil hne, ih hk', List.take_succ_cons, List.drop_succ_cons,
        List.flatMap_cons]
      simp only [List.append_assoc]

theorem length_flatMap_append (a : α) (parts : List (List α)) :
    (parts.flatMap (· ++ [a])).length = (parts.map (·.length + 1)).sum := by
  rw [List.length_flatMap]
  simp

/-- There is a separator between any two parts. -/
theorem length_intercalate (a : α) (parts : List (List α)) :
    ([a].intercalate parts).length = (parts.map (·.length)).sum + (parts.length - 1) := by
  induction parts with
  | nil => rfl
  | cons x parts ih =>
    by_cases hnil : parts = []
    · subst hnil
      simp
    · have hpos := List.length_pos_iff.mpr hnil
      rw [List.intercalate_cons_of_ne_nil hnil, List.map_cons, List.sum_cons, List.length_cons]
      simp only [List.length_append, List.length_singleton, ih]
      omega

theorem intercalate_take_prefix (sep : List α) (parts : List (List α)) (n : Nat) :
    sep.intercalate (parts.take n) <+: sep.intercalate parts := by
  by_cases hn : parts.take n = []
  · rw [hn]
    exact List.nil_prefix
  · by_cases hrest : parts.drop n = []
    · have htake : parts.take n = parts := by
        simpa [hrest] using List.take_append_drop n parts
      exact htake.symm ▸ List.prefix_rfl
    · have happ := intercalate_append sep hn hrest
      rw [List.take_append_drop, List.append_assoc] at happ
      exact ⟨_, happ.symm⟩

end Parts

end Showtime.Library
