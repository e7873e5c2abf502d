import Mathlib.Data.String.Basic
import Mathlib.Data.List.Sort
/-!
# Entity addresses

`ZstURI` keeps a path and its segments between slashes. The model keeps the
segments: a path is the list of them, and the empty path has none. A
character of a segment stands for one byte of the C string.
-/

namespace Showtime

/-- The segments of a path, `"perf/comp/plug"` being `["perf", "comp", "plug"]`. -/
abbrev ZstURI := List String

instance : LawfulBEq ZstURI := inferInstance

namespace ZstURI

/-- `ZstURI(const char*)` on the text of some segments: a single empty segment
is the empty text, which has no segments at all. -/
def ofSegments (segments : List String) : ZstURI :=
  if segments = [""] then [] else segments

/-- The segments as `operator+` sees them: the text of the empty path still
takes one (empty) place beside the slash. -/
def asOperand (u : ZstURI) : List String :=
  if u = [] then [""] else u

/-- `ZstURI::path`. -/
def path (u : ZstURI) : String :=
  "/".intercalate u

/-- `ZstURI::size`, the number of segments. -/
def size (u : ZstURI) : Nat :=
  u.length

/-- `ZstURI::operator+`. -/
def add (u v : ZstURI) : ZstURI :=
  asOperand u ++ asOperand v

/-- `ZstURI::parent`: everything but the last segment. -/
def parent (u : ZstURI) : ZstURI :=
  ofSegments u.dropLast

/-- `ZstURI::first`, which throws on the empty path. -/
def first (u : ZstURI) : ZstURI :=
  ofSegments (u.take 1)

/-- `ZstURI::last`, which throws on the empty path. -/
def last (u : ZstURI) : ZstURI :=
  ofSegments (u.drop (u.length - 1))

/-- `ZstURI::contains`: `compare` has a segment and is a prefix. The counter of
the source reaches `compare.size()` only when every segment matches. -/
def contains (u compare : ZstURI) : Bool :=
  !compare.isEmpty && compare.isPrefixOf u

theorem last_append (u : ZstURI) {s : String} (hs : s ≠ "") : (u ++ [s]).last = [s] := by
  have hdrop : (u ++ [s]).drop ((u ++ [s]).length - 1) = [s] := by simp
  unfold last ofSegments
  rw [hdrop]
  simp [hs]

/-- A path with a last segment ends in it. -/
theorem eq_append_of_last {u : ZstURI} (hu : u.last ≠ []) :
    ∃ v s, s ≠ "" ∧ u = v ++ [s] ∧ u.last = [s] := by
  rcases List.eq_nil_or_concat u with rfl | ⟨v, s, rfl⟩
  · exact absurd rfl hu
  · have hs : s ≠ "" := by
      rintro rfl
      refine hu ?_
      have hdrop : (v ++ [""]).drop ((v ++ [""]).length - 1) = [""] := by simp
      unfold last ofSegments
      rw [List.concat_eq_append, hdrop]
      rfl
    rw [List.concat_eq_append]
    exact ⟨v, s, hs, rfl, last_append v hs⟩

theorem last_last (u : ZstURI) : u.last.last = u.last := by
  by_cases hu : u.last = []
  · rw [hu]
    rfl
  · obtain ⟨v, s, hs, -, hlast⟩ := eq_append_of_last hu
    rw [hlast]
    exact last_append [] hs

/-- A path that is put below another one keeps its last segment. -/
theorem last_add (p u : ZstURI) : (p.add u.last).last = u.last := by
  by_cases hu : u.last = []
  · have hdrop : (p.asOperand ++ [""]).drop ((p.asOperand ++ [""]).length - 1) = [""] := by simp
    rw [hu]
    unfold last ofSegments add
    rw [show asOperand [] = [""] from rfl, hdrop]
    rfl
  · obtain ⟨v, s, hs, -, hlast⟩ := eq_append_of_last hu
    rw [hlast]
    exact last_append (asOperand p) hs

theorem add_singleton {p : ZstURI} (hp : p ≠ []) (s : String) : p.add [s] = p ++ [s] := by
  simp [add, asOperand, hp]

theorem parent_append {p : ZstURI} (hp : p ≠ [""]) (s : String) : (p ++ [s]).parent = p := by
  simp [parent, ofSegments, hp]

/-- `ZstURI::operator<` orders a `std::set<ZstURI>` by the path's text. -/
def precedes (u v : ZstURI) : Prop :=
  u.path.toList ≤ v.path.toList

instance : DecidableRel precedes :=
  fun u v => inferInstanceAs (Decidable (u.path.toList ≤ v.path.toList))

/-- `std::set<ZstURI>::emplace`. -/
def emplace (paths : List ZstURI) (u : ZstURI) : List ZstURI :=
  if u ∈ paths then paths else paths.orderedInsert precedes u

@[simp] theorem mem_emplace (paths : List ZstURI) (u v : ZstURI) :
    v ∈ emplace paths u ↔ v = u ∨ v ∈ paths := by
  unfold emplace
  split
  · rename_i hmem
    constructor
    · exact Or.inr
    · rintro (rfl | h)
      · exact hmem
      · exact h
  · simp [List.mem_orderedInsert]

theorem nodup_emplace {paths : List ZstURI} (u : ZstURI) (h : paths.Nodup) :
    (emplace paths u).Nodup := by
  unfold emplace
  split
  · exact h
  · rename_i hmem
    exact (List.perm_orderedInsert precedes u paths).nodup_iff.mpr (List.nodup_cons.mpr ⟨hmem, h⟩)

end ZstURI
end Showtime
