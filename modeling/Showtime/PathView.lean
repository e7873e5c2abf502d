import Mathlib.Data.List.Infix
import Showtime.PathLaws
import Showtime.URI
/-!
# A path as its segments

The tree of entities works with a path as the list of its segments, `ZstURI`. Here
the bytes of a path are read that way, a character for every byte, and the
operations on the bytes turn out to be those on the list. The paths are texts: no
byte is a NUL, as none is in a name.
-/

namespace Showtime
namespace ByteURI

/-- A byte as one character. -/
def text (bytes : List UInt8) : String :=
  String.ofList (bytes.map Char.ofUInt8)

/-- The segments of a path, as the entities name them. -/
def view (u : ByteURI) : ZstURI :=
  u.texts.map text

theorem text_injective : Function.Injective text := by
  intro p q h
  refine List.map_injective_iff.mpr (fun b c hbc => ?_) (String.ofList_injective h)
  exact UInt8.toUInt32_inj.mp (congrArg Char.val hbc)

@[simp] theorem text_eq_empty {bytes : List UInt8} : text bytes = "" ↔ bytes = [] :=
  text_injective.eq_iff (b := [])

theorem view_eq {u : ByteURI} (hplain : 0 ∉ u.path) : u.view = (split u.path).map text := by
  rw [view, texts_eq_split hplain]

theorem size_view (u : ByteURI) : u.view.size = u.size := by
  rw [ZstURI.size, view, List.length_map, length_texts]

/-- The path of some segments has those segments. A single empty one leaves no path. -/
theorem view_of_path {u : ByteURI} {parts : List (List UInt8)} (hplain : 0 ∉ u.path)
    (hpath : u.path = [delim].intercalate parts) (hparts : ∀ part ∈ parts, delim ∉ part) :
    u.view = ZstURI.ofSegments (parts.map text) := by
  rw [view_eq hplain, hpath]
  by_cases hnil : parts = []
  · subst hnil
    rfl
  rw [split_intercalate hparts hnil]
  have hback := List.splitOn_intercalate delim hparts hnil
  split
  · rename_i hhead
    have hempty : [delim].intercalate parts = [] := by
      by_contra hne
      exact headD_ne_zero hne (hpath ▸ hplain) hhead
    rw [hempty, List.splitOn_nil] at hback
    rw [← hback]
    rfl
  · rename_i hhead
    refine (if_neg fun hsingle => hhead ?_).symm
    obtain ⟨part, rfl, hpart⟩ := List.map_eq_singleton_iff.mp hsingle
    rw [text_eq_empty.mp hpart]
    rfl

/-! ## Joining -/

/-- As an operand the empty path has one empty segment, as `splitOn` sees it. -/
theorem asOperand_view {u : ByteURI} (hplain : 0 ∉ u.path) :
    u.view.asOperand = (u.path.splitOn delim).map text := by
  rw [view_eq hplain]
  by_cases hnil : u.path = []
  · rw [hnil]
    rfl
  · rw [(PlainText.mk hnil hplain).split_eq]
    refine if_neg fun h => List.splitOn_ne_nil delim u.path (List.map_eq_nil_iff.mp h)

/-- `operator+` on the segments. -/
theorem view_add {a b c : ByteURI} (ha : 0 ∉ a.path) (hb : 0 ∉ b.path) (hadd : a.add b = .ok c) :
    c.view = a.view.add b.view := by
  have hpath := path_of_add hadd
  rw [cString_eq_self ha, cString_eq_self hb] at hpath
  have hplain : 0 ∉ c.path := by
    rw [hpath]
    simp [ha, hb, delim]
  rw [view_eq hplain, hpath, split_append_cons ha, List.map_append, ← asOperand_view ha,
    ← asOperand_view hb]
  rfl

/-! ## Cutting -/

theorem view_parent {u : ByteURI} (hplain : 0 ∉ u.path) :
    u.parent.map view = .ok u.view.parent := by
  by_cases hsize : 2 ≤ u.size
  · obtain ⟨p, hparent, hpath⟩ := parent_eq hsize
    have hne : split u.path ≠ [] := List.ne_nil_of_length_pos (by rw [← size_eq]; omega)
    have hpre := Library.intercalate_take_prefix [delim] (split u.path)
      ((split u.path).length - 1)
    rw [intercalate_split hne, ← List.dropLast_eq_take, ← hpath] at hpre
    have hview := view_of_path (fun h => hplain (hpre.subset h)) hpath fun part hpart =>
      not_mem_of_mem_split (List.dropLast_subset _ hpart)
    rw [hparent, ZstURI.parent, view_eq hplain, ← List.map_dropLast, ← hview]
    rfl
  · have hempty : u.parent = .ok empty := if_pos (by omega)
    have hdrop : u.view.dropLast = [] := by
      rw [← List.length_eq_zero_iff, List.length_dropLast]
      have hlength : u.view.length = u.size := u.size_view
      omega
    rw [hempty, ZstURI.parent, hdrop]
    rfl

/-- A path that is made of one segment. -/
theorem view_of_segment {u r : ByteURI} {part : List UInt8} (hplain : 0 ∉ u.path)
    (hpart : part ∈ split u.path) (hr : r.path = cString part) :
    r.view = ZstURI.ofSegments [text part] := by
  have hzero := zero_not_mem_of_mem_split hplain hpart
  rw [cString_eq_self hzero] at hr
  refine view_of_path (hr ▸ hzero) (by rw [hr, List.intercalate_singleton]) fun q hq => ?_
  rw [List.mem_singleton.mp hq]
  exact not_mem_of_mem_split hpart

theorem view_eq_nil_iff {u : ByteURI} : u.view = [] ↔ u.size = 0 := by
  rw [← List.length_eq_zero_iff, ← size_view]
  rfl

theorem view_first {u : ByteURI} (hplain : 0 ∉ u.path) :
    u.first.map view = if u.view = [] then .error .outOfRange else .ok u.view.first := by
  split
  · rename_i hnil
    rw [view_eq_nil_iff] at hnil
    unfold first
    rw [if_pos (by omega)]
    rfl
  · rename_i hne
    cases hsplit : split u.path with
    | nil => exact absurd (view_eq hplain ▸ hsplit ▸ rfl) hne
    | cons part rest =>
      obtain ⟨r, hfirst, hr⟩ := first_eq hsplit
      have hview := view_of_segment hplain (hsplit ▸ List.mem_cons_self) hr
      rw [hfirst, view_eq hplain, hsplit]
      exact congrArg Except.ok hview

theorem view_last {u : ByteURI} (hplain : 0 ∉ u.path) :
    u.last.map view = if u.view = [] then .error .outOfRange else .ok u.view.last := by
  split
  · rename_i hnil
    rw [view_eq_nil_iff] at hnil
    unfold last
    rw [if_pos (by omega)]
    rfl
  · rename_i hne
    rcases List.eq_nil_or_concat (split u.path) with hsplit | ⟨front, part, hsplit⟩
    · exact absurd (view_eq hplain ▸ hsplit ▸ rfl) hne
    · rw [List.concat_eq_append] at hsplit
      obtain ⟨r, hlast, hr⟩ := last_eq hsplit
      have hview := view_of_segment hplain
        (hsplit ▸ List.mem_append_right _ (List.mem_singleton_self part)) hr
      have hback : u.view.last = ZstURI.ofSegments [text part] := by
        rw [view_eq hplain, hsplit, ZstURI.last]
        simp
      rw [hlast, hback]
      exact congrArg Except.ok hview

/-! ## Comparing -/

theorem map_text_prefix_iff {parts parts' : List (List UInt8)} :
    parts.map text <+: parts'.map text ↔ parts <+: parts' := by
  rw [List.prefix_iff_eq_take, List.prefix_iff_eq_take, List.length_map, ← List.map_take]
  exact (List.map_injective_iff.mpr text_injective).eq_iff

theorem view_contains {u compare : ByteURI} (hu : 0 ∉ u.path) (hcompare : 0 ∉ compare.path) :
    u.contains compare = .ok (u.view.contains compare.view) := by
  rw [contains_eq, texts_eq_split hu, texts_eq_split hcompare]
  refine congrArg Except.ok (Bool.eq_iff_iff.mpr ?_)
  rw [decide_eq_true_iff, ZstURI.contains, view_eq hu, view_eq hcompare, Bool.and_eq_true,
    List.isPrefixOf_iff_prefix, map_text_prefix_iff]
  simp

theorem equal_iff_view {a b : ByteURI} (ha : 0 ∉ a.path) (hb : 0 ∉ b.path) :
    a.equal b ↔ a.view = b.view := by
  rw [equal_iff ha hb, view_eq ha, view_eq hb,
    (List.map_injective_iff.mpr text_injective).eq_iff]
  exact ⟨congrArg split, path_eq_of_split_eq ha hb⟩

end ByteURI
end Showtime
