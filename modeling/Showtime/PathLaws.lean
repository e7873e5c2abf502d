import Mathlib.Data.List.Forall2
import Mathlib.Data.List.Infix
import Showtime.ByteURI
import Showtime.Library.Run
/-!
# The laws of paths

What splitting, joining, cutting and comparing do to the segments. `operator+` puts
two lists of segments one after the other, `range` cuts a piece out of one, and
`contains` asks for a beginning of it.
-/

namespace Showtime
namespace ByteURI

/-! ## Segments -/

/-- Every slot up to the count, with the length that it keeps. -/
def components (u : ByteURI) : Except Fault (List (List UInt8)) :=
  (List.range u.size).mapM u.component

/-- `segment(0)` to `segment(size() - 1)`. -/
def segments (u : ByteURI) : Except Fault (List (List UInt8)) :=
  (List.range u.size).mapM u.segment

theorem size_eq (u : ByteURI) : u.size = (split u.path).length :=
  count_init u.path

theorem size_le (u : ByteURI) : u.size ≤ maxPathLen := by
  rw [size_eq]
  exact (fits_iff u.path).mp u.fits

theorem component_of_getElem? {u : ByteURI} {i : Nat} {c : List UInt8}
    (hc : (split u.path)[i]? = some c) : u.component i = .ok c := by
  unfold component
  rw [slots_init, hc]

theorem component_of_size_le {u : ByteURI} {i : Nat} (hi : u.size ≤ i) :
    u.component i = .error .unsetSlot := by
  rw [size_eq] at hi
  unfold component
  rw [slots_init, List.getElem?_eq_none hi]

theorem mapM_range_ok {α : Type} {f : Nat → Except Fault α} {parts : List α}
    (hf : ∀ i c, parts[i]? = some c → f i = .ok c) :
    (List.range parts.length).mapM f = .ok parts := by
  rw [Library.mapM_ok_iff, List.forall₂_iff_get]
  refine ⟨List.length_range, fun i hi hi' => ?_⟩
  rw [List.get_eq_getElem, List.getElem_range]
  exact hf i _ (List.getElem?_eq_getElem hi')

theorem components_eq (u : ByteURI) : u.components = .ok (split u.path) := by
  unfold components
  rw [size_eq]
  exact mapM_range_ok fun _ _ hc => component_of_getElem? hc

/-! ## Cutting -/

theorem not_mem_of_mem_split {path part : List UInt8} (hpart : part ∈ split path) :
    delim ∉ part := by
  unfold split at hpart
  split at hpart
  · exact absurd hpart List.not_mem_nil
  · exact Library.not_mem_of_mem_splitOn hpart

/-- The segments, joined again, are the path. -/
theorem intercalate_split {path : List UInt8} (hsplit : split path ≠ []) :
    [delim].intercalate (split path) = path := by
  unfold split at hsplit ⊢
  split at hsplit
  · exact absurd rfl hsplit
  · rename_i hhead
    rw [if_neg hhead]
    exact List.intercalate_splitOn delim

/-- Segments that are joined come back, unless the path begins with a NUL then. -/
theorem split_intercalate {parts : List (List UInt8)} (hparts : ∀ part ∈ parts, delim ∉ part)
    (hne : parts ≠ []) :
    split ([delim].intercalate parts) =
      if ([delim].intercalate parts).headD 0 = 0 then [] else parts := by
  unfold split
  rw [List.splitOn_intercalate delim hparts hne]

theorem length_split_intercalate {parts : List (List UInt8)}
    (hparts : ∀ part ∈ parts, delim ∉ part) :
    (split ([delim].intercalate parts)).length ≤ parts.length := by
  by_cases hne : parts = []
  · subst hne
    exact Nat.le_refl 0
  · rw [split_intercalate hparts hne]
    split
    · exact Nat.zero_le _
    · exact Nat.le_refl _

/-- A loop over slots in use adds up their lengths. -/
theorem addLengths_eq {u : ByteURI} {extra n index : Nat} (h : index + n ≤ u.size) (total : Nat) :
    u.addLengths extra n index total =
      .ok (total + ((((split u.path).drop index).take n).map (·.length + extra)).sum) := by
  induction n generalizing index total with
  | zero => rfl
  | succ n ih =>
    have hindex : index < (split u.path).length := by
      rw [← size_eq]
      omega
    unfold addLengths
    rw [component_of_getElem? (List.getElem?_eq_getElem hindex),
      List.drop_eq_getElem_cons hindex, List.take_succ_cons, List.map_cons, List.sum_cons,
      ← Nat.add_assoc]
    exact ih (by omega) _

/-- A loop that passes the last slot in use reads the one behind it. -/
theorem addLengths_unset {u : ByteURI} {extra n index : Nat} (hindex : index ≤ u.size)
    (h : u.size < index + n) (total : Nat) :
    u.addLengths extra n index total = .error .unsetSlot := by
  induction n generalizing index total with
  | zero => omega
  | succ n ih =>
    unfold addLengths
    by_cases hlast : u.size ≤ index
    · rw [component_of_size_le hlast]
      rfl
    · have hlt : index < (split u.path).length := by
        rw [← size_eq]
        omega
      rw [component_of_getElem? (List.getElem?_eq_getElem hlt)]
      exact ih (by omega) (by omega) _

theorem ofNat_size_lt_iff (u : ByteURI) (difference : UInt64) :
    difference > UInt64.ofNat u.size ↔ u.size < difference.toNat := by
  have hsize := u.size_le
  have hmod : u.size % 2 ^ 64 = u.size := Nat.mod_eq_of_lt (by unfold maxPathLen at hsize; omega)
  rw [gt_iff_lt, UInt64.lt_iff_toNat_lt, UInt64.toNat_ofNat', hmod]

theorem range_of_guard {u : ByteURI} {start stop : UInt64} (h : u.size < (stop - start).toNat) :
    u.range start stop = .error .rangeError := by
  unfold range
  rw [if_pos ((u.ofNat_size_lt_iff _).mpr h)]
  rfl

/-- `range` once both loops are through. -/
theorem range_of_loops {u : ByteURI} {start stop : UInt64} {position length : Nat}
    (hguard : (stop - start).toNat ≤ u.size) (hskip : u.skip start.toNat 0 0 = .ok position)
    (hmeasure : u.measure (stop.toNat + 1 - start.toNat) start.toNat 0 = .ok length)
    (hfits : position + (length + (stop - start).toNat) ≤ u.path.length) :
    u.range start stop =
      construct ((u.path.drop position).take (length + (stop - start).toNat)) := by
  unfold range
  rw [if_neg fun h => Nat.not_lt.mpr hguard ((u.ofNat_size_lt_iff _).mp h), hskip]
  dsimp only [bind, Except.bind]
  rw [hmeasure]
  exact if_pos hfits

/-- `range` cuts out the segments between two of them. -/
theorem range_eq {u : ByteURI} {start stop : UInt64} (hle : start ≤ stop)
    (hstop : stop.toNat < u.size) :
    ∃ r, u.range start stop = .ok r ∧ r.path = [delim].intercalate
      (((split u.path).drop start.toNat).take (stop.toNat + 1 - start.toNat)) := by
  have hstart : start.toNat ≤ stop.toNat := UInt64.le_iff_toNat_le.mp hle
  have hdiff : (stop - start).toNat = stop.toNat - start.toNat := UInt64.toNat_sub_of_le _ _ hle
  have hsize := u.size_le
  have hlt : start.toNat < (split u.path).length := by
    rw [← size_eq]
    omega
  have hpath : [delim].intercalate (split u.path) = u.path :=
    intercalate_split (List.ne_nil_of_length_pos (by omega))
  have hcut := Library.intercalate_eq_append_drop [delim] hlt
  rw [hpath] at hcut
  generalize hfront : ((split u.path).take start.toNat).flatMap (· ++ [delim]) = front at hcut
  have hskip : u.skip start.toNat 0 0 = .ok front.length := by
    rw [← hfront, Library.length_flatMap_append, ← Nat.zero_add (List.sum _)]
    exact addLengths_eq (by omega) 0
  have hslots : start.toNat + (stop.toNat + 1 - start.toNat) ≤ u.size := by omega
  have hmeasure : u.measure (stop.toNat + 1 - start.toNat) start.toNat 0 = _ :=
    addLengths_eq hslots 0
  have hpiece := Library.intercalate_take_prefix [delim] ((split u.path).drop start.toNat)
    (stop.toNat + 1 - start.toNat)
  have hparts : ∀ part ∈ ((split u.path).drop start.toNat).take (stop.toNat + 1 - start.toNat),
      delim ∉ part := fun part hpart =>
    not_mem_of_mem_split (List.mem_of_mem_drop (List.mem_of_mem_take hpart))
  have hcount : (((split u.path).drop start.toNat).take (stop.toNat + 1 - start.toNat)).length =
      stop.toNat + 1 - start.toNat := by
    rw [List.length_take, List.length_drop, ← size_eq]
    omega
  generalize ((split u.path).drop start.toNat).take (stop.toNat + 1 - start.toNat) = parts
    at hmeasure hpiece hparts hcount ⊢
  have hlength : (parts.map (·.length + 0)).sum + (stop - start).toNat =
      ([delim].intercalate parts).length := by
    rw [Library.length_intercalate, hcount, hdiff]
    congr 1
    omega
  have hfits : front.length + ([delim].intercalate parts).length ≤ u.path.length := by
    rw [hcut, List.length_append]
    exact Nat.add_le_add_left hpiece.length_le _
  have hsplit : (split ([delim].intercalate parts)).length ≤ maxPathLen :=
    (length_split_intercalate hparts).trans (by omega)
  have hbytes : (u.path.drop front.length).take ([delim].intercalate parts).length =
      [delim].intercalate parts := by
    rw [hcut, List.drop_left]
    exact (List.prefix_iff_eq_take.mp hpiece).symm
  have hrange := range_of_loops (by omega) hskip hmeasure (by rw [Nat.zero_add, hlength]; exact hfits)
  rw [Nat.zero_add, hlength, hbytes, construct_eq hsplit] at hrange
  exact ⟨_, hrange, rfl⟩

/-- In the other cases that pass the guard a slot is read that was never written. -/
theorem range_unset {u : ByteURI} {start stop : UInt64}
    (hnot : ¬ (start ≤ stop ∧ stop.toNat < u.size)) (hguard : (stop - start).toNat ≤ u.size) :
    u.range start stop = .error .unsetSlot := by
  have hsize := u.size_le
  unfold maxPathLen at hsize
  have hskip : u.skip start.toNat 0 0 = u.addLengths 1 start.toNat 0 0 := rfl
  have hmeasure : u.measure (stop.toNat + 1 - start.toNat) start.toNat 0 =
      u.addLengths 0 (stop.toNat + 1 - start.toNat) start.toNat 0 := rfl
  unfold range
  rw [if_neg fun h => Nat.not_lt.mpr hguard ((u.ofNat_size_lt_iff _).mp h)]
  by_cases hstart : u.size < start.toNat
  · rw [hskip, addLengths_unset (Nat.zero_le _) (by omega)]
    rfl
  · -- A difference that has wrapped around is far larger than the size.
    have hle : start ≤ stop := by
      rw [UInt64.le_iff_toNat_le]
      rw [UInt64.toNat_sub] at hguard
      omega
    have hstop : u.size ≤ stop.toNat := Nat.not_lt.mp fun h => hnot ⟨hle, h⟩
    rw [UInt64.le_iff_toNat_le] at hle
    rw [hskip, addLengths_eq (by omega)]
    dsimp only [bind, Except.bind]
    rw [hmeasure, addLengths_unset (by omega) (by omega)]

/-- What `range` says of itself: the segments from the start to the stop, or
`std::range_error`. -/
def CutsOut (u : ByteURI) (start stop : UInt64) : Prop :=
  if start ≤ stop ∧ stop.toNat < u.size then
    ∃ components r, u.components = .ok components ∧ u.range start stop = .ok r ∧
      r.path = [delim].intercalate
        ((components.drop start.toNat).take (stop.toNat + 1 - start.toNat))
  else u.range start stop = .error .rangeError

/-- The guard turns away what is far enough out of range, and nothing else does. -/
theorem range_cutsOut_iff (u : ByteURI) (start stop : UInt64) :
    u.CutsOut start stop ↔
      (start ≤ stop ∧ stop.toNat < u.size) ∨ u.size < (stop - start).toNat := by
  unfold CutsOut
  split
  · rename_i hvalid
    obtain ⟨r, hrange, hpath⟩ := range_eq hvalid.1 hvalid.2
    exact iff_of_true ⟨_, r, u.components_eq, hrange, hpath⟩ (Or.inl hvalid)
  · rename_i hnot
    rw [or_iff_right hnot]
    constructor
    · intro hrange
      by_contra hguard
      rw [range_unset hnot (Nat.not_lt.mp hguard)] at hrange
      cases hrange
    · exact range_of_guard

/-- `range(2, 2)` of a path with two segments is let through. -/
theorem range_past_the_last : ¬ ∀ (u : ByteURI) (start stop : UInt64), u.CutsOut start stop := by
  intro h
  have hcut := h ⟨[97, delim, 98], by decide⟩ 2 2
  unfold CutsOut at hcut
  rw [if_neg (by decide)] at hcut
  revert hcut
  decide

/-! ## Splitting and joining -/

/-- A text that is not empty, as a C string of it can be. -/
structure PlainText (u : ByteURI) : Prop where
  nonempty : u.path ≠ []
  noNul : 0 ∉ u.path

instance : DecidablePred PlainText := fun u =>
  decidable_of_iff (u.path ≠ [] ∧ 0 ∉ u.path) ⟨fun h => ⟨h.1, h.2⟩, fun h => ⟨h.1, h.2⟩⟩

theorem headD_ne_zero {path : List UInt8} (hne : path ≠ []) (hplain : 0 ∉ path) :
    path.headD 0 ≠ 0 := by
  intro hhead
  rw [← cString_eq_self hplain] at hhead hne
  exact hne (cString_eq_nil hhead)

/-- A text is what its segments make when they are joined, be there none of them. -/
theorem intercalate_split_text {path : List UInt8} (hplain : 0 ∉ path) :
    [delim].intercalate (split path) = path := by
  by_cases hnil : path = []
  · subst hnil
    rfl
  · refine intercalate_split ?_
    unfold split
    rw [if_neg (headD_ne_zero hnil hplain)]
    exact List.splitOn_ne_nil delim path

theorem path_eq_of_split_eq {p q : List UInt8} (hp : 0 ∉ p) (hq : 0 ∉ q)
    (h : split p = split q) : p = q := by
  rw [← intercalate_split_text hp, h, intercalate_split_text hq]

theorem split_append_cons {x : List UInt8} (hx : 0 ∉ x) (y : List UInt8) :
    split (x ++ delim :: y) = x.splitOn delim ++ y.splitOn delim := by
  have hhead : (x ++ delim :: y).headD 0 ≠ 0 := by
    cases x with
    | nil => exact of_decide_eq_true rfl
    | cons first x => exact fun h => hx (List.mem_cons.mpr (Or.inl (Eq.symm h)))
  rw [← List.splitOn_append_cons_self]
  exact if_neg hhead

theorem zero_not_mem_of_mem_split {path part : List UInt8} (hplain : 0 ∉ path)
    (hpart : part ∈ split path) : 0 ∉ part := by
  intro hzero
  have hmem := Library.mem_intercalate_of_mem [delim] hpart hzero
  rw [intercalate_split (List.ne_nil_of_mem hpart)] at hmem
  exact hplain hmem

theorem segment_of_getElem? {u : ByteURI} {i : Nat} {c : List UInt8} (hplain : 0 ∉ u.path)
    (hc : (split u.path)[i]? = some c) : u.segment i = .ok c := by
  have hi : i < u.size := by
    rw [size_eq]
    exact (List.getElem?_eq_some_iff.mp hc).1
  have hzero := zero_not_mem_of_mem_split hplain (List.mem_of_getElem? hc)
  unfold segment
  rw [if_neg (Nat.not_le.mpr hi), component_of_getElem? hc]
  exact congrArg Except.ok (cString_eq_self hzero)

theorem segments_eq {u : ByteURI} (hplain : 0 ∉ u.path) : u.segments = .ok (split u.path) := by
  unfold segments
  rw [size_eq]
  exact mapM_range_ok fun _ _ hc => segment_of_getElem? hplain hc

/-- Texts are joined with the delimiter between them, when there are slots enough. -/
theorem add_eq {a b : ByteURI} (ha : 0 ∉ a.path) (hb : 0 ∉ b.path)
    (hcount : a.path.count delim + b.path.count delim + 1 < maxPathLen) :
    ∃ c, a.add b = .ok c ∧ c.path = a.path ++ delim :: b.path := by
  have hfits : (Construction.add a b).delimiters < maxPathLen := by
    dsimp only [Construction.delimiters]
    rwa [cString_eq_self ha, cString_eq_self hb]
  refine ⟨_, ((Construction.add a b).build_eq).trans
    (construct_eq ((Construction.length_split_path_le_iff _).mpr hfits)), ?_⟩
  refine (Construction.path_add a b).trans ?_
  rw [cString_eq_self ha, cString_eq_self hb]

theorem equal_of_path_eq {a b : ByteURI} (h : a.path = b.path) : a.equal b := by
  unfold equal
  exact decide_eq_true (congrArg cString h)

namespace PlainText

variable {a b : ByteURI}

theorem headD_ne (ha : a.PlainText) : a.path.headD 0 ≠ 0 :=
  headD_ne_zero ha.nonempty ha.noNul

theorem split_eq (ha : a.PlainText) : split a.path = a.path.splitOn delim :=
  if_neg ha.headD_ne

theorem split_ne_nil (ha : a.PlainText) : split a.path ≠ [] := by
  rw [ha.split_eq]
  exact List.splitOn_ne_nil delim a.path

theorem size_eq_count (ha : a.PlainText) : a.size = a.path.count delim + 1 := by
  rw [size_eq, length_split, if_neg ha.headD_ne]

end PlainText

theorem parent_eq {u : ByteURI} (hsize : 2 ≤ u.size) :
    ∃ p, u.parent = .ok p ∧ p.path = [delim].intercalate (split u.path).dropLast := by
  have hle := u.size_le
  unfold maxPathLen at hle
  have hindex : ((u.size : Int) - 2).toNat = u.size - 2 := by omega
  have hstop : (UInt64.ofNat (u.size - 2)).toNat = u.size - 2 := by
    rw [UInt64.toNat_ofNat']
    exact Nat.mod_eq_of_lt (by omega)
  have hzero : 0 ≤ UInt64.ofNat (u.size - 2) := by
    rw [UInt64.le_iff_toNat_le]
    exact Nat.zero_le _
  have hlast : (UInt64.ofNat (u.size - 2)).toNat < u.size := by
    rw [hstop]
    omega
  obtain ⟨p, hrange, hpath⟩ := range_eq hzero hlast
  refine ⟨p, ?_, ?_⟩
  · unfold parent
    dsimp only
    rw [if_neg (by omega), hindex]
    exact hrange
  · have hcount : u.size - 2 + 1 - (0 : UInt64).toNat = u.size - 1 := by
      rw [UInt64.toNat_zero]
      omega
    rw [hpath, hstop, hcount, List.dropLast_eq_take, ← size_eq]
    rfl

theorem length_split_of_not_mem {path : List UInt8} (h : delim ∉ path) :
    (split path).length ≤ maxPathLen := by
  rw [length_split, List.count_eq_zero_of_not_mem h]
  split <;> decide

/-- `first` and `last` make a URI of one slot. -/
theorem ofCString_segment {path part : List UInt8} (hpart : part ∈ split path) :
    ∃ r, ofCString (some part) = .ok r ∧ r.path = cString part := by
  have hdelim : delim ∉ cString part := fun h =>
    not_mem_of_mem_split hpart ((List.takeWhile_prefix _).subset h)
  exact ⟨_, construct_eq (length_split_of_not_mem hdelim), rfl⟩

theorem first_eq {u : ByteURI} {part : List UInt8} {rest : List (List UInt8)}
    (hsplit : split u.path = part :: rest) :
    ∃ r, u.first = .ok r ∧ r.path = cString part := by
  have hsize : u.size = rest.length + 1 := by
    rw [size_eq, hsplit]
    rfl
  have hslot : u.component 0 = .ok part := component_of_getElem? (hsplit ▸ rfl)
  have hpart : part ∈ split u.path := hsplit ▸ List.mem_cons_self
  obtain ⟨r, hr, hpath⟩ := ofCString_segment hpart
  refine ⟨r, ?_, hpath⟩
  unfold first
  rw [if_neg (by omega), hslot]
  exact hr

theorem last_eq {u : ByteURI} {front : List (List UInt8)} {part : List UInt8}
    (hsplit : split u.path = front ++ [part]) :
    ∃ l, u.last = .ok l ∧ l.path = cString part := by
  have hsize : u.size = front.length + 1 := by
    rw [size_eq, hsplit, List.length_append]
    rfl
  have hslot : u.component (u.size - 1) = .ok part := by
    refine component_of_getElem? ?_
    rw [hsplit, hsize]
    simp
  have hpart : part ∈ split u.path :=
    hsplit ▸ List.mem_append_right _ (List.mem_singleton_self part)
  obtain ⟨l, hl, hpath⟩ := ofCString_segment hpart
  refine ⟨l, ?_, hpath⟩
  unfold last
  rw [if_neg (by omega), hslot]
  exact hl

/-- The parent and the last segment make up the path. -/
theorem parent_last {u : ByteURI} (hplain : 0 ∉ u.path) (hsize : 2 ≤ u.size) :
    ∃ p l c, u.parent = .ok p ∧ u.last = .ok l ∧ p.add l = .ok c ∧ c.path = u.path := by
  have hne : split u.path ≠ [] := List.ne_nil_of_length_pos (by rw [← size_eq]; omega)
  have hjoin := intercalate_split hne
  obtain ⟨p, hparent, hp⟩ := parent_eq hsize
  rcases List.eq_nil_or_concat (split u.path) with hnil | ⟨front, part, hconcat⟩
  · exact absurd hnil hne
  rw [List.concat_eq_append] at hconcat
  have hfront : front ≠ [] := by
    rintro rfl
    rw [size_eq, hconcat] at hsize
    exact Nat.not_succ_le_self 1 hsize
  obtain ⟨l, hlast, hl⟩ := last_eq hconcat
  rw [hconcat, List.dropLast_concat] at hp
  rw [hconcat, Library.intercalate_append _ hfront (List.cons_ne_nil _ _),
    List.intercalate_singleton, ← hp, List.append_assoc] at hjoin
  have hp0 : 0 ∉ p.path := fun h => hplain (hjoin ▸ List.mem_append_left _ h)
  have hpart0 : 0 ∉ part := fun h =>
    hplain (hjoin ▸ List.mem_append_right _ (List.mem_append_right _ h))
  rw [cString_eq_self hpart0] at hl
  have hcount : p.path.count delim + l.path.count delim + 1 < maxPathLen := by
    have hle := u.size_le
    rw [size_eq, length_split] at hsize hle
    split at hle
    · rw [if_pos ‹_›] at hsize
      omega
    · have hall : u.path.count delim = p.path.count delim + (1 + l.path.count delim) := by
        rw [← hjoin, List.count_append, List.count_append, List.count_singleton_self, hl]
      omega
  obtain ⟨c, hadd, hc⟩ := add_eq hp0 (hl.symm ▸ hpart0) hcount
  refine ⟨p, l, c, hparent, hlast, hadd, ?_⟩
  rw [hc, hl, ← hjoin]
  rfl

/-- Splitting and joining are inverse, `operator+` puts the segments after each other, and the
parent with the last segment is the path again. -/
theorem segments_join {a b : ByteURI} (ha : a.PlainText) (hb : b.PlainText)
    (htotal : a.size + b.size < maxPathLen) :
    (∃ parts, a.segments = .ok parts ∧ [delim].intercalate parts = a.path ∧
      (∀ part ∈ parts, delim ∉ part) ∧ a.size = a.path.count delim + 1) ∧
    (∃ c parts parts', a.add b = .ok c ∧ a.segments = .ok parts ∧ b.segments = .ok parts' ∧
      c.segments = .ok (parts ++ parts')) ∧
    (2 ≤ a.size → ∃ p l c, a.parent = .ok p ∧ a.last = .ok l ∧ p.add l = .ok c ∧ c.equal a) := by
  refine ⟨⟨_, segments_eq ha.noNul, intercalate_split ha.split_ne_nil,
    fun _ => not_mem_of_mem_split, ha.size_eq_count⟩, ?_, fun hsize => ?_⟩
  · rw [ha.size_eq_count, hb.size_eq_count] at htotal
    obtain ⟨c, hadd, hc⟩ := add_eq ha.noNul hb.noNul (by omega)
    have hplain : 0 ∉ c.path := by
      rw [hc]
      simp [ha.noNul, hb.noNul, delim]
    have hsplit := split_append_cons ha.noNul b.path
    rw [← hc, ← ha.split_eq, ← hb.split_eq] at hsplit
    exact ⟨c, _, _, hadd, segments_eq ha.noNul, segments_eq hb.noNul,
      (segments_eq hplain).trans (congrArg Except.ok hsplit)⟩
  · obtain ⟨p, l, c, hparent, hlast, hadd, hc⟩ := parent_last ha.noNul hsize
    exact ⟨p, l, c, hparent, hlast, hadd, equal_of_path_eq hc⟩

/-- `"a/b"` is `"a"` with `"b"` below. -/
theorem segments_join_letters : ∃ p l c,
    (⟨[97, delim, 98], by decide⟩ : ByteURI).parent = .ok p ∧
      (⟨[97, delim, 98], by decide⟩ : ByteURI).last = .ok l ∧ p.add l = .ok c ∧
        c.equal ⟨[97, delim, 98], by decide⟩ :=
  (segments_join (b := ⟨[99], by decide⟩) (by decide) (by decide) (by decide)).2.2 (by decide)

/-! ## Containment -/

/-- What `strcmp` sees of the slots. -/
def texts (u : ByteURI) : List (List UInt8) :=
  (split u.path).map cString

theorem length_texts (u : ByteURI) : u.texts.length = u.size := by
  rw [texts, List.length_map, size_eq]

theorem texts_eq_split {u : ByteURI} (hplain : 0 ∉ u.path) : u.texts = split u.path := by
  refine (List.map_congr_left fun part hpart => ?_).trans (List.map_id _)
  exact cString_eq_self (zero_not_mem_of_mem_split hplain hpart)

theorem sameComponent_eq {u compare : ByteURI} {i : Nat} {c d : List UInt8}
    (hc : compare.texts[i]? = some c) (hd : u.texts[i]? = some d) :
    sameComponent u compare i = .ok (decide (c = d)) := by
  rw [texts, List.getElem?_map] at hc hd
  obtain ⟨slot, hslot, rfl⟩ := Option.map_eq_some_iff.mp hc
  obtain ⟨slot', hslot', rfl⟩ := Option.map_eq_some_iff.mp hd
  unfold sameComponent
  rw [component_of_getElem? hslot, component_of_getElem? hslot']
  rfl

/-- The count reaches the number of segments only where every round has found a match. -/
theorem matchComponents_eq {u compare : ByteURI} {shortest n i contiguous : Nat}
    (hu : i + n ≤ u.size) (hcompare : i + n ≤ compare.size) (hcount : contiguous + n ≤ shortest) :
    matchComponents u compare shortest n i contiguous =
      .ok (decide (0 < n ∧ contiguous + n = shortest ∧
        (compare.texts.drop i).take n = (u.texts.drop i).take n)) := by
  induction n generalizing i contiguous with
  | zero => rfl
  | succ n ih =>
    have hi : i < u.texts.length := by
      rw [length_texts]
      omega
    have hi' : i < compare.texts.length := by
      rw [length_texts]
      omega
    have hsame := sameComponent_eq (List.getElem?_eq_getElem hi') (List.getElem?_eq_getElem hi)
    unfold matchComponents
    rw [if_pos (by omega), hsame, List.drop_eq_getElem_cons hi, List.drop_eq_getElem_cons hi',
      List.take_succ_cons, List.take_succ_cons]
    dsimp only [bind, Except.bind]
    by_cases heq : compare.texts[i] = u.texts[i]
    · rw [if_pos (decide_eq_true heq), heq]
      by_cases hlast : contiguous + 1 = shortest
      · obtain rfl : n = 0 := by omega
        rw [if_pos hlast]
        exact congrArg Except.ok (decide_eq_true ⟨Nat.zero_lt_one, hlast, rfl⟩).symm
      · rw [if_neg hlast, ih (by omega) (by omega) (by omega)]
        refine congrArg Except.ok (decide_eq_decide.mpr ?_)
        rw [List.cons.injEq]
        constructor
        · rintro ⟨-, hall, htail⟩
          exact ⟨Nat.succ_pos n, by omega, rfl, htail⟩
        · rintro ⟨-, hall, -, htail⟩
          exact ⟨by omega, by omega, htail⟩
    · rw [if_neg (by simpa using heq), ih (by omega) (by omega) (by omega)]
      refine congrArg Except.ok (decide_eq_decide.mpr ?_)
      rw [List.cons.injEq]
      constructor
      · rintro ⟨-, hall, -⟩
        omega
      · rintro ⟨-, -, hhead, -⟩
        exact absurd hhead heq

/-- `contains` asks whether the other path has segments and they are the first ones. -/
theorem contains_eq (u compare : ByteURI) :
    u.contains compare = .ok (decide (compare.texts ≠ [] ∧ compare.texts <+: u.texts)) := by
  have hcompare := length_texts compare
  have hu := length_texts u
  unfold contains
  split
  · rename_i hlong
    refine congrArg Except.ok (decide_eq_false fun h => ?_).symm
    have := h.2.length_le
    omega
  · rename_i hle
    have hmin : min compare.size u.size = compare.size := by omega
    dsimp only
    rw [hmin, matchComponents_eq (by omega) (by omega) (by omega)]
    refine congrArg Except.ok (decide_eq_decide.mpr ?_)
    rw [List.drop_zero, List.drop_zero, ← hcompare, List.take_length, List.prefix_iff_eq_take,
      ← List.length_pos_iff]
    exact and_congr_right fun _ => and_iff_right (Nat.zero_add _)

theorem equal_iff {a b : ByteURI} (ha : 0 ∉ a.path) (hb : 0 ∉ b.path) :
    a.equal b ↔ a.path = b.path := by
  unfold equal
  rw [cString_eq_self ha, cString_eq_self hb, decide_eq_true_iff]

theorem path_of_add {b c d : ByteURI} (hadd : b.add c = .ok d) :
    d.path = cString b.path ++ delim :: cString c.path := by
  have hbuild := ((Construction.add b c).build_eq).symm.trans hadd
  unfold construct at hbuild
  split at hbuild
  · rw [← Except.ok.inj hbuild]
    exact Construction.path_add b c
  · cases hbuild

namespace PlainText

variable {a b c : ByteURI}

theorem contains_iff (ha : a.PlainText) (hb : b.PlainText) :
    a.contains b = .ok true ↔ split b.path <+: split a.path := by
  rw [contains_eq, texts_eq_split ha.noNul, texts_eq_split hb.noNul, Except.ok.injEq,
    decide_eq_true_iff]
  exact and_iff_right hb.split_ne_nil

/-- What is put below a path begins with its segments. -/
theorem split_prefix_of_add (ha : a.PlainText) (hb : b.PlainText) {d : ByteURI}
    (hadd : b.add c = .ok d) (hequal : a.equal d) : split b.path <+: split a.path := by
  have hpath := path_of_add hadd
  have hplain : 0 ∉ d.path := by
    rw [hpath]
    simp [zero_not_mem_cString, delim]
  rw [cString_eq_self hb.noNul] at hpath
  rw [(equal_iff ha.noNul hplain).mp hequal, hpath, split_append_cons hb.noNul, hb.split_eq]
  exact List.prefix_append _ _

/-- The segments behind those of the other path are a path of their own. -/
theorem exists_add_of_split_prefix (ha : a.PlainText) (hb : b.PlainText)
    (h : split b.path <+: split a.path) :
    a.path = b.path ∨ ∃ c d, b.add c = .ok d ∧ a.path = d.path := by
  obtain ⟨rest, hrest⟩ := h
  by_cases hnil : rest = []
  · rw [hnil, List.append_nil] at hrest
    exact Or.inl (path_eq_of_split_eq ha.noNul hb.noNul hrest.symm)
  · have hjoin := Library.intercalate_append [delim] hb.split_ne_nil hnil
    rw [hrest, intercalate_split ha.split_ne_nil, intercalate_split hb.split_ne_nil,
      List.append_assoc] at hjoin
    have hsize := a.size_le
    have hlength : rest.length ≤ a.size := by
      rw [size_eq, ← hrest, List.length_append]
      exact Nat.le_add_left _ _
    have hparts : ∀ part ∈ rest, delim ∉ part := fun part hpart =>
      not_mem_of_mem_split (hrest ▸ List.mem_append_right _ hpart)
    have hc : (split ([delim].intercalate rest)).length ≤ maxPathLen :=
      (length_split_intercalate hparts).trans (hlength.trans hsize)
    have hzero : 0 ∉ [delim].intercalate rest := fun h =>
      ha.noNul (hjoin ▸ List.mem_append_right _ (List.mem_append_right _ h))
    have hcount : b.path.count delim + ([delim].intercalate rest).count delim + 1 < maxPathLen := by
      rw [ha.size_eq_count, hjoin, List.count_append, List.count_append,
        List.count_singleton_self] at hsize
      omega
    obtain ⟨d, hadd, hd⟩ := add_eq (b := ⟨_, (fits_iff _).mpr hc⟩) hb.noNul hzero hcount
    exact Or.inr ⟨_, d, hadd, hjoin.trans hd.symm⟩

end PlainText

/-- `contains` is the order of the paths by what stands below what. -/
theorem contains_order {a b c : ByteURI} (ha : a.PlainText) (hb : b.PlainText) (hc : c.PlainText) :
    ((∃ r, a.contains b = .ok r) ∧ (a.contains b = .ok true ↔
      a.equal b ∨ ∃ below d, b.add below = .ok d ∧ a.equal d)) ∧
    a.contains a = .ok true ∧
    (a.contains b = .ok true → b.contains a = .ok true → a.equal b) ∧
    (a.contains b = .ok true → b.contains c = .ok true → a.contains c = .ok true) := by
  rw [ha.contains_iff hb, ha.contains_iff ha, hb.contains_iff ha, hb.contains_iff hc,
    ha.contains_iff hc]
  refine ⟨⟨⟨_, contains_eq a b⟩, ?_⟩, List.prefix_rfl, ?_, ?_⟩
  · constructor
    · intro h
      rcases ha.exists_add_of_split_prefix hb h with heq | ⟨below, d, hadd, heq⟩
      · exact Or.inl (equal_of_path_eq heq)
      · exact Or.inr ⟨below, d, hadd, equal_of_path_eq heq⟩
    · rintro (hequal | ⟨below, d, hadd, hequal⟩)
      · rw [(equal_iff ha.noNul hb.noNul).mp hequal]
      · exact ha.split_prefix_of_add hb hadd hequal
  · intro hab hba
    have hlength : (split b.path).length = (split a.path).length :=
      Nat.le_antisymm hab.length_le hba.length_le
    exact equal_of_path_eq (path_eq_of_split_eq ha.noNul hb.noNul (hab.eq_of_length hlength).symm)
  · exact fun hab hbc => hbc.trans hab

/-- `"a/b"` contains `"a"`, below which it stands. -/
theorem contains_order_letters :
    (⟨[97, delim, 98], by decide⟩ : ByteURI).contains ⟨[97], by decide⟩ = .ok true :=
  (contains_order (c := ⟨[97], by decide⟩) (by decide) (by decide) (by decide)).1.2.mpr
    (Or.inr ⟨⟨[98], by decide⟩, ⟨[97, delim, 98], by decide⟩, rfl, rfl⟩)

end ByteURI
end Showtime
