import Mathlib.Data.List.Range
import Mathlib.Data.List.TakeWhile
import Mathlib.Logic.Function.Basic
import Showtime.Library.Split
/-!
# Paths in memory

`ZstURI` on its buffers. A path is copied with its length into one buffer, with a
NUL after it, and `init` copies what stands between the delimiters into the slots
of an array of fixed size. What the object says of itself is read from the one
or from the others.
-/

namespace Showtime

/-- The bytes that `strlen`, `strcmp` and `strncat` see of a buffer: those before
the first NUL. -/
def cString (p : List UInt8) : List UInt8 :=
  p.takeWhile (· ≠ 0)

/-- `strncat`: at most `n` bytes of the second string after the first one. -/
def strncat (dest src : List UInt8) (n : Nat) : List UInt8 :=
  cString dest ++ (cString src).take n

theorem zero_not_mem_cString (p : List UInt8) : 0 ∉ cString p := by
  intro h
  simpa using List.mem_takeWhile_imp h

theorem cString_eq_self {p : List UInt8} (hp : 0 ∉ p) : cString p = p := by
  refine List.takeWhile_eq_self_iff.mpr fun b hb => ?_
  have hne : b ≠ 0 := fun h => hp (h ▸ hb)
  simpa using hne

theorem length_cString_le (p : List UInt8) : (cString p).length ≤ p.length :=
  (List.takeWhile_prefix _).length_le

/-- A text does not begin with a NUL, so `init` reads it to its end. -/
theorem cString_eq_nil {p : List UInt8} (hp : (cString p).headD 0 = 0) :
    cString p = [] := by
  cases h : cString p with
  | nil => rfl
  | cons b q =>
    rw [h] at hp
    have hzero : b ∉ cString p := (show b = 0 from hp) ▸ zero_not_mem_cString p
    exact absurd (h ▸ List.mem_cons_self) hzero

namespace ByteURI

def delim : UInt8 := 47

def maxPathLen : Nat := 255

/-! ## The segments -/

/-- The object while `init` runs: the slots of `m_components`, with the memory past
the last of them, and the slots that were written. -/
structure Components where
  slots : Nat → Option (List UInt8) := fun _ => none
  written : List Nat := []
  /-- `m_component_count`. -/
  count : Nat := 0
  len : Nat := 0
  wordOffset : Nat := 0

namespace Components

/-- The slot at the count takes `len` bytes of the path. -/
def addComponent (path : List UInt8) (s : Components) : Components :=
  { s with
    slots := Function.update s.slots s.count (some ((path.drop s.wordOffset).take s.len))
    written := s.written ++ [s.count]
    count := s.count + 1 }

/-- One byte of the path in the loop of `init`. -/
def scan (path : List UInt8) (s : Components) (byte : UInt8) : Components :=
  if byte = delim then
    { s.addComponent path with wordOffset := s.wordOffset + (s.len + 1), len := 0 }
  else { s with len := s.len + 1 }

end Components

/-- `ZstURI::init`. A path that begins with a NUL, be it the one at its end, has no
segments. -/
def init (path : List UInt8) : Components :=
  if path.headD 0 = 0 then {}
  else (path.foldl (Components.scan path) {}).addComponent path

/-! ## What `init` fills -/

section Fill

open Components

/-- `init` from a word of the path on: `cur` is what it has read of that word, and
`rest` has not been read yet. -/
theorem scan_finish {path rest cur : List UInt8} {s : Components}
    (hrest : path.drop s.wordOffset = cur ++ rest) (hlen : s.len = cur.length)
    (hfree : ∀ i, s.count ≤ i → s.slots i = none) :
    let t := (rest.foldl (scan path) s).addComponent path
    let parts := List.splitOnPPrepend (· == delim) rest cur.reverse
    t.count = s.count + parts.length ∧ t.written = s.written ++ List.range' s.count parts.length ∧
      (∀ i < s.count, t.slots i = s.slots i) ∧ ∀ i, t.slots (s.count + i) = parts[i]? := by
  induction rest generalizing s cur with
  | nil =>
    have hword : (path.drop s.wordOffset).take s.len = cur := by
      rw [hrest, hlen, List.append_nil, List.take_length]
    simp only [List.foldl_nil, List.splitOnPPrepend_nil, List.reverse_reverse]
    refine ⟨rfl, rfl, fun i hi => ?_, fun i => ?_⟩
    · exact Function.update_of_ne (Nat.ne_of_lt hi) _ _
    · cases i with
      | zero => exact (Function.update_self _ _ _).trans (congrArg some hword)
      | succ i =>
        have hne : s.count + (i + 1) ≠ s.count := by omega
        exact (Function.update_of_ne hne _ _).trans (hfree _ (by omega))
  | cons b rest ih =>
    have hword : (path.drop s.wordOffset).take s.len = cur := by
      rw [hrest, hlen, List.take_left]
    by_cases hb : b = delim
    · subst hb
      have hscan : scan path s delim =
          { s.addComponent path with wordOffset := s.wordOffset + (s.len + 1), len := 0 } :=
        if_pos rfl
      have hdrop : path.drop (scan path s delim).wordOffset = [] ++ rest := by
        rw [hscan, ← List.drop_drop, hrest, hlen]
        simp
      have hlen' : (scan path s delim).len = ([] : List UInt8).length := by
        rw [hscan]
        rfl
      have hfree' : ∀ i, s.count + 1 ≤ i → (s.addComponent path).slots i = none := by
        intro i hi
        exact (Function.update_of_ne (by omega) _ _).trans (hfree i (by omega))
      obtain ⟨hcount, hwritten, hlow, hslots⟩ := ih hdrop hlen'
        (by rw [hscan]; exact hfree')
      rw [List.reverse_nil, List.splitOnPPrepend_nil_right] at hcount hwritten hslots
      rw [List.foldl_cons, List.splitOnPPrepend_cons_pos (by simp), List.reverse_reverse]
      generalize List.splitOnP (· == delim) rest = parts at hcount hwritten hslots ⊢
      generalize (rest.foldl (scan path) (scan path s delim)).addComponent path = t
        at hcount hwritten hlow hslots ⊢
      rw [hscan] at hcount hwritten hlow hslots
      dsimp only [addComponent] at hcount hwritten hlow hslots
      refine ⟨?_, ?_, fun i hi => ?_, fun i => ?_⟩
      · rw [hcount, List.length_cons]
        omega
      · rw [hwritten, List.length_cons, List.range'_succ, List.append_assoc]
        rfl
      · rw [hlow i (by omega), Function.update_of_ne (Nat.ne_of_lt hi)]
      · cases i with
        | zero => rw [Nat.add_zero, hlow _ (Nat.lt_succ_self _), Function.update_self, hword]; rfl
        | succ i =>
          have hi : s.count + (i + 1) = s.count + 1 + i := by omega
          rw [hi, hslots i, List.getElem?_cons_succ]
    · have hscan : scan path s b = { s with len := s.len + 1 } := if_neg hb
      have hdrop : path.drop (scan path s b).wordOffset = cur ++ [b] ++ rest := by
        rw [hscan]
        simpa using hrest
      have hnext := ih hdrop (by rw [hscan]; simp [hlen]) (by rw [hscan]; exact hfree)
      rw [List.foldl_cons, List.splitOnPPrepend_cons_neg (by simpa using hb)]
      rw [List.reverse_append] at hnext
      rw [hscan] at hnext ⊢
      exact hnext

/-- The segments of a path. -/
def split (path : List UInt8) : List (List UInt8) :=
  if path.headD 0 = 0 then [] else path.splitOn delim

/-- `init` writes the segments into the first slots, each slot once. -/
theorem init_eq (path : List UInt8) :
    (init path).count = (split path).length ∧
      (init path).written = List.range (split path).length ∧
        ∀ i, (init path).slots i = (split path)[i]? := by
  unfold init split
  split
  · exact ⟨rfl, rfl, fun _ => rfl⟩
  · have hstart : path.drop ({} : Components).wordOffset = [] ++ path := rfl
    obtain ⟨hcount, hwritten, -, hslots⟩ := scan_finish hstart rfl fun _ _ => rfl
    rw [List.reverse_nil, List.splitOnPPrepend_nil_right, ← List.splitOn_eq_splitOnP]
      at hcount hwritten hslots
    simp only [Nat.zero_add] at hcount hslots
    rw [List.range_eq_range']
    exact ⟨hcount, hwritten, hslots⟩

theorem count_init (path : List UInt8) : (init path).count = (split path).length :=
  (init_eq path).1

theorem written_init (path : List UInt8) :
    (init path).written = List.range (split path).length :=
  (init_eq path).2.1

theorem slots_init (path : List UInt8) (i : Nat) : (init path).slots i = (split path)[i]? :=
  (init_eq path).2.2 i

theorem length_split (path : List UInt8) :
    (split path).length = if path.headD 0 = 0 then 0 else path.count delim + 1 := by
  unfold split
  split
  · rfl
  · exact Library.length_splitOn delim path

end Fill

end ByteURI

/-- A `ZstURI` that `init` has filled without leaving `m_components`. -/
structure ByteURI where
  /-- `m_original_path`, without the NUL after it. -/
  path : List UInt8
  fits : ∀ i ∈ (ByteURI.init path).written, i < ByteURI.maxPathLen
  deriving DecidableEq

namespace ByteURI

/-- What ends a call: an exception, or an access to memory that is not the URI's. -/
inductive Fault
  /-- `std::range_error`. -/
  | rangeError
  /-- `std::out_of_range`. -/
  | outOfRange
  /-- `init` writes past the end of `m_components`. -/
  | overflow
  /-- A slot is read that was never written. -/
  | unsetSlot
  /-- Bytes are read that are not the path's. -/
  | pastPath
  deriving DecidableEq, Repr

/-! ## Construction -/

def construct (path : List UInt8) : Except Fault ByteURI :=
  if h : ∀ i ∈ (init path).written, i < maxPathLen then .ok ⟨path, h⟩ else .error .overflow

/-- `ZstURI(const char*)`, of a pointer that may be null. -/
def ofCString (path : Option (List UInt8)) : Except Fault ByteURI :=
  construct (match path with
    | some p => cString p
    | none => [])

/-- `ZstURI(const char*, size_t)`, of a buffer of at least that length. -/
def ofBuffer (path : Option (List UInt8)) (len : Nat) : Except Fault ByteURI :=
  construct (match path with
    | some p => p.take len
    | none => [])

/-- `ZstURI()`. -/
def empty : ByteURI where
  path := []
  fits := by decide

/-! ## Accessors -/

def size (u : ByteURI) : Nat :=
  (init u.path).count

/-- `m_components[index]`. -/
def component (u : ByteURI) (index : Nat) : Except Fault (List UInt8) :=
  match (init u.path).slots index with
  | some c => .ok c
  | none => .error .unsetSlot

/-- `segment`, a C string. -/
def segment (u : ByteURI) (index : Nat) : Except Fault (List UInt8) :=
  if index ≥ u.size then .error .rangeError else (u.component index).map cString

def fullSize (u : ByteURI) : Nat :=
  (cString u.path).length

def isEmpty (u : ByteURI) : Bool :=
  u.size < 1

/-! ## Operations -/

/-- The C string that `operator+` makes. The buffer is as long as both paths, with the
delimiter and two NULs. -/
def joined (u other : ByteURI) : List UInt8 :=
  let newLength := u.path.length + other.path.length + 2
  let newPath := strncat (strncat u.path [delim] 1) other.path other.path.length
  newPath.take (newLength - 1)

/-- `operator+`. -/
def add (u other : ByteURI) : Except Fault ByteURI :=
  ofCString (some (u.joined other))

/-- A loop of `range` over `n` slots from an index on. It adds up their lengths, with
`extra` for each. -/
def addLengths (u : ByteURI) (extra : Nat) : (n index total : Nat) → Except Fault Nat
  | 0, _, total => .ok total
  | n + 1, index, total => do
    let c ← u.component index
    addLengths u extra n (index + 1) (total + (c.length + extra))

/-- The first loop of `range`. -/
def skip (u : ByteURI) : (n index position : Nat) → Except Fault Nat :=
  u.addLengths 1

/-- The second loop of `range`. -/
def measure (u : ByteURI) : (n index length : Nat) → Except Fault Nat :=
  u.addLengths 0

/-- `range`. The guard compares a difference of `size_t` values. -/
def range (u : ByteURI) (start stop : UInt64) : Except Fault ByteURI := do
  if stop - start > UInt64.ofNat u.size then throw .rangeError
  let startPosition ← skip u start.toNat 0 0
  let length ← measure u (stop.toNat + 1 - start.toNat) start.toNat 0
  let length := length + (stop - start).toNat
  if startPosition + length ≤ u.path.length then
    ofBuffer (some (u.path.drop startPosition)) length
  else throw .pastPath

def parent (u : ByteURI) : Except Fault ByteURI :=
  let parentIndex : Int := (u.size : Int) - 2
  if parentIndex < 0 then .ok empty else u.range 0 (UInt64.ofNat parentIndex.toNat)

def first (u : ByteURI) : Except Fault ByteURI := do
  if u.size < 1 then throw .outOfRange
  let c ← u.component 0
  ofCString (some c)

def last (u : ByteURI) : Except Fault ByteURI := do
  if u.size < 1 then throw .outOfRange
  let c ← u.component (u.size - 1)
  ofCString (some c)

/-! ## Comparisons -/

/-- `strcmp(compare.m_components[i].cstr, m_components[i].cstr) == 0`. -/
def sameComponent (u compare : ByteURI) (i : Nat) : Except Fault Bool := do
  let c ← compare.component i
  let d ← u.component i
  return cString c = cString d

/-- The loop of `contains`, `n` rounds of it from a slot on. -/
def matchComponents (u compare : ByteURI) (shortest : Nat) :
    (n i contiguous : Nat) → Except Fault Bool
  | 0, _, _ => .ok false
  | n + 1, i, contiguous => do
    if i < compare.size then
      if ← sameComponent u compare i then
        if contiguous + 1 = shortest then return true
        matchComponents u compare shortest n (i + 1) (contiguous + 1)
      else matchComponents u compare shortest n (i + 1) contiguous
    else matchComponents u compare shortest n (i + 1) contiguous

def contains (u compare : ByteURI) : Except Fault Bool :=
  if compare.size > u.size then .ok false
  else
    let shortest := min compare.size u.size
    matchComponents u compare shortest shortest 0 0

/-- `operator==` and `equal`: `strcmp` of the paths. -/
def equal (u other : ByteURI) : Bool :=
  cString u.path = cString other.path

/-! ## The bound of the array -/

/-- A new URI out of bytes: a C string, a buffer with its length, or two URIs that are
joined. The pointers may be null. -/
inductive Construction
  | ofCString (path : Option (List UInt8))
  | ofBuffer (path : Option (List UInt8)) (len : Nat)
  | add (a b : ByteURI)

namespace Construction

def build : Construction → Except Fault ByteURI
  | ofCString path => ByteURI.ofCString path
  | ofBuffer path len => ByteURI.ofBuffer path len
  | add a b => a.add b

/-- The bytes that `init` goes through. -/
def path : Construction → List UInt8
  | ofCString path => cString (path.getD [])
  | ofBuffer path len => (path.getD []).take len
  | add a b => cString (a.joined b)

/-- How many delimiters `init` will meet. It does not look at a buffer that begins
with a NUL. -/
def delimiters : Construction → Nat
  | ofCString path => (cString (path.getD [])).count delim
  | ofBuffer path len =>
    let bytes := (path.getD []).take len
    if bytes.headD 0 = 0 then 0 else bytes.count delim
  | add a b => (cString a.path).count delim + (cString b.path).count delim + 1

end Construction

/-- `init` has stayed inside the array, and the count is that of the slots it filled. -/
structure Components.Bounded (s : Components) : Prop where
  inside : ∀ i ∈ s.written, i < maxPathLen
  once : s.written.Nodup
  filled : ∀ i, (s.slots i).isSome ↔ i ∈ s.written
  counted : s.count = s.written.length

theorem fits_iff (path : List UInt8) :
    (∀ i ∈ (init path).written, i < maxPathLen) ↔ (split path).length ≤ maxPathLen := by
  rw [written_init]
  constructor
  · intro h
    by_contra hlong
    exact absurd (h maxPathLen (List.mem_range.mpr (by omega))) (Nat.lt_irrefl _)
  · intro h i hi
    rw [List.mem_range] at hi
    omega

theorem construct_eq {path : List UInt8} (h : (split path).length ≤ maxPathLen) :
    construct path = .ok ⟨path, (fits_iff path).mpr h⟩ :=
  dif_pos _

theorem bounded_init_iff (path : List UInt8) :
    (init path).Bounded ↔ (split path).length ≤ maxPathLen := by
  rw [← fits_iff]
  refine ⟨fun h => h.inside, fun h => ⟨h, ?_, fun i => ?_, ?_⟩⟩
  · rw [written_init]
    exact List.nodup_range
  · rw [written_init, slots_init, List.mem_range]
    simp
  · rw [written_init, count_init, List.length_range]

theorem joined_eq (a b : ByteURI) :
    a.joined b = cString a.path ++ delim :: cString b.path := by
  have hdelim : cString [delim] = [delim] := rfl
  have hfirst : strncat a.path [delim] 1 = cString a.path ++ [delim] := rfl
  have hplain : 0 ∉ cString a.path ++ [delim] := by
    simp [zero_not_mem_cString, delim]
  have hall : strncat (strncat a.path [delim] 1) b.path b.path.length =
      cString a.path ++ delim :: cString b.path := by
    rw [hfirst, strncat, cString_eq_self hplain,
      List.take_of_length_le (length_cString_le b.path), List.append_assoc]
    rfl
  have ha := length_cString_le a.path
  have hb := length_cString_le b.path
  unfold joined
  rw [hall]
  refine List.take_of_length_le ?_
  rw [List.length_append, List.length_cons]
  omega

namespace Construction

theorem build_eq (c : Construction) : c.build = construct c.path := by
  cases c with
  | ofCString path => cases path <;> rfl
  | ofBuffer path len =>
    cases path with
    | none => exact congrArg construct (List.take_nil).symm
    | some p => rfl
  | add a b => rfl

theorem path_add (a b : ByteURI) : (add a b).path = cString a.path ++ delim :: cString b.path := by
  have hplain : 0 ∉ cString a.path ++ delim :: cString b.path := by
    simp [zero_not_mem_cString, delim]
  rw [← cString_eq_self hplain, ← joined_eq]
  rfl

theorem length_split_path (c : Construction) :
    (split c.path).length = if c.path.headD 0 = 0 then 0 else c.delimiters + 1 := by
  rw [length_split]
  cases c with
  | ofCString path => rfl
  | ofBuffer path len =>
    split
    · rfl
    · rename_i hhead
      exact congrArg (· + 1) (if_neg hhead).symm
  | add a b =>
    rw [path_add, List.count_append, List.count_cons_self, ← Nat.add_assoc]
    rfl

/-- Without a first byte there is no delimiter either. -/
theorem delimiters_of_headD (c : Construction) (hhead : c.path.headD 0 = 0) :
    c.delimiters = 0 := by
  cases c with
  | ofCString path => exact congrArg (List.count delim) (cString_eq_nil hhead)
  | ofBuffer path len => exact if_pos hhead
  | add a b =>
    have hnil : cString (a.joined b) = [] := cString_eq_nil hhead
    have hpath := path_add a b
    rw [show (add a b).path = [] from hnil] at hpath
    simp at hpath

theorem length_split_path_le_iff (c : Construction) :
    (split c.path).length ≤ maxPathLen ↔ c.delimiters < maxPathLen := by
  rw [length_split_path]
  split
  · rename_i hhead
    rw [c.delimiters_of_headD hhead]
    decide
  · exact Nat.succ_le_iff

/-- `init` counts and fills the slots of `m_components` alone exactly when it meets fewer delimiters
than there are slots. -/
theorem build_bounded_iff (c : Construction) :
    (init c.path).Bounded ↔ c.delimiters < maxPathLen :=
  (bounded_init_iff c.path).trans c.length_split_path_le_iff

/-- A path of 255 slashes has one segment more than there are slots. -/
theorem slashes_overflow : ¬ ∀ c : Construction, (init c.path).Bounded := by
  intro h
  have hlong := (bounded_init_iff _).mp (h (ofBuffer (some (List.replicate 255 delim)) 255))
  have hpath : (ofBuffer (some (List.replicate 255 delim)) 255).path = List.replicate 255 delim :=
    List.take_of_length_le (Nat.le_of_eq List.length_replicate)
  rw [hpath, length_split, List.count_replicate_self] at hlong
  exact absurd hlong (by decide)

end Construction
end ByteURI
end Showtime
