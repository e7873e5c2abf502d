import Showtime.ByteURI
import Showtime.Library.KeyLaws
/-!
# Paths as keys

`ZstURI` and `ZstCableAddress` are keys of sets and of hash tables. `operator==` and
the hash read a path up to its first NUL, and `operator<` reads all the bytes that
are stored. The laws of a key hold among paths that differ before a NUL if they do
at all.
-/

namespace Showtime

/-- A `char` as a number. Whether it is signed depends on the platform. -/
def charValue (signed : Bool) (b : UInt8) : Int :=
  if signed ∧ 128 ≤ b.toNat then b.toNat - 256 else b.toNat

theorem charValue_injective (signed : Bool) : Function.Injective (charValue signed) := by
  intro b c h
  have hb := b.toNat_lt
  have hc := c.toNat_lt
  unfold charValue at h
  refine UInt8.toNat_inj.mp ?_
  split at h <;> split at h <;> omega

namespace ByteURI

/-- `operator<`. -/
def lt (signed : Bool) (u b : ByteURI) : Bool :=
  Library.lexicographicalCompare (fun x y => charValue signed x < charValue signed y) u.path b.path

/-- `ZstURIHash`. A `char` is widened to `size_t` before it is added. -/
def hash (signed : Bool) (k : ByteURI) : UInt64 :=
  let prime : UInt64 := 31
  (k.path.take k.fullSize).foldl
    (fun result b => UInt64.ofInt (charValue signed b) + result * prime) 0

/-- What the order goes by. -/
def stored (signed : Bool) (u : ByteURI) : List Int :=
  u.path.map (charValue signed)

theorem stored_inj {signed : Bool} {a b : ByteURI} :
    a.stored signed = b.stored signed ↔ a.path = b.path :=
  (List.map_injective_iff.mpr (charValue_injective signed)).eq_iff

theorem lt_iff (signed : Bool) (a b : ByteURI) :
    a.lt signed b ↔ a.stored signed < b.stored signed :=
  Library.lexicographicalCompare_iff (fun _ _ => decide_eq_true_iff) a.path b.path

theorem equal_iff_cString (a b : ByteURI) : a.equal b ↔ cString a.path = cString b.path :=
  decide_eq_true_iff

theorem hash_congr (signed : Bool) {a b : ByteURI} (h : cString a.path = cString b.path) :
    a.hash signed = b.hash signed := by
  have htake : ∀ u : ByteURI, u.path.take u.fullSize = cString u.path := fun u =>
    (List.prefix_iff_eq_take.mp (List.takeWhile_prefix _)).symm
  unfold hash
  rw [htake, htake, h]

end ByteURI

/-- `ZstCableAddress`. -/
structure ByteCableAddress where
  input : ByteURI
  output : ByteURI

namespace ByteCableAddress

/-- `operator==`. -/
def equal (lhs rhs : ByteCableAddress) : Bool :=
  lhs.input.equal rhs.input && lhs.output.equal rhs.output

/-- `operator<` of the tuples that `std::tie` makes. -/
def lt (signed : Bool) (lhs rhs : ByteCableAddress) : Bool :=
  lhs.input.lt signed rhs.input ||
    (!rhs.input.lt signed lhs.input && lhs.output.lt signed rhs.output)

/-- `ZstCableAddressHash`. -/
def hash (signed : Bool) (k : ByteCableAddress) : UInt64 :=
  let h1 := k.output.hash signed
  let h2 := k.input.hash signed
  h1 ^^^ (h2 <<< 1)

/-- What the order goes by. -/
def stored (signed : Bool) (c : ByteCableAddress) : List Int ×ₗ List Int :=
  toLex (c.input.stored signed, c.output.stored signed)

/-- What the equality goes by. -/
def texts (c : ByteCableAddress) : List UInt8 × List UInt8 :=
  (cString c.input.path, cString c.output.path)

theorem equal_iff_texts (a b : ByteCableAddress) : a.equal b ↔ a.texts = b.texts := by
  rw [equal, Bool.and_eq_true, ByteURI.equal_iff_cString, ByteURI.equal_iff_cString, texts,
    texts, Prod.mk.injEq]

theorem stored_inj {signed : Bool} {a b : ByteCableAddress} :
    a.stored signed = b.stored signed ↔
      a.input.path = b.input.path ∧ a.output.path = b.output.path := by
  rw [stored, stored, toLex_inj, Prod.mk.injEq, ByteURI.stored_inj, ByteURI.stored_inj]

theorem lt_iff (signed : Bool) (a b : ByteCableAddress) :
    a.lt signed b ↔ a.stored signed < b.stored signed := by
  rw [stored, stored, ← Library.tie_lt_iff, lt, Bool.or_eq_true, Bool.and_eq_true,
    Bool.not_eq_true', ← Bool.not_eq_true, ByteURI.lt_iff, ByteURI.lt_iff, ByteURI.lt_iff]

theorem texts_congr {a b : ByteCableAddress}
    (h : a.input.path = b.input.path ∧ a.output.path = b.output.path) : a.texts = b.texts := by
  rw [texts, texts, h.1, h.2]

theorem hash_congr (signed : Bool) {a b : ByteCableAddress} (h : a.texts = b.texts) :
    a.hash signed = b.hash signed := by
  obtain ⟨hinput, houtput⟩ := Prod.mk.inj h
  unfold hash
  rw [ByteURI.hash_congr signed hinput, ByteURI.hash_congr signed houtput]

end ByteCableAddress

open Library

/-- Keys that read the same up to the first NUL must be the same bytes. -/
theorem keyLaws_iff_same_bytes (signed : Bool) (uris : Set ByteURI)
    (cables : Set ByteCableAddress) :
    (KeyLaws uris ByteURI.equal (ByteURI.lt signed) (ByteURI.hash signed) ↔
      ∀ a ∈ uris, ∀ b ∈ uris, cString a.path = cString b.path → a.path = b.path) ∧
    (KeyLaws cables ByteCableAddress.equal (ByteCableAddress.lt signed)
        (ByteCableAddress.hash signed) ↔
      ∀ a ∈ cables, ∀ b ∈ cables, cString a.input.path = cString b.input.path →
        cString a.output.path = cString b.output.path →
          a.input.path = b.input.path ∧ a.output.path = b.output.path) := by
  constructor
  · rw [keyLaws_iff ByteURI.equal_iff_cString (ByteURI.lt_iff signed)
      (fun a b h => congrArg cString (ByteURI.stored_inj.mp h))
      (fun _ _ => ByteURI.hash_congr signed)]
    simp only [ByteURI.stored_inj]
  · rw [keyLaws_iff ByteCableAddress.equal_iff_texts (ByteCableAddress.lt_iff signed)
      (fun a b h => ByteCableAddress.texts_congr (ByteCableAddress.stored_inj.mp h))
      (fun _ _ => ByteCableAddress.hash_congr signed)]
    simp only [ByteCableAddress.stored_inj, ByteCableAddress.texts, Prod.mk.injEq, and_imp]

/-- `"ins"` with a NUL and one byte more equals `"ins"`, which still comes first. -/
theorem keyLaws_fail_behind_nul : ¬ ∀ signed : Bool,
    KeyLaws (Set.univ : Set ByteURI) ByteURI.equal (ByteURI.lt signed) (ByteURI.hash signed) ∧
      KeyLaws (Set.univ : Set ByteCableAddress) ByteCableAddress.equal
        (ByteCableAddress.lt signed) (ByteCableAddress.hash signed) := by
  intro h
  have heq := ((h true).1.eq_iff ⟨[105, 110, 115], by decide⟩ trivial
    ⟨[105, 110, 115, 0, 120], by decide⟩ trivial).mp rfl
  exact heq.1 rfl

end Showtime
