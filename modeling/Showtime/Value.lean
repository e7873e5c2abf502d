import Showtime.Hierarchy
/-!
# Plug values

`ZstValue`, its serialised form, and the two ways in which a value reaches an
input plug: `copy`, and `serialize` followed by `deserialize`. The conversions
between integers, floats and strings are parameters.
-/

namespace Showtime

inductive ZstValueType
  | none | intList | floatList | strList | plugHandshake
  deriving DecidableEq, Repr

/-- `ZstValueVariant`, over a type of floats. -/
inductive ZstValueVariant (F : Type)
  | int (i : Int)
  | float (f : F)
  | str (s : String)
  deriving DecidableEq, Repr

/-- The conversions of the variant visitors. Those that read a string may throw. -/
structure Conversions (F : Type) where
  /-- `int(f)`. -/
  intOfFloat : F → Int
  /-- `float(i)`. -/
  floatOfInt : Int → F
  stoi : String → Except Fault Int
  stof : String → Except Fault F
  /-- `std::to_string(int)` and `std::to_string(float)`. -/
  stringOfInt : Int → String
  stringOfFloat : F → String

structure ZstValue (F : Type) where
  defaultType : ZstValueType := .intList
  values : List (ZstValueVariant F) := []
  deriving DecidableEq, Repr

/-- The union `PlugValueData` of a serialised value. -/
inductive PlugValue (F : Type)
  | none
  | intList (val : List Int)
  | floatList (val : List F)
  | strList (val : List String)
  | plugHandshake
  deriving DecidableEq, Repr

variable {F : Type}

namespace ZstValueVariant

variable (conv : Conversions F)

/-- `ZstValueIntVisitor`. -/
def toInt : ZstValueVariant F → Except Fault Int
  | .int i => .ok i
  | .float f => .ok (conv.intOfFloat f)
  | .str s => conv.stoi s

/-- `ZstValueFloatVisitor`. -/
def toFloat : ZstValueVariant F → Except Fault F
  | .int i => .ok (conv.floatOfInt i)
  | .float f => .ok f
  | .str s => conv.stof s

/-- `ZstValueStrVisitor`. -/
def toStr : ZstValueVariant F → String
  | .int i => conv.stringOfInt i
  | .float f => conv.stringOfFloat f
  | .str s => s

/-- `size_at` of an element, which goes by the type of the whole value. -/
def byteSize (x : ZstValueVariant F) : ZstValueType → Nat
  | .intList => 4
  | .floatList => 4
  | .strList => (x.toStr conv).length
  | _ => 0

end ZstValueVariant

namespace ZstValue

variable (conv : Conversions F)

/-- `ZstValue::copy`. -/
def copy (v other : ZstValue F) : ZstValue F :=
  { v with values := other.values }

/-- `ZstValue::clear`. -/
def clear (v : ZstValue F) : ZstValue F :=
  { v with values := [] }

/-- `m_values.at`, which throws beyond the end. -/
def elementAt (v : ZstValue F) (position : Nat) : Except Fault (ZstValueVariant F) :=
  match v.values[position]? with
  | some x => .ok x
  | none => .error .exception

def size (v : ZstValue F) : Nat :=
  v.values.length

def intAt (v : ZstValue F) (position : Nat) : Except Fault Int := do
  (← v.elementAt position).toInt conv

def floatAt (v : ZstValue F) (position : Nat) : Except Fault F := do
  (← v.elementAt position).toFloat conv

/-- The string form of an element, as in `as_string_vector`. -/
def stringAt (v : ZstValue F) (position : Nat) : Except Fault String := do
  return (← v.elementAt position).toStr conv

/-- `char_at`: the text it writes, which is none before the last position. The
subtraction is one of `size_t`. -/
def charAt (v : ZstValue F) (position : Nat) : Except Fault (Option String) := do
  if position < (v.size + (2 ^ 64 - 1)) % 2 ^ 64 then
    return none
  return some (← v.stringAt conv position)

def sizeAt (v : ZstValue F) (position : Nat) : Except Fault Nat := do
  return (← v.elementAt position).byteSize conv v.defaultType

/-- `serialize_partial`. A value without a list type leaves the buffer null. -/
def serialize (v : ZstValue F) : Except Fault (Option (PlugValue F)) :=
  match v.defaultType with
  | .intList => do return some (.intList (← v.values.mapM (ZstValueVariant.toInt conv)))
  | .floatList => do return some (.floatList (← v.values.mapM (ZstValueVariant.toFloat conv)))
  | .strList => .ok (some (.strList (v.values.map (ZstValueVariant.toStr conv))))
  | .none | .plugHandshake => .ok none

/-- `deserialize_partial`, which overwrites the type as well. -/
def deserialize (v : ZstValue F) : Option (PlugValue F) → ZstValue F
  | none => v
  | some (.intList val) => { defaultType := .intList, values := val.map .int }
  | some (.floatList val) => { defaultType := .floatList, values := val.map .float }
  | some (.strList val) => { defaultType := .strList, values := val.map .str }
  | some .plugHandshake => { v with defaultType := .plugHandshake }
  | some .none => { v with defaultType := .none }

theorem elementAt_eq_ok {v : ZstValue F} {position : Nat} {x : ZstValueVariant F} :
    v.elementAt position = .ok x ↔ v.values[position]? = some x := by
  unfold elementAt
  cases v.values[position]? <;> simp

end ZstValue

/-- The values that a plug can send: those with a list. -/
def PlugValue.isList : PlugValue F → Bool
  | .intList _ | .floatList _ | .strList _ => true
  | .none | .plugHandshake => false

/-- What a plug sends has a list. -/
theorem ZstValue.isList_of_serialize {conv : Conversions F} {v : ZstValue F}
    {buffer : PlugValue F} (hserialize : v.serialize conv = .ok (some buffer)) :
    buffer.isList = true := by
  unfold ZstValue.serialize at hserialize
  cases htype : v.defaultType with
  | none => simp [htype] at hserialize
  | plugHandshake => simp [htype] at hserialize
  | strList =>
    simp only [htype, Except.ok.injEq, Option.some.injEq] at hserialize
    rw [← hserialize]
    rfl
  | intList =>
    cases hlist : v.values.mapM (ZstValueVariant.toInt conv) with
    | error fault => simp [htype, hlist, bind, Except.bind] at hserialize
    | ok val =>
      simp only [htype, hlist, bind, Except.bind, pure, Except.pure, Except.ok.injEq,
        Option.some.injEq] at hserialize
      rw [← hserialize]
      rfl
  | floatList =>
    cases hlist : v.values.mapM (ZstValueVariant.toFloat conv) with
    | error fault => simp [htype, hlist, bind, Except.bind] at hserialize
    | ok val =>
      simp only [htype, hlist, bind, Except.bind, pure, Except.pure, Except.ok.injEq,
        Option.some.injEq] at hserialize
      rw [← hserialize]
      rfl

/-- A list replaces all that a value held before. -/
theorem ZstValue.deserialize_isList {buffer : PlugValue F} (hlist : buffer.isList = true)
    (v w : ZstValue F) : v.deserialize (some buffer) = w.deserialize (some buffer) := by
  cases buffer <;> first | rfl | cases hlist

end Showtime
