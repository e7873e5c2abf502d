import Showtime.Library.Run
import Showtime.Value
/-!
# Local and remote delivery of a value

An input plug of the firing performer gets the value by `copy`, any other one by
`serialize` and `deserialize`. The copy keeps every element as it was appended
and the receiver's own type; the transport converts every element to the
sender's type and replaces the receiver's.
-/

namespace Showtime

open ZstValueVariant Library

namespace ValueDelivery

variable {F : Type} (conv : Conversions F)

/-- Two values look the same to an application. -/
structure SameObservation (v w : ZstValue F) : Prop where
  size : v.size = w.size
  intAt : ∀ position, v.intAt conv position = w.intAt conv position
  floatAt : ∀ position, v.floatAt conv position = w.floatAt conv position
  stringAt : ∀ position, v.stringAt conv position = w.stringAt conv position
  sizeAt : ∀ position, v.sizeAt conv position = w.sizeAt conv position

/-- What `char_at` writes is part of what the application sees. -/
theorem SameObservation.charAt {v w : ZstValue F} (hsame : SameObservation conv v w)
    (position : Nat) : v.charAt conv position = w.charAt conv position := by
  unfold ZstValue.charAt
  rw [hsame.size, hsame.stringAt]

/-- An element after it went through a list of the given type. -/
def transported : ZstValueType → ZstValueVariant F → Except Fault (ZstValueVariant F)
  | .intList, x => return .int (← x.toInt conv)
  | .floatList, x => return .float (← x.toFloat conv)
  | .strList, x => return .str (x.toStr conv)
  | .none, x | .plugHandshake, x => return x

/-- The conversions undo the one that the transport makes of an element, which
holds for every element that has the type of the list already. -/
def Lossless : ZstValueType → ZstValueVariant F → Prop
  | .intList, .float f =>
    conv.floatOfInt (conv.intOfFloat f) = f ∧
      conv.stringOfInt (conv.intOfFloat f) = conv.stringOfFloat f
  | .intList, .str s =>
    ∀ i, conv.stoi s = .ok i → conv.stof s = .ok (conv.floatOfInt i) ∧ conv.stringOfInt i = s
  | .floatList, .int i =>
    conv.intOfFloat (conv.floatOfInt i) = i ∧
      conv.stringOfFloat (conv.floatOfInt i) = conv.stringOfInt i
  | .floatList, .str s =>
    ∀ f, conv.stof s = .ok f → conv.stoi s = .ok (conv.intOfFloat f) ∧ conv.stringOfFloat f = s
  | .strList, .int i =>
    conv.stoi (conv.stringOfInt i) = .ok i ∧
      conv.stof (conv.stringOfInt i) = .ok (conv.floatOfInt i)
  | .strList, .float f =>
    conv.stoi (conv.stringOfFloat f) = .ok (conv.intOfFloat f) ∧
      conv.stof (conv.stringOfFloat f) = .ok f
  | _, _ => True

theorem transported_str {Number : Type} {number : Except Fault Number}
    {wrap : Number → ZstValueVariant F} {y : ZstValueVariant F}
    (h : (do return wrap (← number)) = Except.ok y) : ∃ n, number = .ok n ∧ y = wrap n := by
  cases number with
  | error fault => cases h
  | ok n => exact ⟨n, rfl, (Except.ok.inj h).symm⟩

/-- An element reads the same after the transport if the conversions undo it. -/
theorem lossless_iff {type : ZstValueType} {x y : ZstValueVariant F}
    (htransported : transported conv type x = .ok y) :
    (x.toInt conv = y.toInt conv ∧ x.toFloat conv = y.toFloat conv ∧
      x.toStr conv = y.toStr conv) ↔ Lossless conv type x := by
  cases type with
  | none =>
    obtain rfl := Except.ok.inj htransported
    simp [Lossless]
  | plugHandshake =>
    obtain rfl := Except.ok.inj htransported
    simp [Lossless]
  | intList =>
    cases x with
    | int i =>
      obtain rfl := Except.ok.inj htransported
      simp [Lossless]
    | float f =>
      obtain rfl := Except.ok.inj htransported
      simp [Lossless, toInt, toFloat, toStr, eq_comm]
    | str s =>
      obtain ⟨i, hstoi, rfl⟩ := transported_str (show _ = _ from htransported)
      simp only [Lossless, toInt, toFloat, toStr] at hstoi ⊢
      constructor
      · rintro ⟨-, hstof, hstring⟩ j hj
        obtain rfl := Except.ok.inj (hstoi.symm.trans hj)
        exact ⟨hstof, hstring.symm⟩
      · intro hlossless
        obtain ⟨hstof, hstring⟩ := hlossless i hstoi
        exact ⟨hstoi, hstof, hstring.symm⟩
  | floatList =>
    cases x with
    | int i =>
      obtain rfl := Except.ok.inj htransported
      simp [Lossless, toInt, toFloat, toStr, eq_comm]
    | float f =>
      obtain rfl := Except.ok.inj htransported
      simp [Lossless]
    | str s =>
      obtain ⟨f, hstof, rfl⟩ := transported_str (show _ = _ from htransported)
      simp only [Lossless, toInt, toFloat, toStr] at hstof ⊢
      constructor
      · rintro ⟨hstoi, -, hstring⟩ g hg
        obtain rfl := Except.ok.inj (hstof.symm.trans hg)
        exact ⟨hstoi, hstring.symm⟩
      · intro hlossless
        obtain ⟨hstoi, hstring⟩ := hlossless f hstof
        exact ⟨hstoi, hstof, hstring.symm⟩
  | strList =>
    obtain rfl := Except.ok.inj htransported
    cases x with
    | int i => simp [Lossless, toInt, toFloat, toStr, eq_comm]
    | float f => simp [Lossless, toInt, toFloat, toStr, eq_comm]
    | str s => simp [Lossless, toStr, toInt, toFloat]

/-! ## The elements of the received value -/

theorem serialized_list {Item : Type} {list : Except Fault (List Item)}
    {wrap : List Item → PlugValue F} {buffer : PlugValue F}
    (h : (do return some (wrap (← list))) = Except.ok (some buffer)) :
    ∃ val, list = .ok val ∧ buffer = wrap val := by
  cases list with
  | error fault => cases h
  | ok val => exact ⟨val, rfl, (Option.some.inj (Except.ok.inj h)).symm⟩

/-- The received value has the sender's type and its elements, transported. -/
theorem deserialize_elements {sender : ZstValue F} {buffer : PlugValue F}
    (hserialize : sender.serialize conv = .ok (some buffer)) (receiver : ZstValue F) :
    (receiver.deserialize (some buffer)).defaultType = sender.defaultType ∧
      List.Forall₂ (fun x y => transported conv sender.defaultType x = .ok y) sender.values
        (receiver.deserialize (some buffer)).values := by
  unfold ZstValue.serialize at hserialize
  cases htype : sender.defaultType with
  | none => simp [htype] at hserialize
  | plugHandshake => simp [htype] at hserialize
  | strList =>
    simp only [htype, Except.ok.injEq, Option.some.injEq] at hserialize
    obtain rfl := hserialize
    refine ⟨rfl, ?_⟩
    rw [ZstValue.deserialize, List.map_map, List.forall₂_map_right_iff]
    exact List.forall₂_same.mpr fun x _ => rfl
  | intList =>
    simp only [htype] at hserialize
    obtain ⟨val, hval, rfl⟩ := serialized_list hserialize
    refine ⟨rfl, ?_⟩
    rw [ZstValue.deserialize, List.forall₂_map_right_iff]
    refine (mapM_ok_iff.mp hval).imp fun x i hx => ?_
    simp [transported, hx, bind, Except.bind, pure, Except.pure]
  | floatList =>
    simp only [htype] at hserialize
    obtain ⟨val, hval, rfl⟩ := serialized_list hserialize
    refine ⟨rfl, ?_⟩
    rw [ZstValue.deserialize, List.forall₂_map_right_iff]
    refine (mapM_ok_iff.mp hval).imp fun x f hx => ?_
    simp [transported, hx, bind, Except.bind, pure, Except.pure]

theorem reads {v : ZstValue F} {position : Nat} {x : ZstValueVariant F}
    (hx : v.values[position]? = some x) :
    v.intAt conv position = x.toInt conv ∧ v.floatAt conv position = x.toFloat conv ∧
      v.stringAt conv position = .ok (x.toStr conv) ∧
      v.sizeAt conv position = .ok (x.byteSize conv v.defaultType) := by
  have helement := ZstValue.elementAt_eq_ok.mpr hx
  simp [ZstValue.intAt, ZstValue.floatAt, ZstValue.stringAt, ZstValue.sizeAt, helement, bind,
    Except.bind, pure, Except.pure]

theorem exists_received {type : ZstValueType} {xs ys : List (ZstValueVariant F)}
    (helements : List.Forall₂ (fun x y => transported conv type x = .ok y) xs ys)
    {position : Nat} {x : ZstValueVariant F} (hx : xs[position]? = some x) :
    ∃ y, ys[position]? = some y ∧ transported conv type x = .ok y := by
  obtain ⟨hlt, rfl⟩ := List.getElem?_eq_some_iff.mp hx
  have hlt' : position < ys.length := helements.length_eq ▸ hlt
  exact ⟨ys[position], List.getElem?_eq_getElem hlt', helements.get hlt hlt'⟩

theorem byteSize_congr {x y : ZstValueVariant F} (hstr : x.toStr conv = y.toStr conv)
    (type : ZstValueType) : x.byteSize conv type = y.byteSize conv type := by
  unfold byteSize
  rw [hstr]

/-- For every value that can be sent and every receiving plug: the two ways of
delivery end in the same observable value exactly if the conversions undo what
the transport does to each element, and the receiver's own type gives each
element the size that the sender's type gives it. -/
theorem sameObservation_iff {sender receiver : ZstValue F} {buffer : PlugValue F}
    (hserialize : sender.serialize conv = .ok (some buffer)) :
    SameObservation conv (receiver.copy sender) (receiver.deserialize (some buffer)) ↔
      ∀ x ∈ sender.values, Lossless conv sender.defaultType x ∧
        x.byteSize conv receiver.defaultType = x.byteSize conv sender.defaultType := by
  obtain ⟨htype, helements⟩ := deserialize_elements conv hserialize receiver
  constructor
  · intro hsame x hx
    obtain ⟨position, hx⟩ := List.mem_iff_getElem?.mp hx
    obtain ⟨y, hy, htransported⟩ := exists_received conv helements hx
    obtain ⟨hint, hfloat, hstring, hsize⟩ := reads conv (v := receiver.copy sender) hx
    obtain ⟨hint', hfloat', hstring', hsize'⟩ := reads conv hy
    have hstr : x.toStr conv = y.toStr conv :=
      Except.ok.inj (hstring.symm.trans ((hsame.stringAt position).trans hstring'))
    refine ⟨(lossless_iff conv htransported).mp ⟨?_, ?_, hstr⟩, ?_⟩
    · exact hint.symm.trans ((hsame.intAt position).trans hint')
    · exact hfloat.symm.trans ((hsame.floatAt position).trans hfloat')
    · rw [byteSize_congr conv hstr sender.defaultType, ← htype]
      exact Except.ok.inj (hsize.symm.trans ((hsame.sizeAt position).trans hsize'))
  · intro hall
    have hread : ∀ position, (receiver.copy sender).intAt conv position =
          (receiver.deserialize (some buffer)).intAt conv position ∧
        (receiver.copy sender).floatAt conv position =
          (receiver.deserialize (some buffer)).floatAt conv position ∧
        (receiver.copy sender).stringAt conv position =
          (receiver.deserialize (some buffer)).stringAt conv position ∧
        (receiver.copy sender).sizeAt conv position =
          (receiver.deserialize (some buffer)).sizeAt conv position := by
      intro position
      cases hx : sender.values[position]? with
      | none =>
        have hy : (receiver.deserialize (some buffer)).values[position]? = none := by
          rw [List.getElem?_eq_none_iff, ← helements.length_eq]
          exact List.getElem?_eq_none_iff.mp hx
        have hx : (receiver.copy sender).values[position]? = none := hx
        simp [ZstValue.intAt, ZstValue.floatAt, ZstValue.stringAt, ZstValue.sizeAt,
          ZstValue.elementAt, hx, hy, bind, Except.bind]
      | some x =>
        obtain ⟨y, hy, htransported⟩ := exists_received conv helements hx
        obtain ⟨hint, hfloat, hstring, hsize⟩ := reads conv (v := receiver.copy sender) hx
        obtain ⟨hint', hfloat', hstring', hsize'⟩ := reads conv hy
        obtain ⟨hlossless, hbytes⟩ := hall x (List.mem_of_getElem? hx)
        obtain ⟨hi, hf, hs⟩ := (lossless_iff conv htransported).mpr hlossless
        rw [hint, hint', hfloat, hfloat', hstring, hstring', hsize, hsize', htype,
          ← byteSize_congr conv hs]
        exact ⟨hi, hf, by rw [hs], congrArg Except.ok hbytes⟩
    exact ⟨helements.length_eq, fun i => (hread i).1, fun i => (hread i).2.1,
      fun i => (hread i).2.2.1, fun i => (hread i).2.2.2⟩

/-- Floats counted in millionths, the decimals of `std::to_string`; of the texts
only plain integers are read. -/
def millionths : Conversions Int where
  intOfFloat m := m.tdiv 1000000
  floatOfInt i := i * 1000000
  stoi s := (s.toInt?.map Except.ok).getD (.error .exception)
  stof s := (s.toInt?.map fun i => Except.ok (i * 1000000)).getD (.error .exception)
  stringOfInt := toString
  stringOfFloat m :=
    (if m < 0 then "-" else "") ++ toString (m.natAbs / 1000000) ++ "." ++
      (toString (1000000 + m.natAbs % 1000000)).drop 1

/-- A list of floats reaches a plug for integers the same way by both routes. -/
theorem sameObservation_iff_floats :
    SameObservation millionths
      (({ defaultType := .intList } : ZstValue Int).copy
        { defaultType := .floatList, values := [.float 2500000, .float 1] })
      (({ defaultType := .intList } : ZstValue Int).deserialize
        (some (.floatList [2500000, 1]))) := by
  refine (sameObservation_iff millionths rfl).mpr fun x hx => ?_
  obtain rfl | rfl : x = .float 2500000 ∨ x = .float 1 := by simpa using hx
  · exact ⟨trivial, rfl⟩
  · exact ⟨trivial, rfl⟩

/-- 2.5 appended to an integer plug arrives as 2.5 next door and as 2 elsewhere. -/
theorem float_in_intList_truncated :
    (ZstValue.serialize millionths { defaultType := .intList, values := [.float 2500000] } =
        .ok (some (.intList [2]))) ∧
      ¬ SameObservation millionths
        (({ defaultType := .intList } : ZstValue Int).copy
          { defaultType := .intList, values := [.float 2500000] })
        (({ defaultType := .intList } : ZstValue Int).deserialize (some (.intList [2]))) := by
  refine ⟨by rfl, fun hsame => ?_⟩
  exact absurd (hsame.floatAt 0) (by decide)

end ValueDelivery
end Showtime
