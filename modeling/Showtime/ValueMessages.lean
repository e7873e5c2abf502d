import Showtime.ValueDelivery
/-!
# Values in messages

What a message keeps of a value: its type and its elements, if it is of a type
with elements, and nothing at all otherwise. And what an application can read of
the texts that arrive, one position after the other.
-/

namespace Showtime.ValueMessages

open ZstValue ZstValueVariant

variable {F : Type} (conv : Conversions F)

/-! ## Types and elements -/

def asIntVector (v : ZstValue F) : Except Fault (List Int) :=
  v.values.mapM (toInt conv)

def asFloatVector (v : ZstValue F) : Except Fault (List F) :=
  v.values.mapM (toFloat conv)

def asStringVector (v : ZstValue F) : List String :=
  v.values.map (toStr conv)

/-- The elements of the vector that belongs to the type of a value. -/
def Elements (v : ZstValue F) (values : List (ZstValueVariant F)) : Prop :=
  match v.defaultType with
  | .intList => ∃ list, asIntVector conv v = .ok list ∧ values = list.map .int
  | .floatList => ∃ list, asFloatVector conv v = .ok list ∧ values = list.map .float
  | .strList => values = (asStringVector conv v).map .str
  | .none | .plugHandshake => values = []

/-- Serialising the value throws, or its message is verified and gives another
value the type and the elements. -/
def Transmits (verify : Option (PlugValue F) → Bool) (v w : ZstValue F) : Prop :=
  (∃ fault, v.serialize conv = .error fault) ∨
    ∃ message, v.serialize conv = .ok message ∧ verify message = true ∧
      (w.deserialize message).defaultType = v.defaultType ∧
        Elements conv v (w.deserialize message).values

/-- A type with elements. -/
def HasElements : ZstValueType → Prop
  | .intList | .floatList | .strList => True
  | .none | .plugHandshake => False

variable {conv} {verify : Option (PlugValue F) → Bool} {v : ZstValue F}

/-- A value whose type has elements is transmitted whatever the receiver held. -/
theorem transmits_of_hasElements (hverify : ∀ buffer, buffer.isList = true →
    verify (some buffer) = true) (htype : HasElements v.defaultType) (w : ZstValue F) :
    Transmits conv verify v w := by
  cases hserialize : v.serialize conv with
  | error fault => exact Or.inl ⟨fault, hserialize⟩
  | ok message =>
    refine Or.inr ⟨message, hserialize, ?_⟩
    unfold ZstValue.serialize at hserialize
    unfold Elements
    cases hv : v.defaultType with
    | none => rw [hv] at htype; cases htype
    | plugHandshake => rw [hv] at htype; cases htype
    | strList =>
      simp only [hv, Except.ok.injEq] at hserialize
      subst hserialize
      exact ⟨hverify _ rfl, rfl, rfl⟩
    | intList =>
      simp only [hv] at hserialize
      cases hlist : v.values.mapM (toInt conv) with
      | error fault => simp [hlist, bind, Except.bind] at hserialize
      | ok list =>
        simp only [hlist, bind, Except.bind, pure, Except.pure, Except.ok.injEq] at hserialize
        subst hserialize
        exact ⟨hverify _ rfl, rfl, list, hlist, rfl⟩
    | floatList =>
      simp only [hv] at hserialize
      cases hlist : v.values.mapM (toFloat conv) with
      | error fault => simp [hlist, bind, Except.bind] at hserialize
      | ok list =>
        simp only [hlist, bind, Except.bind, pure, Except.pure, Except.ok.injEq] at hserialize
        subst hserialize
        exact ⟨hverify _ rfl, rfl, list, hlist, rfl⟩

/-- A value of another type leaves the receiver as it was. -/
theorem transmits_of_absent (htype : ¬ HasElements v.defaultType) (w : ZstValue F) :
    Transmits conv verify v w ↔
      verify none = true ∧ w.defaultType = v.defaultType ∧ w.values = [] := by
  have habsent : v.serialize conv = .ok none ∧ ∀ values, Elements conv v values ↔ values = [] := by
    unfold ZstValue.serialize Elements
    cases hv : v.defaultType with
    | none => exact ⟨rfl, fun _ => Iff.rfl⟩
    | plugHandshake => exact ⟨rfl, fun _ => Iff.rfl⟩
    | intList | floatList | strList =>
      rw [hv] at htype
      exact absurd trivial htype
  obtain ⟨hserialize, helements⟩ := habsent
  unfold Transmits
  rw [hserialize]
  constructor
  · rintro (⟨fault, hfault⟩ | ⟨message, hmessage, hverified, hsame, hvalues⟩)
    · cases hfault
    · obtain rfl := Except.ok.inj hmessage
      exact ⟨hverified, hsame, (helements _).mp hvalues⟩
  · rintro ⟨hverified, hsame, hvalues⟩
    exact Or.inr ⟨none, rfl, hverified, hsame, (helements _).mpr hvalues⟩

variable (conv)

/-- A message keeps the type and the elements of a value exactly if its type has
elements, or the receiver is of that type and empty already. -/
theorem transmits_iff (verify : Option (PlugValue F) → Bool)
    (hverify : ∀ buffer, buffer.isList = true → verify (some buffer) = true)
    (v w : ZstValue F) :
    Transmits conv verify v w ↔ HasElements v.defaultType ∨
      verify none = true ∧ w.defaultType = v.defaultType ∧ w.values = [] := by
  by_cases htype : HasElements v.defaultType
  · exact iff_of_true (transmits_of_hasElements hverify htype w) (Or.inl htype)
  · rw [transmits_of_absent htype, or_iff_right htype]

theorem transmits_iff_floats : Transmits ValueDelivery.millionths (fun _ => true)
    { defaultType := .intList, values := [.float 2500000] } { values := [.int 7, .str "a"] } :=
  (transmits_iff ValueDelivery.millionths (fun _ => true) (fun _ _ => rfl) _ _).mpr
    (Or.inl trivial)

/-- A receiver for integers does not notice the value of a plug without a type. -/
theorem typeless_not_transmitted :
    ¬ ∀ (conv : Conversions Int) (verify : Option (PlugValue Int) → Bool),
      (∀ buffer, buffer.isList = true → verify (some buffer) = true) →
      ∀ v w, Transmits conv verify v w := by
  intro hall
  have htransmits := hall ValueDelivery.millionths (fun _ => true) (fun _ _ => rfl)
    { defaultType := .none } { values := [.int 7] }
  rw [transmits_of_absent id] at htransmits
  exact absurd htransmits.2.2 (by decide)

/-! ## Texts -/

def appendChar (v : ZstValue F) (text : String) : ZstValue F :=
  { v with values := v.values ++ [.str text] }

/-- What `fire` sends over the graph transport, as the receiver takes it. -/
def transmit (sender receiver : ZstValue F) : Except Fault (ZstValue F) := do
  return receiver.deserialize (← sender.serialize conv)

/-- `char_at` into a buffer: `memcpy` of the text it writes, if any. -/
def charAtInto (v : ZstValue F) (position : Nat) (buffer : List Char) :
    Except Fault (List Char) := do
  match ← v.charAt conv position with
  | some text => return text.toList ++ buffer.drop text.length
  | none => return buffer

/-- `size_at`, and `char_at` into a zeroed buffer of that size. -/
def readAt (v : ZstValue F) (position : Nat) : Except Fault String := do
  let size ← v.sizeAt conv position
  return String.ofList (← charAtInto conv v position (List.replicate size '\x00'))

/-- The reader's loop over all positions. -/
def readAll (v : ZstValue F) : Except Fault (List String) :=
  (List.range v.size).mapM (readAt conv v)

/-- A value to which some texts were appended. -/
def appended (texts : List String) : ZstValue F :=
  texts.foldl appendChar { defaultType := .strList }

theorem appended_eq (texts : List String) :
    (appended texts : ZstValue F) = { defaultType := .strList, values := texts.map .str } := by
  suffices happended : ∀ v : ZstValue F, texts.foldl appendChar v =
      { v with values := v.values ++ texts.map .str } from happended _
  induction texts with
  | nil => simp
  | cons text texts ih =>
    intro v
    rw [List.foldl_cons, ih]
    simp [appendChar]

/-- The texts arrive. -/
theorem transmit_appended (texts : List String) (receiver : ZstValue F) :
    transmit conv (appended texts) receiver =
      .ok { defaultType := .strList, values := texts.map .str } := by
  rw [appended_eq]
  simp [transmit, serialize, deserialize, toStr, bind, Except.bind, pure, Except.pure,
    Function.comp_def]

/-- `char_at` skips every position in front of the last one, counted as `size_t`. -/
def Skipped (size position : Nat) : Prop :=
  position < (size + (2 ^ 64 - 1)) % 2 ^ 64

instance (size position : Nat) : Decidable (Skipped size position) :=
  inferInstanceAs (Decidable (_ < _))

theorem charAt_of_skipped {v : ZstValue F} {position : Nat} (hskipped : Skipped v.size position) :
    v.charAt conv position = .ok none := by
  unfold ZstValue.charAt
  exact if_pos hskipped

theorem charAt_of_not_skipped {v : ZstValue F} {position : Nat}
    (hskipped : ¬ Skipped v.size position) :
    v.charAt conv position = (do return some (← v.stringAt conv position)) := by
  unfold ZstValue.charAt
  exact if_neg hskipped

/-- A position that is skipped reads as the zeros of the buffer. -/
theorem readAt_eq {texts : List String} {position : Nat} {text : String}
    (htext : texts[position]? = some text) :
    readAt conv { defaultType := .strList, values := texts.map .str } position =
      .ok (if Skipped texts.length position then
        String.ofList (List.replicate text.length '\x00') else text) := by
  have hvalue : (({ defaultType := .strList, values := texts.map .str } :
      ZstValue F).values)[position]? = some (.str text) := by
    simp [htext]
  obtain ⟨-, -, hstring, hsize⟩ := ValueDelivery.reads conv hvalue
  have hcount : ZstValue.size ({ defaultType := .strList, values := texts.map .str } :
      ZstValue F) = texts.length := by
    simp [ZstValue.size]
  unfold readAt charAtInto
  rw [hsize]
  by_cases hskipped : Skipped texts.length position
  · rw [if_pos hskipped, charAt_of_skipped conv (by rwa [hcount])]
    simp [byteSize, toStr, bind, Except.bind, pure, Except.pure]
  · rw [if_neg hskipped, charAt_of_not_skipped conv (by rwa [hcount]), hstring]
    simp [byteSize, toStr, bind, Except.bind, pure, Except.pure]

/-- Zeros are no text, unless there are none. -/
theorem ofList_zeros_eq {text : String} (hnul : '\x00' ∉ text.toList) :
    String.ofList (List.replicate text.length '\x00') = text ↔ text = "" := by
  constructor
  · intro hzeros
    by_contra hne
    refine hnul ?_
    rw [← hzeros, String.toList_ofList, List.mem_replicate]
    refine ⟨?_, rfl⟩
    simpa using hne
  · rintro rfl
    rfl

/-- A receiver reads exactly the texts that were appended to a plug if none of those
that `char_at` skips has a character. -/
theorem texts_read_iff (texts : List String) (hnul : ∀ text ∈ texts, '\x00' ∉ text.toList)
    (receiver : ZstValue F) :
    (∃ v, transmit conv (appended texts) receiver = .ok v ∧ readAll conv v = .ok texts) ↔
      ∀ position text, texts[position]? = some text → Skipped texts.length position →
        text = "" := by
  have hread : (∃ v, transmit conv (appended texts) receiver = .ok v ∧
      readAll conv v = .ok texts) ↔ readAll conv
        ({ defaultType := .strList, values := texts.map .str } : ZstValue F) = .ok texts := by
    rw [transmit_appended]
    constructor
    · rintro ⟨v, hv, hread⟩
      rw [← Except.ok.inj hv] at hread
      exact hread
    · exact fun hread => ⟨_, rfl, hread⟩
  have hposition : ∀ position text, texts[position]? = some text →
      (readAt conv { defaultType := .strList, values := texts.map .str } position = .ok text ↔
        (Skipped texts.length position → text = "")) := by
    intro position text htext
    rw [readAt_eq conv htext, Except.ok.injEq]
    by_cases hskipped : Skipped texts.length position
    · rw [if_pos hskipped, ofList_zeros_eq (hnul text (List.mem_of_getElem? htext))]
      simp [hskipped]
    · rw [if_neg hskipped]
      simp [hskipped]
  rw [hread, readAll, Library.mapM_ok_iff, List.forall₂_iff_get]
  simp only [ZstValue.size, List.length_map, List.length_range, true_and, List.get_eq_getElem,
    List.getElem_range]
  constructor
  · intro hall position text htext
    obtain ⟨hlt, hget⟩ := List.getElem?_eq_some_iff.mp htext
    rw [← hposition position text htext, ← hget]
    exact hall position hlt hlt
  · intro hall position hlt _
    rw [hposition position _ (List.getElem?_eq_getElem hlt)]
    exact hall position _ (List.getElem?_eq_getElem hlt)

theorem texts_read_iff_single : ∃ v,
    transmit ValueDelivery.millionths (appended ["", "hello"]) { values := [.int 7] } = .ok v ∧
      readAll ValueDelivery.millionths v = .ok ["", "hello"] :=
  (texts_read_iff ValueDelivery.millionths ["", "hello"] (by decide) _).mpr (by
    intro position text htext hskipped
    obtain rfl : position = 0 := by
      have hlt : position < 1 := hskipped
      omega
    simpa using htext.symm)

/-- Of two texts only the second one is read. -/
theorem first_text_lost : ¬ ∀ (conv : Conversions Int) (texts : List String),
    (∀ text ∈ texts, '\x00' ∉ text.toList) → ∀ receiver : ZstValue Int,
      ∃ v, transmit conv (appended texts) receiver = .ok v ∧ readAll conv v = .ok texts := by
  intro hall
  obtain ⟨v, hv, hread⟩ := hall ValueDelivery.millionths ["a", "b"] (by decide) {}
  rw [transmit_appended] at hv
  rw [← Except.ok.inj hv] at hread
  exact absurd hread (by decide)

end Showtime.ValueMessages
