import Mathlib.Data.List.Basic
import Mathlib.Data.List.Nodup
import Mathlib.Order.CompleteLattice.Basic
/-!
# Sets that are ordered by a key

`std::set` and `std::map` with a comparison that looks at a part of an element
only, its key: no two elements have the same key, and an element whose key is
there already is not inserted. The list is in the order of the keys.
-/

namespace Showtime.Library

variable {Element Key : Type*} [LinearOrder Key]

structure KeyedSet (key : Element → Key) where
  items : List Element
  sorted : items.Pairwise fun a b => key a < key b

namespace KeyedSet

variable {key : Element → Key}

/-- The element goes before the first one with a greater key. -/
def insertInto (key : Element → Key) (a : Element) : List Element → List Element
  | [] => [a]
  | b :: items =>
    if key b < key a then b :: insertInto key a items
    else if key a < key b then a :: b :: items
    else b :: items

theorem mem_insertInto {a b : Element} {items : List Element}
    (hsorted : items.Pairwise fun a b => key a < key b) :
    b ∈ insertInto key a items ↔ b ∈ items ∨ b = a ∧ ∀ c ∈ items, key c ≠ key a := by
  induction items with
  | nil => simp [insertInto]
  | cons c items ih =>
    obtain ⟨hfirst, hrest⟩ := List.pairwise_cons.mp hsorted
    unfold insertInto
    split
    · rename_i hlt
      rw [List.mem_cons, ih hrest, List.mem_cons, List.forall_mem_cons, or_assoc]
      have hne : key c ≠ key a := ne_of_lt hlt
      simp only [ne_eq, hne, not_false_eq_true, true_and]
    · rename_i hnot
      split
      · rename_i hlt
        have hall : ∀ d ∈ c :: items, key d ≠ key a := by
          intro d hd
          rcases List.mem_cons.mp hd with rfl | hd
          · exact ne_of_gt hlt
          · exact ne_of_gt (lt_trans hlt (hfirst d hd))
        rw [List.mem_cons, or_comm]
        exact or_congr_right ⟨fun hb => ⟨hb, hall⟩, fun hb => hb.1⟩
      · rename_i hnot'
        have heq : key c = key a := le_antisymm (not_lt.mp hnot') (not_lt.mp hnot)
        refine ⟨Or.inl, fun hb => hb.elim id fun hb => ?_⟩
        exact absurd heq (hb.2 c List.mem_cons_self)

/-- Without an element of its key, the element is added. -/
theorem perm_insertInto {a : Element} {items : List Element} (hnew : ∀ b ∈ items, key b ≠ key a) :
    (insertInto key a items).Perm (a :: items) := by
  induction items with
  | nil => exact List.Perm.refl _
  | cons b items ih =>
    unfold insertInto
    split
    · exact ((ih fun c hc => hnew c (List.mem_cons_of_mem b hc)).cons b).trans (List.Perm.swap a b _)
    · rename_i hnot
      split
      · exact List.Perm.refl _
      · rename_i hnot'
        exact absurd (le_antisymm (not_lt.mp hnot') (not_lt.mp hnot)) (hnew b List.mem_cons_self)

theorem sorted_insertInto {a : Element} {items : List Element}
    (hsorted : items.Pairwise fun a b => key a < key b) :
    (insertInto key a items).Pairwise fun a b => key a < key b := by
  induction items with
  | nil => exact List.pairwise_singleton _ _
  | cons c items ih =>
    obtain ⟨hfirst, hrest⟩ := List.pairwise_cons.mp hsorted
    unfold insertInto
    split
    · rename_i hlt
      refine List.pairwise_cons.mpr ⟨fun b hb => ?_, ih hrest⟩
      rcases (mem_insertInto hrest).mp hb with hb | ⟨rfl, -⟩
      · exact hfirst b hb
      · exact hlt
    · split
      · rename_i hlt
        refine List.pairwise_cons.mpr ⟨fun b hb => ?_, hsorted⟩
        rcases List.mem_cons.mp hb with rfl | hb
        · exact hlt
        · exact lt_trans hlt (hfirst b hb)
      · exact hsorted

def empty : KeyedSet key :=
  ⟨[], List.Pairwise.nil⟩

def find (s : KeyedSet key) (k : Key) : Option Element :=
  s.items.find? fun a => key a = k

def insert (s : KeyedSet key) (a : Element) : KeyedSet key :=
  ⟨insertInto key a s.items, sorted_insertInto s.sorted⟩

def erase (s : KeyedSet key) (k : Key) : KeyedSet key :=
  ⟨s.items.filter fun a => key a ≠ k, s.sorted.filter _⟩

/-- The element takes the place of the one with its key. -/
def put (s : KeyedSet key) (a : Element) : KeyedSet key :=
  (s.erase (key a)).insert a

/-- The element of a key is changed, and keeps its key. -/
def adjust (s : KeyedSet key) (k : Key) (f : Element → Element) (hf : ∀ a, key (f a) = key a) :
    KeyedSet key :=
  ⟨s.items.map fun a => if key a = k then f a else a, by
    refine List.pairwise_map.mpr (s.sorted.imp fun {a b} hab => ?_)
    have hkey : ∀ c, key (if key c = k then f c else c) = key c := fun c => by
      split
      · exact hf c
      · rfl
    rw [hkey, hkey]
    exact hab⟩

instance : Membership Element (KeyedSet key) :=
  ⟨fun s a => a ∈ s.items⟩

theorem mem_def {s : KeyedSet key} {a : Element} : a ∈ s ↔ a ∈ s.items :=
  Iff.rfl

@[simp] theorem not_mem_empty (a : Element) : a ∉ (empty : KeyedSet key) :=
  List.not_mem_nil

theorem nodup (s : KeyedSet key) : (s.items.map key).Nodup :=
  List.pairwise_map.mpr (s.sorted.imp fun hlt => ne_of_lt hlt)

/-- An element is known by its key. -/
theorem eq_of_key_eq {s : KeyedSet key} {a b : Element} (ha : a ∈ s) (hb : b ∈ s)
    (hab : key a = key b) : a = b :=
  List.inj_on_of_nodup_map s.nodup ha hb hab

theorem find_eq_some {s : KeyedSet key} {k : Key} {a : Element} :
    s.find k = some a ↔ a ∈ s ∧ key a = k := by
  unfold find
  constructor
  · intro hfind
    exact ⟨List.mem_of_find?_eq_some hfind, by simpa using List.find?_some hfind⟩
  · rintro ⟨ha, rfl⟩
    cases hfind : s.items.find? (fun b => key b = key a) with
    | none => simpa using List.find?_eq_none.mp hfind a ha
    | some b =>
      have hb := List.mem_of_find?_eq_some hfind
      have hkey : key b = key a := by simpa using List.find?_some hfind
      rw [eq_of_key_eq (s := s) hb ha hkey]

theorem find_eq_none {s : KeyedSet key} {k : Key} :
    s.find k = none ↔ ∀ a ∈ s, key a ≠ k := by
  unfold find
  rw [List.find?_eq_none]
  simp only [decide_eq_true_eq]
  rfl

theorem isSome_find {s : KeyedSet key} {k : Key} :
    (s.find k).isSome = true ↔ ∃ a ∈ s, key a = k := by
  rw [Option.isSome_iff_exists]
  exact exists_congr fun _ => find_eq_some

@[simp] theorem mem_insert {s : KeyedSet key} {a b : Element} :
    b ∈ s.insert a ↔ b ∈ s ∨ b = a ∧ s.find (key a) = none := by
  rw [find_eq_none]
  exact mem_insertInto s.sorted

@[simp] theorem mem_erase {s : KeyedSet key} {k : Key} {a : Element} :
    a ∈ s.erase k ↔ a ∈ s ∧ key a ≠ k := by
  unfold erase
  rw [mem_def, List.mem_filter]
  simp only [decide_eq_true_eq]
  rfl

theorem isSome_find_insert {s : KeyedSet key} {a : Element} {k : Key} :
    ((s.insert a).find k).isSome = true ↔ key a = k ∨ (s.find k).isSome = true := by
  rw [isSome_find, isSome_find]
  constructor
  · rintro ⟨b, hb, hkey⟩
    rcases mem_insert.mp hb with hb | ⟨rfl, -⟩
    · exact Or.inr ⟨b, hb, hkey⟩
    · exact Or.inl hkey
  · rintro (rfl | ⟨b, hb, hkey⟩)
    · cases hfind : s.find (key a) with
      | none => exact ⟨a, mem_insert.mpr (Or.inr ⟨rfl, hfind⟩), rfl⟩
      | some b =>
        obtain ⟨hb, hkey⟩ := find_eq_some.mp hfind
        exact ⟨b, mem_insert.mpr (Or.inl hb), hkey⟩
    · exact ⟨b, mem_insert.mpr (Or.inl hb), hkey⟩

theorem isSome_find_erase {s : KeyedSet key} {k k' : Key} :
    ((s.erase k).find k').isSome = true ↔ k' ≠ k ∧ (s.find k').isSome = true := by
  rw [isSome_find, isSome_find]
  constructor
  · rintro ⟨a, ha, rfl⟩
    obtain ⟨ha, hkey⟩ := mem_erase.mp ha
    exact ⟨hkey, a, ha, rfl⟩
  · rintro ⟨hne, a, ha, rfl⟩
    exact ⟨a, mem_erase.mpr ⟨ha, hne⟩, rfl⟩

/-- The elements of a list go in one after the other. -/
def insertAll (s : KeyedSet key) (items : List Element) : KeyedSet key :=
  items.foldl insert s

theorem perm_insert {s : KeyedSet key} {a : Element} (hnew : ∀ b ∈ s.items, key b ≠ key a) :
    (s.insert a).items.Perm (a :: s.items) :=
  perm_insertInto hnew

/-- What is in the set afterwards was there or is in the list. -/
theorem mem_or_mem_of_mem_insertAll {s : KeyedSet key} {items : List Element} {a : Element}
    (ha : a ∈ s.insertAll items) : a ∈ s ∨ a ∈ items := by
  induction items generalizing s with
  | nil => exact Or.inl ha
  | cons b items ih =>
    rcases ih ha with hbefore | hlater
    · rcases mem_insert.mp hbefore with hbefore | ⟨rfl, -⟩
      · exact Or.inl hbefore
      · exact Or.inr List.mem_cons_self
    · exact Or.inr (List.mem_cons_of_mem b hlater)

/-- The elements of a list whose keys are all different and new are added. -/
theorem perm_insertAll {s : KeyedSet key} {items : List Element} (hnodup : (items.map key).Nodup)
    (hnew : ∀ a ∈ items, ∀ b ∈ s.items, key b ≠ key a) :
    (s.insertAll items).items.Perm (s.items ++ items) := by
  induction items generalizing s with
  | nil => simp [insertAll]
  | cons a items ih =>
    obtain ⟨hfirst, hrest⟩ := List.nodup_cons.mp hnodup
    have hinsert := perm_insert (hnew a List.mem_cons_self)
    have hlater : ∀ c ∈ items, ∀ b ∈ (s.insert a).items, key b ≠ key c := by
      intro c hc b hb
      rcases List.mem_cons.mp (hinsert.mem_iff.mp hb) with rfl | hb
      · intro heq
        exact hfirst (heq ▸ List.mem_map_of_mem hc)
      · exact hnew c (List.mem_cons_of_mem a hc) b hb
    exact ((ih hrest hlater).trans (hinsert.append_right items)).trans List.perm_middle.symm

theorem find_insert_of_none {s : KeyedSet key} {a : Element} (hnew : s.find (key a) = none)
    (k : Key) : (s.insert a).find k = if key a = k then some a else s.find k := by
  ext b
  rw [find_eq_some, mem_insert]
  split
  · rename_i hkey
    subst hkey
    rw [find_eq_none] at hnew
    constructor
    · rintro ⟨hb | ⟨rfl, -⟩, hkey⟩
      · exact absurd hkey (hnew b hb)
      · rfl
    · rintro ⟨⟩
      exact ⟨Or.inr ⟨rfl, find_eq_none.mpr hnew⟩, rfl⟩
  · rename_i hkey
    rw [find_eq_some]
    refine and_congr_left fun hb => or_iff_left ?_
    rintro ⟨rfl, -⟩
    exact hkey hb

@[simp] theorem find_erase (s : KeyedSet key) (k k' : Key) :
    (s.erase k).find k' = if k' = k then none else s.find k' := by
  ext b
  rw [find_eq_some, mem_erase]
  split
  · rename_i hkey
    simp [hkey]
  · rename_i hkey
    rw [find_eq_some, and_right_comm]
    refine and_iff_left_of_imp fun hb => ?_
    rw [hb.2]
    exact hkey

@[simp] theorem find_put (s : KeyedSet key) (a : Element) (k : Key) :
    (s.put a).find k = if key a = k then some a else s.find k := by
  unfold put
  rw [find_insert_of_none (by simp)]
  split
  · rfl
  · rename_i hkey
    rw [find_erase, if_neg (Ne.symm hkey)]

theorem mem_adjust {s : KeyedSet key} {k : Key} {f : Element → Element}
    {hf : ∀ a, key (f a) = key a} {b : Element} :
    b ∈ s.adjust k f hf ↔ b ∈ s ∧ key b ≠ k ∨ ∃ a ∈ s, key a = k ∧ b = f a := by
  unfold adjust
  rw [mem_def, List.mem_map]
  constructor
  · rintro ⟨a, ha, rfl⟩
    split
    · rename_i hkey
      exact Or.inr ⟨a, ha, hkey, rfl⟩
    · rename_i hkey
      exact Or.inl ⟨ha, hkey⟩
  · rintro (⟨hb, hkey⟩ | ⟨a, ha, hkey, rfl⟩)
    · exact ⟨b, hb, if_neg hkey⟩
    · exact ⟨a, ha, if_pos hkey⟩

end KeyedSet

end Showtime.Library
