import Showtime.Bundles
/-!
# Copies of components

A copy is a new object with dispatchers of its own, so that no hierarchy is an
adaptor of it. What the model of the hierarchy reads off the registration flag has
to be said of each object here: the flag is copied, and the adaptors are not.
-/

namespace Showtime.Copies

open ZstHierarchy

/-- What an `m_value` points to. -/
abbrev ValueId := Nat

/-- The heap, with the members that tell an object from its copy. -/
structure Objects where
  hierarchy : ZstHierarchy
  /-- Whether the hierarchy is an adaptor of the object's `m_hierarchy_events`. -/
  adaptors : EntityId → Bool
  /-- `m_value` of a plug, which owns what it points to. -/
  values : EntityId → ValueId

namespace Objects

def entity (s : Objects) (e : EntityId) : Entity :=
  s.hierarchy.entities e

/-- `ZstComponent::get_child_by_URI`: the default adaptor finds nothing. -/
def getChildByURI (s : Objects) (e : EntityId) (path : ZstURI) : Option EntityId :=
  if s.adaptors e then s.hierarchy.findEntity path else none

/-- The children of a component that are found. -/
def childEntities (s : Objects) (e : EntityId) : List EntityId :=
  if (s.entity e).isComponent then (s.entity e).children.filterMap (s.getChildByURI e) else []

/-- A new object, whose dispatchers have their default adaptors only. -/
def alloc (s : Objects) (x : Entity) (value : ValueId) : Objects where
  hierarchy := (s.hierarchy.alloc x).1
  adaptors := Function.update s.adaptors s.hierarchy.next false
  values := Function.update s.values s.hierarchy.next value

def modify (s : Objects) (e : EntityId) (f : Entity → Entity) : Objects :=
  { s with hierarchy := s.hierarchy.modify e f }

/-- `ZstComponent::add_child` between two copies: neither has an adaptor that a new
URI, a registration or an activation would be told to. -/
def addChild (s : Objects) (p child : EntityId) : Objects :=
  if (s.entity child).uri ∈ (s.entity p).children then s
  else
    let s := s.modify child fun x =>
      { x with parentAddress := (s.entity p).uri, uri := reparentedURI x.uri (s.entity p).uri }
    s.modify p fun x => { x with children := ZstURI.emplace x.children (s.entity child).uri }

end Objects

/-! ## Copy constructors -/

/-- `ZstEntityBase(const ZstEntityBase&)`. -/
def copyEntityBase (other : Entity) : Entity where
  entityType := other.entityType
  uri := other.uri
  parentAddress := other.parentAddress
  currentOwner := other.currentOwner
  registered := other.registered

/-- `ZstPlug(const ZstPlug&)` and those of its subclasses: `m_value` takes the other's pointer. -/
def copyPlug (s : Objects) (other : EntityId) : Objects × EntityId :=
  let x := s.entity other
  (s.alloc { copyEntityBase x with
      direction := x.direction
      maxConnectedCables := x.maxConnectedCables
      canFire := x.canFire } (s.values other), s.hierarchy.next)

/-- One round of the loop over the other's children, which are looked up through the
new object. -/
def copyChild (copy : Objects → EntityId → ExceptT Fault Option (Objects × EntityId))
    (this : EntityId) (s : Objects) (path : ZstURI) : ExceptT Fault Option Objects :=
  match s.getChildByURI this path with
  | none => throw .nullPointer
  | some child =>
    match (s.entity child).entityType, (s.entity child).direction with
    | .component, _ => do
      let (s, new) ← copy s child
      return s.addChild this new
    | .plug, .inJack | .plug, .outJack =>
      let (s, new) := copyPlug s child
      return s.addChild this new
    | _, _ => return s

/-- `ZstComponent(const ZstComponent&)`, to a given depth. -/
def copyComponent : Nat → Objects → EntityId → ExceptT Fault Option (Objects × EntityId)
  | 0, _, _ => .mk none
  | depth + 1, s, other => do
    let x := s.entity other
    let this := s.hierarchy.next
    let s ← x.children.foldlM (copyChild (copyComponent depth) this)
      (s.alloc (copyEntityBase x) 0)
    return (s.modify this fun y => { y with componentType := x.componentType }, this)

/-! ## Faithful copies -/

/-- The entities are of one kind, have one name, and as plugs one direction and limit. -/
structure SameData (x y : Entity) : Prop where
  entityType : y.entityType = x.entityType
  componentType : x.entityType = .component → y.componentType = x.componentType
  name : y.uri.last = x.uri.last
  direction : x.entityType = .plug → y.direction = x.direction
  maxConnectedCables : x.entityType = .plug → y.maxConnectedCables = x.maxConnectedCables

/-- The trees below two entities are the same at every level. -/
def TreesMatch (s t : Objects) (e c : EntityId) : Prop :=
  ∃ R : EntityId → EntityId → Prop, R e c ∧ ∀ x y, R x y →
    SameData (s.entity x) (t.entity y) ∧ List.Forall₂ R (s.childEntities x) (t.childEntities y)

/-- What was on the heap is unchanged, and so is the lookup. -/
structure HeapUnchanged (s t : Objects) : Prop where
  entities : ∀ d < s.hierarchy.next, t.entity d = s.entity d
  lookup : t.hierarchy.lookup = s.hierarchy.lookup
  values : ∀ d < s.hierarchy.next, t.values d = s.values d

/-- No new plug owns the value of an old one. -/
def Unshared (s t : Objects) : Prop :=
  ∀ d < s.hierarchy.next, ∀ d', s.hierarchy.next ≤ d' → d' < t.hierarchy.next →
    (t.entity d).entityType = .plug → (t.entity d').entityType = .plug → t.values d ≠ t.values d'

/-- The copy comes to an end without a fault, is the same tree, and leaves the
original what it was and had. -/
def CopiedFaithfully (s : Objects) (e : EntityId) : Prop :=
  ∃ t c depth, (∀ more, depth ≤ more → (copyComponent more s e).run = some (.ok (t, c))) ∧
    TreesMatch s t e c ∧ HeapUnchanged s t ∧ Unshared s t

/-! ## The first child -/

/-- The new object finds no child, so that the first one is a null pointer. -/
theorem copyComponent_children {s : Objects} {e : EntityId} {q : ZstURI} {rest : List ZstURI}
    (hchildren : (s.entity e).children = q :: rest) (depth : Nat) :
    (copyComponent (depth + 1) s e).run = some (.error .nullPointer) := by
  have hfind : (s.alloc (copyEntityBase (s.entity e)) 0).getChildByURI s.hierarchy.next q = none := by
    simp [Objects.getChildByURI, Objects.alloc]
  simp only [copyComponent, hchildren, List.foldlM_cons, copyChild, hfind]
  rfl

/-- The copy of a component that has no children. -/
def childless (s : Objects) (e : EntityId) : Objects :=
  (s.alloc (copyEntityBase (s.entity e)) 0).modify s.hierarchy.next fun y =>
    { y with componentType := (s.entity e).componentType }

theorem copyComponent_childless {s : Objects} {e : EntityId}
    (hchildren : (s.entity e).children = []) (depth : Nat) :
    (copyComponent (depth + 1) s e).run = some (.ok (childless s e, s.hierarchy.next)) := by
  simp only [copyComponent, hchildren, List.foldlM_nil]
  rfl

theorem childless_entity_self (s : Objects) (e : EntityId) :
    (childless s e).entity s.hierarchy.next =
      { copyEntityBase (s.entity e) with componentType := (s.entity e).componentType } := by
  simp [childless, Objects.entity, Objects.modify, Objects.alloc, ZstHierarchy.alloc]

theorem childless_untouched (s : Objects) (e : EntityId) : HeapUnchanged s (childless s e) where
  entities d hd := by
    have hne : d ≠ s.hierarchy.next := hd.ne
    simp [childless, Objects.entity, Objects.modify, Objects.alloc, ZstHierarchy.alloc,
      modify_entities_of_ne, hne]
  lookup := rfl
  values d hd := Function.update_of_ne hd.ne _ _

/-- A component without children has a copy that is another one of the same kind. -/
theorem childless_sameTree {s : Objects} {e : EntityId}
    (hkind : (s.entity e).entityType = .component) (hchildren : (s.entity e).children = []) :
    TreesMatch s (childless s e) e s.hierarchy.next := by
  refine ⟨fun x y => x = e ∧ y = s.hierarchy.next, ⟨rfl, rfl⟩, ?_⟩
  have hplug : (s.entity e).entityType ≠ .plug := by simp [hkind]
  rintro _ _ ⟨rfl, rfl⟩
  refine ⟨?_, ?_⟩
  · rw [childless_entity_self]
    exact ⟨rfl, fun _ => rfl, rfl, fun h => absurd h hplug, fun h => absurd h hplug⟩
  · simp [Objects.childEntities, childless_entity_self, copyEntityBase, hchildren]

/-- Copying a component yields its tree exactly if the tree is the component alone. -/
theorem copyComponent_faithful_iff (s : Objects) (e : EntityId)
    (hkind : (s.entity e).entityType = .component) :
    CopiedFaithfully s e ↔ (s.entity e).children = [] := by
  constructor
  · rintro ⟨t, c, depth, hcopy, -⟩
    cases hchildren : (s.entity e).children with
    | nil => rfl
    | cons q rest =>
      have hfault := copyComponent_children hchildren depth
      rw [hcopy (depth + 1) (Nat.le_succ depth)] at hfault
      cases hfault
  · intro hchildren
    refine ⟨childless s e, s.hierarchy.next, 1, fun more hmore => ?_,
      childless_sameTree hkind hchildren, childless_untouched s e, ?_⟩
    · obtain ⟨depth, rfl⟩ := Nat.exists_eq_add_of_le' hmore
      exact copyComponent_childless hchildren depth
    · intro d hd d' hd' hlt _ hplug'
      obtain rfl : d' = s.hierarchy.next := Nat.le_antisymm (Nat.le_of_lt_succ hlt) hd'
      rw [childless_entity_self] at hplug'
      rw [copyEntityBase, hkind] at hplug'
      cases hplug'

/-- A component without children, beside one that has two plugs. -/
def registered : Objects where
  hierarchy := ofList [
    { entityType := .performer, uri := ["perf"], children := [["perf", "comp"], ["perf", "leaf"]],
      registered := true },
    { entityType := .component, uri := ["perf", "comp"], parentAddress := ["perf"],
      children := [["perf", "comp", "in"], ["perf", "comp", "out"]], registered := true },
    { entityType := .plug, uri := ["perf", "comp", "in"], parentAddress := ["perf", "comp"],
      direction := .inJack, registered := true },
    { entityType := .plug, uri := ["perf", "comp", "out"], parentAddress := ["perf", "comp"],
      direction := .outJack, registered := true },
    { entityType := .component, uri := ["perf", "leaf"], parentAddress := ["perf"],
      registered := true }]
  adaptors _ := true
  values e := e

theorem registered_tree : RegisteredTree registered.hierarchy :=
  registeredTree_ofList (by decide) (by decide) (by decide) (by decide) (by decide)

theorem registered_below {d : EntityId} (hd : registered.hierarchy.Below 1 d) :
    d = 1 ∨ d = 2 ∨ d = 3 := by
  induction hd with
  | refl => exact .inl rfl
  | tail _ hchild ih =>
    obtain ⟨q, hq, hlookup⟩ := hchild
    rcases ih with rfl | rfl | rfl
    · rcases List.mem_pair.mp hq with rfl | rfl
      · exact .inr (.inl (Option.some.inj hlookup).symm)
      · exact .inr (.inr (Option.some.inj hlookup).symm)
    · cases hq
    · cases hq

theorem copyComponent_faithful_iff_leaf :
    CopiedFaithfully registered 4 ∧ ¬ CopiedFaithfully registered 1 :=
  ⟨(copyComponent_faithful_iff registered 4 rfl).mpr rfl, fun hfaithful =>
    absurd ((copyComponent_faithful_iff registered 1 rfl).mp hfaithful) (by decide)⟩

/-- The component with the plugs is not copied. -/
theorem copyComponent_not_faithful : ¬ ∀ s : Objects, RegisteredTree s.hierarchy →
    (∀ e, s.hierarchy.InTree e → s.adaptors e = true) →
    ∀ e, s.hierarchy.InTree e → (s.entity e).entityType = .component →
    (∀ d, s.hierarchy.Below e d → (s.entity d).entityType = .component ∨
      ((s.entity d).entityType = .plug ∧ (s.entity d).direction ≠ .none)) →
    CopiedFaithfully s e := by
  intro hall
  have hfaithful := hall registered registered_tree (fun _ _ => rfl) 1 (by decide) rfl fun d hd => by
    rcases registered_below hd with rfl | rfl | rfl
    · exact .inl rfl
    · exact .inr ⟨rfl, by decide⟩
    · exact .inr ⟨rfl, by decide⟩
  obtain ⟨t, c, depth, hcopy, -⟩ := hfaithful
  have hfault := copyComponent_children (s := registered) (e := 1) rfl depth
  rw [hcopy (depth + 1) (Nat.le_succ depth)] at hfault
  cases hfault

end Showtime.Copies
