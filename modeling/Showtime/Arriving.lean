import Showtime.Lifecycle
/-!
# Arriving proxies

`add_proxy_entity` as one equation: the new object takes the next place on the
heap, its parent lists it, and the lookup table finds it at its path.
-/

namespace Showtime
namespace ZstHierarchy

/-- What is found at a path is an object of the heap with that path, and nobody
is found at the empty one. -/
structure Keyed (h : ZstHierarchy) : Prop where
  uri : ∀ q e, h.findEntity q = some e → (h.entities e).uri = q
  allocated : ∀ q e, h.findEntity q = some e → e < h.next
  nowhere : h.findEntity [] = none

/-- Whoever is found above the path is an object, and is found at its own URI. -/
structure KeyedAbove (h : ZstHierarchy) (u : ZstURI) : Prop where
  uri : ∀ p, h.findEntity u.parent = some p → (h.entities p).uri = u.parent
  allocated : ∀ p, h.findEntity u.parent = some p → p < h.next
  nonempty : ∀ p, h.findEntity u.parent = some p → u.parent ≠ []

theorem Keyed.above {h : ZstHierarchy} (keyed : Keyed h) (u : ZstURI) : KeyedAbove h u where
  uri := keyed.uri u.parent
  allocated := keyed.allocated u.parent
  nonempty p hp hnil := by
    rw [hnil, keyed.nowhere] at hp
    cases hp

/-- An entity as the constructors leave it: without a place in the tree. -/
structure Unplaced (x : Entity) : Prop where
  registered : x.registered = false
  parentAddress : x.parentAddress = []
  children : x.children = []

theorem unplaced_unpack (buffer : EntityBuffer) : Unplaced (Entity.unpack buffer) :=
  ⟨rfl, rfl, rfl⟩

theorem unplaced_performerStageProxy (buffer : EntityBuffer) (address : String)
    (endpoint : Endpoint) :
    Unplaced (Entity.performerStageProxy buffer address endpoint) :=
  ⟨rfl, rfl, rfl⟩

/-- The new entity below its parent. A parent that lists the path already does
not become the parent of the entity. -/
def placed (h : ZstHierarchy) (x : Entity) : Entity :=
  match h.findEntity x.uri.parent with
  | some p =>
    if x.uri ∈ (h.entities p).children then x
    else
      let x := { x with parentAddress := x.uri.parent }
      if x.entityType = .factory then x.updateCreateableURIs else x
  | none => x

/-- The hierarchy with one more proxy. -/
def arrive (h : ZstHierarchy) (x : Entity) : ZstHierarchy :=
  { h with
    entities := fun d =>
      if d = h.next then
        { h.placed x with registered := true, isProxy := true, syncStatus := .activated }
      else if h.findEntity x.uri.parent = some d then
        { h.entities d with children := ZstURI.emplace (h.entities d).children x.uri }
      else h.entities d
    live := Function.update h.live h.next true
    next := h.next + 1
    lookup := Function.update h.lookup x.uri (some h.next)
    proxies := h.proxies ++ [h.next]
    hierarchyEvents := h.hierarchyEvents ++ arrivedEvent h.next x.entityType }

/-- The hierarchy while the new proxy is registered, but not announced yet. -/
def enrol (h : ZstHierarchy) (x : Entity) : ZstHierarchy :=
  { h with
    entities := fun d =>
      if d = h.next then { h.placed x with registered := true, isProxy := true }
      else if h.findEntity x.uri.parent = some d then
        { h.entities d with children := ZstURI.emplace (h.entities d).children x.uri }
      else h.entities d
    live := Function.update h.live h.next true
    next := h.next + 1
    lookup := Function.update h.lookup x.uri (some h.next) }

/-- The end of `add_proxy_entity`: the proxy and all below it are activated at
once, and the arrival is deferred. -/
def announce (h : ZstHierarchy) (e : EntityId) : ZstHierarchy :=
  let h := (h.getChildEntities e).foldl (fun h c =>
    (h.setProxy c).setActivationStatus c .activated) h
  { h with
    proxies := h.proxies ++ [e]
    hierarchyEvents := h.hierarchyEvents ++ arrivedEvent e (h.entities e).entityType }

section Arrive

variable {h : ZstHierarchy} {x : Entity}

theorem placed_uri (h : ZstHierarchy) (x : Entity) : (h.placed x).uri = x.uri := by
  unfold placed
  split
  · split
    · rfl
    · simp only
      split <;> rfl
  · rfl

theorem placed_entityType (h : ZstHierarchy) (x : Entity) :
    (h.placed x).entityType = x.entityType := by
  unfold placed
  split
  · split
    · rfl
    · simp only
      split <;> rfl
  · rfl

/-- A path that is put below its own parent stays as it is. -/
theorem reparentedURI_parent {u : ZstURI} (hu : u.parent ≠ []) :
    reparentedURI u u.parent = u := by
  have hparent : u.parent = u.dropLast := by
    unfold ZstURI.parent ZstURI.ofSegments at hu ⊢
    split at hu
    · exact absurd rfl hu
    · rename_i hne
      rw [if_neg hne]
  have hcontains : u.contains u.parent = true := by
    unfold ZstURI.contains
    rw [hparent] at hu ⊢
    simp [hu, List.dropLast_prefix]
  unfold reparentedURI
  rw [if_neg hu, if_pos hcontains]

theorem getChildEntities_of_no_children {e : EntityId} (hchildren : (h.entities e).children = []) :
    h.getChildEntities e = [e] := by
  have hnone : h.childEntities e = [] := by
    unfold childEntities
    rw [hchildren]
    split <;> rfl
  unfold getChildEntities
  cases h.next with
  | zero => rfl
  | succ depth => simp [descendants, hnone]

/-- `set_parent` of an entity that has no children and is not registered. -/
theorem setParent_unplaced (v : Overrides) {e p : EntityId} (depth : Nat)
    (hchildren : (h.entities e).children = []) (hregistered : (h.entities e).registered = false)
    (huri : reparentedURI (h.entities e).uri (h.entities p).uri = (h.entities e).uri) :
    setParent v (depth + 1) h e (some p) =
      h.modify e fun x =>
        let x := { x with parentAddress := (h.entities p).uri }
        if x.entityType = .factory then x.updateCreateableURIs else x := by
  have hbase : h.setParentBase e (some p) =
      h.modify e fun x =>
        let x := { x with parentAddress := (h.entities p).uri }
        if x.entityType = .factory then x.updateCreateableURIs else x := by
    unfold setParentBase updateURI
    simp only [addressOf, modify_entities_self, hregistered, huri, Bool.false_eq_true, if_false]
    split
    · simp [ZstHierarchy.modify, *]
    · simp [ZstHierarchy.modify, *]
  have hnone : (h.setParentBase e (some p)).childEntities e = [] := by
    have hentity : ((h.setParentBase e (some p)).entities e).children = [] := by
      rw [hbase, modify_entities_self]
      simp only
      split
      · exact hchildren
      · exact hchildren
    unfold childEntities
    rw [hentity]
    split <;> rfl
  unfold setParent
  simp only [hnone, List.foldl_nil]
  exact hbase

theorem registerEntity_idem (h : ZstHierarchy) (e : EntityId) :
    (h.registerEntity e).registerEntity e = h.registerEntity e := by
  simp [registerEntity, addEntityToLookup, ZstHierarchy.modify]

/-- A proxy is listed by its new parent, and nobody asks for its activation. -/
theorem adoptChild_proxy (v : Overrides) {e p : EntityId} (hne : p ≠ e)
    (hproxy : (h.entities e).isProxy = true) :
    (adoptChild v h p e true).registerEntity e =
      (h.modify p fun x =>
        { x with children := ZstURI.emplace x.children (h.entities e).uri }).registerEntity e := by
  have hproxy' : ((h.modify p fun x =>
      { x with children := ZstURI.emplace x.children (h.entities e).uri }).entities e).isProxy =
        true := by
    rw [modify_entities_of_ne h _ (Ne.symm hne)]
    exact hproxy
  unfold adoptChild
  simp only
  generalize (h.modify p fun x =>
    { x with children := ZstURI.emplace x.children (h.entities e).uri }) = k at hproxy' ⊢
  by_cases hregister : ((k.entities p).registered && !(k.entities e).registered) = true
  · have hproxy'' : ((k.registerEntity e).entities e).isProxy = true := by
      simp only [registerEntity, modify_entities_self]
      exact hproxy'
    rw [if_pos hregister, hproxy'']
    simp [registerEntity_idem]
  · rw [if_neg hregister, hproxy']
    simp

/-- The new object, once it is listed by its parent and registered. -/
theorem addChild_new (v : Overrides) (keyed : KeyedAbove h x.uri) (unplaced : Unplaced x)
    {p : EntityId}
    (hp : h.findEntity x.uri.parent = some p) (hcomponent : (h.entities p).isComponent = true) :
    let k := (h.alloc x).1.setProxy h.next
    (addChild v k p h.next).registerEntity h.next = h.enrol x := by
  intro k
  have hne : p ≠ h.next := Nat.ne_of_lt (keyed.allocated _ hp)
  have hpk : k.entities p = h.entities p := by
    simp [k, setProxy, alloc, modify_entities, hne]
  have hek : k.entities h.next = { x with isProxy := true } := by
    simp [k, setProxy, alloc]
  have hset := setParent_unplaced (h := k) (e := h.next) (p := p) v k.next
    (by rw [hek]; exact unplaced.children) (by rw [hek]; exact unplaced.registered)
    (by rw [hek, hpk, keyed.uri _ hp]; exact reparentedURI_parent (keyed.nonempty _ hp))
  have hchange : h.next ≠ p := Ne.symm hne
  unfold addChild addChildWith depth
  rw [hpk, if_pos hcomponent, hek]
  by_cases hlisted : x.uri ∈ (h.entities p).children
  · have hplaced : h.placed x = x := by
      unfold placed
      rw [hp]
      exact if_pos hlisted
    rw [if_pos hlisted]
    unfold registerEntity addEntityToLookup enrol
    rw [hplaced]
    simp only [ZstHierarchy.modify, hek]
    simp only [k, setProxy, alloc, ZstHierarchy.modify, hp]
    congr 1
    · funext d
      by_cases hde : d = h.next
      · simp [hde]
      · by_cases hdp : d = p
        · simp [hdp, hne, ZstURI.emplace, hlisted]
        · simp [hde, Ne.symm hdp]
  · have hplaced : h.placed x =
        if x.entityType = .factory then
          { x with parentAddress := x.uri.parent }.updateCreateableURIs
        else { x with parentAddress := x.uri.parent } := by
      unfold placed
      rw [hp]
      exact if_neg hlisted
    have hmoved : setParent v (k.next + 1) k h.next (some p) =
        k.modify h.next fun _ => { h.placed x with isProxy := true } := by
      rw [hset]
      simp only [ZstHierarchy.modify, hek, hpk, keyed.uri _ hp, hplaced]
      split <;> rfl
    rw [if_neg hlisted, hmoved, adoptChild_proxy v hne (by simp)]
    unfold registerEntity addEntityToLookup enrol
    simp only [k, setProxy, alloc, ZstHierarchy.modify, Function.update_self,
      Function.update_of_ne hchange, Function.update_of_ne hne, placed_uri, hp]
    congr 1
    · funext d
      by_cases hde : d = h.next
      · simp [hde]
      · by_cases hdp : d = p
        · simp [hdp, hne]
        · simp [hde, hdp, Ne.symm hdp]

theorem placed_children (unplaced : Unplaced x) : (h.placed x).children = [] := by
  unfold placed
  split
  · split
    · exact unplaced.children
    · simp only
      split <;> exact unplaced.children
  · exact unplaced.children

/-- A new object that is found below nobody. -/
theorem registerEntity_new (hp : h.findEntity x.uri.parent = none) :
    ((h.alloc x).1.setProxy h.next).registerEntity h.next = h.enrol x := by
  have hplaced : h.placed x = x := by
    unfold placed
    rw [hp]
  unfold registerEntity addEntityToLookup enrol
  simp only [setProxy, alloc, ZstHierarchy.modify, Function.update_self, hp, hplaced]
  congr 1
  funext d
  by_cases hde : d = h.next
  · simp [hde]
  · simp [hde]

theorem announce_enrol (unplaced : Unplaced x) :
    (h.enrol x).announce h.next = h.arrive x := by
  have hchildren : ((h.enrol x).entities h.next).children = [] := by
    simp [enrol, placed_children unplaced]
  unfold announce
  rw [getChildEntities_of_no_children hchildren]
  simp only [List.foldl_cons, List.foldl_nil, setProxy, setActivationStatus, ZstHierarchy.modify,
    enrol, arrive, Function.update_self, if_true, placed_entityType]
  congr 1
  funext d
  by_cases hde : d = h.next
  · simp [hde]
  · simp [hde]

/-- `add_proxy_entity`, whatever the hierarchy looks like. -/
theorem addProxyEntity_cases (v : Overrides) (h : ZstHierarchy) (x : Entity) :
    let k := (h.alloc x).1.setProxy h.next
    addProxyEntity v h x =
      match h.findEntity x.uri.parent with
      | some p =>
        if (k.entities p).isComponent then
          .ok (((addChild v k p h.next).registerEntity h.next).announce h.next)
        else .error .nullPointer
      | none => .ok ((k.registerEntity h.next).announce h.next) := by
  have hsnd : (h.alloc x).2 = h.next := rfl
  unfold addProxyEntity
  cases hp : h.findEntity x.uri.parent with
  | some p =>
    simp only [hsnd, bind, Except.bind, pure, Except.pure]
    split <;> rfl
  | none => rfl

/-- `add_proxy_entity`, which casts any parent to a component. -/
theorem addProxyEntity_eq (v : Overrides) (keyed : KeyedAbove h x.uri) (unplaced : Unplaced x)
    (hcomponent : ∀ p, h.findEntity x.uri.parent = some p →
      (h.entities p).isComponent = true) :
    addProxyEntity v h x = .ok (h.arrive x) := by
  have hcases := addProxyEntity_cases v h x
  simp only at hcases
  rw [hcases, ← announce_enrol unplaced]
  cases hp : h.findEntity x.uri.parent with
  | some p =>
    have hne : p ≠ h.next := Nat.ne_of_lt (keyed.allocated _ hp)
    have hcast : (((h.alloc x).1.setProxy h.next).entities p).isComponent = true := by
      simp only [setProxy, alloc, modify_entities, hne, if_false, Function.update_of_ne hne]
      exact hcomponent p hp
    have hnew := addChild_new v keyed unplaced hp (hcomponent p hp)
    simp only at hnew ⊢
    rw [if_pos hcast, hnew]
  | none =>
    simp only
    rw [registerEntity_new hp]

/-- A parent that is no component is a null pointer after the cast. -/
theorem addProxyEntity_error (v : Overrides) (keyed : KeyedAbove h x.uri) {p : EntityId}
    (hp : h.findEntity x.uri.parent = some p) (hcomponent : (h.entities p).isComponent = false) :
    addProxyEntity v h x = .error .nullPointer := by
  have hne : p ≠ h.next := Nat.ne_of_lt (keyed.allocated _ hp)
  have hcast : (((h.alloc x).1.setProxy h.next).entities p).isComponent = false := by
    simp only [setProxy, alloc, modify_entities, hne, if_false, Function.update_of_ne hne]
    exact hcomponent
  have hcases := addProxyEntity_cases v h x
  simp only [hp, hcast, Bool.false_eq_true, if_false] at hcases
  exact hcases

/-- Whenever `add_proxy_entity` returns, the proxy has arrived. -/
theorem eq_arrive_of_ok {v : Overrides} {l : ZstHierarchy} (keyed : KeyedAbove h x.uri)
    (unplaced : Unplaced x) (hadd : addProxyEntity v h x = .ok l) : l = h.arrive x := by
  have hcomponent : ∀ p, h.findEntity x.uri.parent = some p →
      (h.entities p).isComponent = true := fun p hp => by
    by_contra hkind
    rw [addProxyEntity_error v keyed hp (by simpa using hkind)] at hadd
    cases hadd
  rw [addProxyEntity_eq v keyed unplaced hcomponent] at hadd
  exact (Except.ok.inj hadd).symm

/-- A path that is its own parent is empty. -/
theorem eq_nil_of_parent_eq {u : ZstURI} (hu : u.parent = u) : u = [] := by
  unfold ZstURI.parent ZstURI.ofSegments at hu
  split at hu
  · exact hu.symm
  · have hlength := congrArg List.length hu
    rw [List.length_dropLast] at hlength
    exact List.eq_nil_of_length_eq_zero (by omega)

theorem arrive_uri {e : EntityId} (he : e ≠ h.next) :
    ((h.arrive x).entities e).uri = (h.entities e).uri := by
  simp only [arrive, if_neg he]
  split <;> rfl

theorem arrive_uri_next (h : ZstHierarchy) (x : Entity) :
    ((h.arrive x).entities h.next).uri = x.uri := by
  simp [arrive, placed_uri]

theorem arrive_kind (h : ZstHierarchy) (x : Entity) {e : EntityId} (he : e ≠ h.next) :
    ((h.arrive x).entities e).entityType = (h.entities e).entityType := by
  simp only [arrive, if_neg he]
  split <;> rfl

theorem arrive_kind_next (h : ZstHierarchy) (x : Entity) :
    ((h.arrive x).entities h.next).entityType = x.entityType := by
  simp [arrive, placed_entityType]

theorem arrive_stageProxy {e : EntityId} (he : e ≠ h.next) :
    ((h.arrive x).entities e).stageProxy = (h.entities e).stageProxy := by
  simp only [arrive, if_neg he]
  split <;> rfl

theorem arrive_stageProxy_next (h : ZstHierarchy) (x : Entity) :
    ((h.arrive x).entities h.next).stageProxy = x.stageProxy := by
  simp only [arrive, if_true]
  unfold placed
  split
  · split
    · rfl
    · simp only
      split <;> rfl
  · rfl

theorem Keyed.findEntity_arrive (keyed : Keyed h) (hnew : h.findEntity x.uri = none)
    (path : ZstURI) :
    (h.arrive x).findEntity path = if path = x.uri then some h.next else h.findEntity path := by
  cases hroot : h.root with
  | none => simp only [findEntity, arrive, hroot, Function.update_apply]
  | some r =>
    have hself : h.findEntity (h.entities r).uri = some r := by
      simp [findEntity, hroot]
    have hold : r ≠ h.next := Nat.ne_of_lt (keyed.allocated _ r hself)
    have hother : (h.entities r).uri ≠ x.uri := fun heq => by
      rw [heq, hnew] at hself
      cases hself
    have huri : ((h.arrive x).entities r).uri = (h.entities r).uri := arrive_uri hold
    have hrootEq : (h.arrive x).root = some r := hroot
    simp only [findEntity, hrootEq, hroot, huri]
    split
    · rename_i hpath
      rw [if_neg fun heq => hother (hpath.trans heq)]
    · simp only [arrive, Function.update_apply]

theorem Keyed.arrive (keyed : Keyed h) (hnew : h.findEntity x.uri = none) (huri : x.uri ≠ []) :
    Keyed (h.arrive x) := by
  refine ⟨fun q e hq => ?_, fun q e hq => ?_, ?_⟩
  · rw [keyed.findEntity_arrive hnew] at hq
    split at hq
    · rename_i hqx
      rw [← Option.some.inj hq, arrive_uri_next, hqx]
    · rw [arrive_uri (Nat.ne_of_lt (keyed.allocated q e hq))]
      exact keyed.uri q e hq
  · rw [keyed.findEntity_arrive hnew] at hq
    split at hq
    · rw [← Option.some.inj hq]
      exact Nat.lt_succ_self h.next
    · exact Nat.lt_succ_of_lt (keyed.allocated q e hq)
  · rw [keyed.findEntity_arrive hnew, if_neg fun hempty => huri hempty.symm]
    exact keyed.nowhere

/-! ## What a path shows -/

/-- The kind of the entity at a path, and the address of its parent. -/
def entryAt (h : ZstHierarchy) (path : ZstURI) : Option (ZstEntityType × ZstURI) :=
  (h.findEntity path).map fun e => ((h.entities e).entityType, (h.entities e).parentAddress)

/-- The entity at a path has a child at another one. -/
def ListsChild (h : ZstHierarchy) (path child : ZstURI) : Prop :=
  ∃ e, h.findEntity path = some e ∧ child ∈ (h.entities e).children

/-- Two hierarchies have entities of the same kinds at the same paths, with the
same parent addresses and the same child sets. -/
structure SameEntries (h k : ZstHierarchy) : Prop where
  entry : ∀ path, k.entryAt path = h.entryAt path
  lists : ∀ path child, k.ListsChild path child ↔ h.ListsChild path child

theorem placed_parentAddress (unplaced : Unplaced x)
    (hunlisted : ∀ p ∈ h.findEntity x.uri.parent, x.uri ∉ (h.entities p).children) :
    (h.placed x).parentAddress =
      if (h.findEntity x.uri.parent).isSome then x.uri.parent else [] := by
  unfold placed
  cases hp : h.findEntity x.uri.parent with
  | none => exact unplaced.parentAddress
  | some p =>
    simp only [if_neg (hunlisted p hp), Option.isSome_some, if_true]
    split <;> rfl

/-- Who arrives has its parent's address if the parent is there. -/
theorem entryAt_arrive (keyed : Keyed h) (unplaced : Unplaced x)
    (hnew : h.findEntity x.uri = none)
    (hunlisted : ∀ p ∈ h.findEntity x.uri.parent, x.uri ∉ (h.entities p).children)
    (path : ZstURI) :
    (h.arrive x).entryAt path =
      if path = x.uri then
        some (x.entityType, if (h.findEntity x.uri.parent).isSome then x.uri.parent else [])
      else h.entryAt path := by
  unfold entryAt
  rw [keyed.findEntity_arrive hnew]
  split
  · rw [← placed_parentAddress unplaced hunlisted]
    simp [ZstHierarchy.arrive, placed_entityType]
  · cases hpath : h.findEntity path with
    | none => rfl
    | some e =>
      have hold : e ≠ h.next := Nat.ne_of_lt (keyed.allocated path e hpath)
      simp only [Option.map_some, ZstHierarchy.arrive, if_neg hold]
      split <;> rfl

/-- Who arrives has no children, and is a child of its parent if that is there. -/
theorem lists_arrive (keyed : Keyed h) (unplaced : Unplaced x) (huri : x.uri ≠ [])
    (hnew : h.findEntity x.uri = none) (path child : ZstURI) :
    (h.arrive x).ListsChild path child ↔ h.ListsChild path child ∨
      child = x.uri ∧ path = x.uri.parent ∧ (h.findEntity path).isSome = true := by
  unfold ListsChild
  rw [keyed.findEntity_arrive hnew]
  by_cases hpath : path = x.uri
  · have hparent : x.uri ≠ x.uri.parent := fun heq => huri (eq_nil_of_parent_eq heq.symm)
    have hchildren : ((h.arrive x).entities h.next).children = [] := by
      simp [ZstHierarchy.arrive, placed_children unplaced]
    simp [hpath, hnew, hchildren, hparent]
  rw [if_neg hpath]
  cases hfind : h.findEntity path with
  | none => simp
  | some e =>
    have hold : e ≠ h.next := Nat.ne_of_lt (keyed.allocated path e hfind)
    have hparent : h.findEntity x.uri.parent = some e ↔ path = x.uri.parent := by
      constructor
      · intro hp
        exact (keyed.uri _ _ hfind).symm.trans (keyed.uri _ _ hp)
      · rintro rfl
        exact hfind
    simp only [Option.some.injEq, exists_eq_left', Option.isSome_some, and_true,
      ZstHierarchy.arrive, if_neg hold, hparent]
    by_cases hchild : path = x.uri.parent
    · simp [hchild, or_comm]
    · simp [hchild]

end Arrive

end ZstHierarchy
end Showtime
