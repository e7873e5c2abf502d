import Mathlib.Logic.Function.Basic
import Showtime.Entity
/-!
# The entity hierarchy

`ZstHierarchy` with the heap its entities live in, the lookup table, the queue
of deferred hierarchy events, and the queues of its `ZstSynchronisableModule`.
What a subclass overrides is passed in as `Overrides`; the queues are drained
in `Showtime.Lifecycle`.
-/

namespace Showtime

/-- Behaviour that C++ leaves undefined, and exceptions. -/
inductive Fault
  | nullPointer | freedPointer | exception
  deriving DecidableEq, Repr

/-- `ZstURI::first` on a path that a message brings: it throws on the empty one. -/
def firstSegment (path : ZstURI) : Except Fault ZstURI :=
  if path = [] then .error .exception else .ok path.first

theorem firstSegment_ok {path first : ZstURI} (hfirst : firstSegment path = .ok first) :
    first = path.first := by
  unfold firstSegment at hfirst
  split at hfirst
  · cases hfirst
  · exact (Except.ok.inj hfirst).symm

/-- The events that `m_hierarchy_events` defers. -/
inductive HierarchyEvent
  | entityArriving (entity : EntityId)
  | factoryArriving (factory : EntityId)
  | performerArriving (performer : EntityId)
  | entityLeaving (path : ZstURI)
  | factoryLeaving (path : ZstURI)
  | performerLeaving (path : ZstURI)
  | entityUpdated (entity : EntityId)
  deriving DecidableEq, Repr

structure ZstHierarchy where
  /-- The object behind a pointer; it keeps its last value once it is freed. -/
  entities : EntityId → Entity
  live : EntityId → Bool
  /-- The next id to be allocated. -/
  next : EntityId
  /-- `m_entity_lookup`. -/
  lookup : ZstURI → Option EntityId
  /-- `m_proxies`, in the order of iteration. -/
  proxies : List EntityId
  /-- The client's `m_root`; the stage has none. -/
  root : Option EntityId := none
  hierarchyEvents : List HierarchyEvent := []
  /-- The module's queue: each item processes one entity's own events. -/
  synchronisableEvents : List EntityId := []
  /-- `m_reaper`'s cleanup callbacks. -/
  cleanupOps : List EntityId := []
  deadIDs : List EntityId := []
  /-- Whether a queued callback has run on an object that was freed. -/
  freedAccess : Bool := false
  /-- What was handed to the transports, oldest first. -/
  sent : List Outgoing := []

namespace ZstHierarchy

/-! ## Access to the heap -/

def modify (h : ZstHierarchy) (e : EntityId) (f : Entity → Entity) : ZstHierarchy :=
  { h with entities := Function.update h.entities e (f (h.entities e)) }

@[simp] theorem modify_entities_self (h : ZstHierarchy) (e : EntityId) (f : Entity → Entity) :
    (h.modify e f).entities e = f (h.entities e) := by
  simp [modify]

theorem modify_entities_of_ne (h : ZstHierarchy) {e d : EntityId} (f : Entity → Entity)
    (hne : d ≠ e) : (h.modify e f).entities d = h.entities d := by
  simp [modify, hne]

theorem modify_entities (h : ZstHierarchy) (e d : EntityId) (f : Entity → Entity) :
    (h.modify e f).entities d = if d = e then f (h.entities e) else h.entities d := by
  simp [modify, Function.update_apply]

@[simp] theorem modify_live (h : ZstHierarchy) (e : EntityId) (f : Entity → Entity) :
    (h.modify e f).live = h.live := rfl

@[simp] theorem modify_next (h : ZstHierarchy) (e : EntityId) (f : Entity → Entity) :
    (h.modify e f).next = h.next := rfl

@[simp] theorem modify_lookup (h : ZstHierarchy) (e : EntityId) (f : Entity → Entity) :
    (h.modify e f).lookup = h.lookup := rfl

@[simp] theorem modify_proxies (h : ZstHierarchy) (e : EntityId) (f : Entity → Entity) :
    (h.modify e f).proxies = h.proxies := rfl

@[simp] theorem modify_root (h : ZstHierarchy) (e : EntityId) (f : Entity → Entity) :
    (h.modify e f).root = h.root := rfl

@[simp] theorem modify_hierarchyEvents (h : ZstHierarchy) (e : EntityId) (f : Entity → Entity) :
    (h.modify e f).hierarchyEvents = h.hierarchyEvents := rfl

@[simp] theorem modify_synchronisableEvents (h : ZstHierarchy) (e : EntityId)
    (f : Entity → Entity) : (h.modify e f).synchronisableEvents = h.synchronisableEvents := rfl

@[simp] theorem modify_cleanupOps (h : ZstHierarchy) (e : EntityId) (f : Entity → Entity) :
    (h.modify e f).cleanupOps = h.cleanupOps := rfl

@[simp] theorem modify_deadIDs (h : ZstHierarchy) (e : EntityId) (f : Entity → Entity) :
    (h.modify e f).deadIDs = h.deadIDs := rfl

@[simp] theorem modify_freedAccess (h : ZstHierarchy) (e : EntityId) (f : Entity → Entity) :
    (h.modify e f).freedAccess = h.freedAccess := rfl

@[simp] theorem modify_sent (h : ZstHierarchy) (e : EntityId) (f : Entity → Entity) :
    (h.modify e f).sent = h.sent := rfl

/-- A new object on the heap. -/
def alloc (h : ZstHierarchy) (e : Entity) : ZstHierarchy × EntityId :=
  ({ h with
      entities := Function.update h.entities h.next e
      live := Function.update h.live h.next true
      next := h.next + 1 }, h.next)

/-- The hierarchy that holds some entities, each of them found at its URI. -/
def ofList (entities : List Entity) (root : Option EntityId := none) : ZstHierarchy where
  entities e := entities.getD e { entityType := .none, uri := [] }
  live e := e < entities.length
  next := entities.length
  lookup path := entities.findIdx? fun x => x.uri == path
  proxies := (List.range entities.length).filter fun e => (entities[e]?).any Entity.isProxy
  root

/-- Use of a pointer that was kept since an earlier call. -/
def deref (h : ZstHierarchy) : Option EntityId → Except Fault EntityId
  | none => .error .nullPointer
  | some e => if h.live e then .ok e else .error .freedPointer

theorem deref_ok {h : ZstHierarchy} {e : Option EntityId} {d : EntityId}
    (hderef : h.deref e = .ok d) : e = some d := by
  unfold deref at hderef
  split at hderef
  · cases hderef
  · split at hderef
    · exact congrArg some (Except.ok.inj hderef)
    · cases hderef

/-! ## The lookup table -/

/-- `find_entity`: the client looks at its root first. -/
def findEntity (h : ZstHierarchy) (path : ZstURI) : Option EntityId :=
  match h.root with
  | some root => if (h.entities root).uri = path then some root else h.lookup path
  | none => h.lookup path

def addEntityToLookup (h : ZstHierarchy) (e : EntityId) : ZstHierarchy :=
  { h with lookup := Function.update h.lookup (h.entities e).uri (some e) }

def removeEntityFromLookup (h : ZstHierarchy) (path : ZstURI) : ZstHierarchy :=
  { h with lookup := Function.update h.lookup path none }

/-- `update_entity_in_lookup`. The branch for an entity without a parent is
empty in the source: such an entity is put into the table as well. -/
def updateEntityInLookup (h : ZstHierarchy) (e : EntityId) (originalPath : ZstURI) :
    ZstHierarchy :=
  (h.removeEntityFromLookup originalPath).addEntityToLookup e

/-- `ZstHierarchy::register_entity`: adaptors, lookup, registration flag. The
new synchronisable adaptor is told at once if the entity is already activated,
which the hierarchy ignores. -/
def registerEntity (h : ZstHierarchy) (e : EntityId) : ZstHierarchy :=
  (h.addEntityToLookup e).modify e fun x => { x with registered := true }

/-! ## Entities that look at the table -/

/-- `ZstEntityBase::parent`. -/
def parent (h : ZstHierarchy) (e : EntityId) : Option EntityId :=
  let x := h.entities e
  if x.parentAddress = [] then none
  else if x.registered then h.findEntity x.parentAddress else none

/-- `ZstComponent::get_child_by_URI`: an unregistered component has no adaptor to ask. -/
def getChildByURI (h : ZstHierarchy) (e : EntityId) (path : ZstURI) : Option EntityId :=
  if (h.entities e).registered then h.findEntity path else none

/-- The children of a component that are found, in the order of its set. -/
def childEntities (h : ZstHierarchy) (e : EntityId) : List EntityId :=
  if (h.entities e).isComponent then
    (h.entities e).children.filterMap (h.getChildByURI e)
  else []

/-- `get_child_entities(bundle, true, true)`, ancestors first, to a given depth. -/
def descendants (h : ZstHierarchy) : Nat → EntityId → List EntityId
  | 0, e => [e]
  | depth + 1, e => e :: (h.childEntities e).flatMap (h.descendants depth)

/-- `get_child_entities(bundle, true, true)`: no tree is deeper than the heap is large. -/
def getChildEntities (h : ZstHierarchy) (e : EntityId) : List EntityId :=
  h.descendants h.next e

theorem childEntities_of_not_component (h : ZstHierarchy) (e : EntityId)
    (hkind : (h.entities e).isComponent = false) : h.childEntities e = [] := by
  simp [childEntities, hkind]

theorem self_mem_getChildEntities (h : ZstHierarchy) (e : EntityId) :
    e ∈ h.getChildEntities e := by
  unfold getChildEntities
  cases h.next <;> simp [descendants]

/-- Only components have anything below them. -/
theorem getChildEntities_of_not_component (h : ZstHierarchy) (e : EntityId)
    (hkind : (h.entities e).isComponent = false) : h.getChildEntities e = [e] := by
  unfold getChildEntities
  cases h.next with
  | zero => rfl
  | succ depth => simp [descendants, childEntities_of_not_component h e hkind]

/-- The second hierarchy has the trees of the first one. -/
structure SameShape (h k : ZstHierarchy) : Prop where
  next : k.next = h.next
  findEntity : ∀ path, k.findEntity path = h.findEntity path
  registered : ∀ e, (k.entities e).registered = (h.entities e).registered
  isComponent : ∀ e, (k.entities e).isComponent = (h.entities e).isComponent
  children : ∀ e, (k.entities e).children = (h.entities e).children

namespace SameShape

variable {h k : ZstHierarchy}

theorem childEntities_eq (hk : SameShape h k) (e : EntityId) :
    k.childEntities e = h.childEntities e := by
  have hchild : k.getChildByURI e = h.getChildByURI e := by
    funext path
    simp only [getChildByURI, hk.findEntity, hk.registered]
  simp only [childEntities, hchild, hk.isComponent, hk.children]

theorem getChildEntities_eq (hk : SameShape h k) (e : EntityId) :
    k.getChildEntities e = h.getChildEntities e := by
  have hdepth : ∀ n e, k.descendants n e = h.descendants n e := by
    intro n
    induction n with
    | zero => exact fun _ => rfl
    | succ n ih =>
      intro e
      have hih : k.descendants n = h.descendants n := funext ih
      simp only [descendants, hk.childEntities_eq, hih]
  simp only [getChildEntities, hk.next, hdepth]

end SameShape

/-- `ZstEntityBase::update_URI` and its override in `ZstEntityFactory`. -/
def updateURI (h : ZstHierarchy) (e : EntityId) (originalPath : ZstURI) : ZstHierarchy :=
  let h := if (h.entities e).registered then h.updateEntityInLookup e originalPath else h
  if (h.entities e).entityType = .factory then h.modify e Entity.updateCreateableURIs else h

/-! ## Parents and children -/

/-- What the subclasses of `ZstHierarchy` do when an entity asks its adaptors. -/
structure Overrides where
  /-- `ZstEntityAdaptor::request_entity_activation`. -/
  requestEntityActivation : ZstHierarchy → EntityId → ZstHierarchy
  /-- `ZstHierarchyAdaptor::deactivate_entity`. -/
  deactivateEntity : ZstHierarchy → EntityId → SendBehaviour → ZstHierarchy
  /-- `ZstEntityAdaptor::publish_entity_update`. -/
  publishEntityUpdate : ZstHierarchy → EntityId → ZstURI → ZstHierarchy

/-- The URI that `ZstEntityBase::set_parent` gives an entity below `parent`. -/
def reparentedURI (uri parent : ZstURI) : ZstURI :=
  if parent = [] then uri.last
  else if uri.contains parent then uri
  else parent.add uri.last

/-- The parent address that `set_parent` stores. -/
def addressOf (h : ZstHierarchy) : Option EntityId → ZstURI
  | some p => (h.entities p).uri
  | none => []

/-- `ZstEntityBase::set_parent`. -/
def setParentBase (h : ZstHierarchy) (e : EntityId) (parent : Option EntityId) : ZstHierarchy :=
  let originalPath := (h.entities e).uri
  let address := h.addressOf parent
  (h.modify e fun x =>
    { x with parentAddress := address, uri := reparentedURI x.uri address }).updateURI e originalPath

section Children

variable (v : Overrides)

/-- `ZstComponent::remove_child` on a component, `ZstEntityBase::remove_child`
on any other entity, given `set_parent`. -/
def removeChildWith (setParent : ZstHierarchy → EntityId → Option EntityId → ZstHierarchy)
    (h : ZstHierarchy) (p child : EntityId) : ZstHierarchy :=
  let h := if (h.entities p).isComponent then
      h.modify p fun x => { x with children := x.children.erase (h.entities child).uri }
    else h
  setParent h child none

/-- What `ZstComponent::add_child` does once the child has its parent. -/
def adoptChild (h : ZstHierarchy) (p child : EntityId) (autoActivate : Bool) : ZstHierarchy :=
  let h := h.modify p fun x =>
    { x with children := ZstURI.emplace x.children (h.entities child).uri }
  let h := if (h.entities p).registered && !(h.entities child).registered then
      h.registerEntity child
    else h
  if (h.entities p).isActivated && !(h.entities child).isProxy && autoActivate then
    v.requestEntityActivation h child
  else h

/-- `ZstComponent::add_child` on a component, `ZstEntityBase::add_child` on any
other entity, given `set_parent`. -/
def addChildWith (setParent : ZstHierarchy → EntityId → Option EntityId → ZstHierarchy)
    (h : ZstHierarchy) (p child : EntityId) (autoActivate : Bool) : ZstHierarchy :=
  if (h.entities p).isComponent then
    if (h.entities child).uri ∈ (h.entities p).children then h
    else adoptChild v (setParent h child (some p)) p child autoActivate
  else setParent h child (some p)

/-- `set_parent`, which takes every child off a component and adds it again.
The recursion of the source has no bound of its own: `depth` is one. -/
def setParent : Nat → ZstHierarchy → EntityId → Option EntityId → ZstHierarchy
  | 0, h, _, _ => h
  | depth + 1, h, e, p =>
    let h := h.setParentBase e p
    (h.childEntities e).foldl (fun h child =>
      let h := removeChildWith (setParent depth) h e child
      addChildWith v (setParent depth) h e child true) h

/-- A depth that no tree of the heap exceeds. -/
def depth (h : ZstHierarchy) : Nat :=
  h.next + 1

def removeChild (h : ZstHierarchy) (p child : EntityId) : ZstHierarchy :=
  removeChildWith (setParent v h.depth) h p child

def addChild (h : ZstHierarchy) (p child : EntityId) (autoActivate : Bool := true) :
    ZstHierarchy :=
  addChildWith v (setParent v h.depth) h p child autoActivate

/-- `ZstEntityBase::set_name`. -/
def setNameBase (h : ZstHierarchy) (e : EntityId) (name : ZstURI) : ZstHierarchy :=
  let originalPath := (h.entities e).uri
  let uri := if (h.parent e).isSome then originalPath.parent.add name else name
  let h := (h.modify e fun x => { x with uri := uri }).updateURI e originalPath
  let h := match h.parent e with
    | some p => addChild v (removeChild v h p e) p e
    | none => h
  v.publishEntityUpdate h e originalPath

/-- `set_name`: a component takes its children off and adds them again. -/
def setName (h : ZstHierarchy) (e : EntityId) (name : ZstURI) : ZstHierarchy :=
  let children := h.childEntities e
  children.foldl (fun h child => addChild v (removeChild v h e child) e child)
    (setNameBase v h e name)

end Children

end ZstHierarchy
end Showtime
