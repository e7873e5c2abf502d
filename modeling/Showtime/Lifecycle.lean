import Showtime.Hierarchy
/-!
# Activation, destruction and the reaper

How an entity is activated and deactivated through its own events, how the
`ZstSynchronisableModule` of the hierarchy drains them, and how the reaper and
the destructors take entities out of the hierarchy again.
-/

namespace Showtime
namespace ZstHierarchy

def setActivationStatus (h : ZstHierarchy) (e : EntityId) (status : ZstSyncStatus) :
    ZstHierarchy :=
  h.modify e fun x => { x with syncStatus := status }

def setProxy (h : ZstHierarchy) (e : EntityId) : ZstHierarchy :=
  h.modify e fun x => { x with isProxy := true }

def deferEvents (h : ZstHierarchy) (e : EntityId) (events : List SynchronisableEvent) :
    ZstHierarchy :=
  h.modify e fun x => { x with synchronisableEvents := x.synchronisableEvents ++ events }

/-- `ZstSynchronisableModule::synchronisable_has_event`, which only a registered
entity has for an adaptor. -/
def synchronisableHasEvent (h : ZstHierarchy) (e : EntityId) : ZstHierarchy :=
  if (h.entities e).registered then
    { h with synchronisableEvents := h.synchronisableEvents ++ [e] }
  else h

/-- `ZstSynchronisable::enqueue_activation`. -/
def enqueueActivation (h : ZstHierarchy) (e : EntityId) : ZstHierarchy :=
  if (h.entities e).syncStatus = .activating then
    ((h.setActivationStatus e .activationQueued).deferEvents e [.activated]).synchronisableHasEvent e
  else h

/-- `ZstSynchronisable::enqueue_deactivation`. -/
def enqueueDeactivation (h : ZstHierarchy) (e : EntityId) : ZstHierarchy :=
  if (h.entities e).syncStatus = .activated ∨ (h.entities e).syncStatus = .deactivating then
    ((h.setActivationStatus e .deactivationQueued).deferEvents e
      [.deactivated, .destroyed]).synchronisableHasEvent e
  else h

/-- `ZstHierarchy::deactivate_entity`. -/
def deactivateEntityBase (h : ZstHierarchy) (e : EntityId) : ZstHierarchy :=
  if (h.entities e).syncStatus = .destroyed then h else h.setActivationStatus e .deactivating

/-- `ZstHierarchy::activate_entity_complete`. -/
def activateEntityComplete (h : ZstHierarchy) (e : EntityId) : ZstHierarchy :=
  (h.getChildEntities e).foldl (fun h c =>
    ((h.addEntityToLookup c).setActivationStatus c .activating).enqueueActivation c) h

/-- `on_activation`: an output plug may fire where it is local. -/
def onActivation (x : Entity) : Entity :=
  if x.isOutputPlug && !x.isProxy then { x with canFire := true } else x

/-- `on_deactivation`: a plug forgets its cables. -/
def onDeactivation (x : Entity) : Entity :=
  if x.entityType = .plug then { x with cables := [] } else x

section Virtual

variable (v : Overrides)

/-- The event that `ZstHierarchy::destroy_entity_complete` defers for a proxy.
A plug has none. -/
def leavingEvent (x : Entity) : List HierarchyEvent :=
  if x.isProxy then
    match x.entityType with
    | .performer => [.performerLeaving x.uri]
    | .factory => [.factoryLeaving x.uri]
    | .component => [.entityLeaving x.uri]
    | _ => []
  else []

/-- The parent of an entity that is destroyed removes it, if it is found. -/
def removeFromParent (h : ZstHierarchy) (e : EntityId) : ZstHierarchy :=
  match h.parent e with
  | some p => removeChild v h p e
  | none => h

/-- `ZstHierarchy::destroy_entity_complete`. -/
def destroyEntityComplete (h : ZstHierarchy) (e : EntityId) : ZstHierarchy :=
  let h := removeFromParent v h e
  let h := { h with hierarchyEvents := h.hierarchyEvents ++ leavingEvent (h.entities e) }
  (h.getChildEntities e).foldl enqueueDeactivation h

/-- `ZstHierarchy::remove_proxy_entity`. -/
def removeProxyEntity (h : ZstHierarchy) (e : EntityId) : ZstHierarchy :=
  if (h.entities e).isProxy then destroyEntityComplete v h e else h

/-- `ZstHierarchy::on_synchronisable_destroyed`, the second argument telling
whether it comes from the destructor. -/
def onSynchronisableDestroyed (h : ZstHierarchy) (e : EntityId) (alreadyRemoved : Bool) :
    ZstHierarchy :=
  let h :=
    if (h.entities e).isActivated ∨ (h.entities e).syncStatus = .destroyed then
      v.deactivateEntity h e (if alreadyRemoved then .publish else .syncReply)
    else h
  if alreadyRemoved then
    { h with deadIDs := e :: h.deadIDs }.removeEntityFromLookup (h.entities e).uri
  else
    { h with cleanupOps := h.cleanupOps ++ [e] }.setActivationStatus e .destroyed

/-- One event of a synchronisable, with the completion callback that follows it. -/
def processEvent (h : ZstHierarchy) (e : EntityId) : SynchronisableEvent → ZstHierarchy
  | .activated => (h.setActivationStatus e .activated).modify e onActivation
  | .deactivated => (h.setActivationStatus e .deactivated).modify e onDeactivation
  | .destroyed => onSynchronisableDestroyed v h e false
  | .updated => h

/-- `ZstSynchronisable::process_events`: at most `fuel` events of the entity. -/
def processOwnEvents : Nat → ZstHierarchy → EntityId → ZstHierarchy
  | 0, h, _ => h
  | fuel + 1, h, e =>
    match (h.entities e).synchronisableEvents with
    | [] => h
    | event :: rest =>
      let h := h.modify e fun x => { x with synchronisableEvents := rest }
      processOwnEvents fuel (processEvent v h e event) e

/-- An item of the module's queue: the entity's events, unless its id is dead. -/
def processItem (h : ZstHierarchy) (e : EntityId) : ZstHierarchy :=
  if e ∈ h.deadIDs then h
  else
    let h := { h with freedAccess := h.freedAccess || !h.live e }
    processOwnEvents v (h.entities e).synchronisableEvents.length h e

/-- The module's queue, at most `fuel` items of it. -/
def processItems : Nat → ZstHierarchy → ZstHierarchy
  | 0, h => h
  | fuel + 1, h =>
    match h.synchronisableEvents with
    | [] => h
    | e :: rest => processItems fuel (processItem v { h with synchronisableEvents := rest } e)

/-- `~ZstComponent`: the descendants are deactivated. -/
def destroyComponent (h : ZstHierarchy) (e : EntityId) : ZstHierarchy :=
  let h := ((h.getChildEntities e).drop 1).foldl (fun h c =>
    if (h.entities c).registered && (h.entities c).isActivated then
      v.deactivateEntity h c .syncReply
    else h) h
  h.modify e fun x => { x with children := [] }

/-- `~ZstEntityBase`: an entity that was not yet destroyed leaves the hierarchy now. -/
def destroyEntityBase (h : ZstHierarchy) (e : EntityId) : ZstHierarchy :=
  let h :=
    if (h.entities e).syncStatus ≠ .destroyed ∧ (h.entities e).registered then
      onSynchronisableDestroyed v h e true
    else h
  { h with live := Function.update h.live e false }

/-- The destructors of an entity. -/
def deleteEntity (h : ZstHierarchy) (e : EntityId) : ZstHierarchy :=
  destroyEntityBase v (destroyComponent v h e) e

/-- A cleanup callback of `on_synchronisable_destroyed`. Erasing a proxy from
`m_proxies` deletes it. -/
def cleanup (h : ZstHierarchy) (e : EntityId) : ZstHierarchy :=
  if e ∈ h.deadIDs then h
  else
    let h := { h with freedAccess := h.freedAccess || !h.live e }
    let h := h.removeEntityFromLookup (h.entities e).uri
    if (h.entities e).isProxy ∧ e ∈ h.proxies then
      deleteEntity v { h with proxies := h.proxies.erase e } e
    else h

/-- `ZstReaper::reap_all`, at most `fuel` callbacks of it. -/
def reapAll : Nat → ZstHierarchy → ZstHierarchy
  | 0, h => h
  | fuel + 1, h =>
    match h.cleanupOps with
    | [] => h
    | e :: rest => reapAll fuel (cleanup v { h with cleanupOps := rest } e)

/-! ## Rules for drains -/

/-- What every event of an entity preserves, the drain of its events preserves. -/
theorem processOwnEvents_rule {P : ZstHierarchy → Prop} {e : EntityId}
    (hevent : ∀ h event rest, P h → (h.entities e).synchronisableEvents = event :: rest →
      P (processEvent v (h.modify e fun x => { x with synchronisableEvents := rest }) e event))
    (fuel : Nat) {h : ZstHierarchy} (hh : P h) : P (processOwnEvents v fuel h e) := by
  induction fuel generalizing h with
  | zero => exact hh
  | succ fuel ih =>
    unfold processOwnEvents
    cases hown : (h.entities e).synchronisableEvents with
    | nil => exact hh
    | cons event rest => exact ih (hevent h event rest hh hown)

/-- What every item of the module's queue preserves, its drain preserves. -/
theorem processItems_rule {P : ZstHierarchy → Prop}
    (hitem : ∀ h e rest, P h → h.synchronisableEvents = e :: rest →
      P (processItem v { h with synchronisableEvents := rest } e))
    (fuel : Nat) {h : ZstHierarchy} (hh : P h) : P (processItems v fuel h) := by
  induction fuel generalizing h with
  | zero => exact hh
  | succ fuel ih =>
    unfold processItems
    cases hqueue : h.synchronisableEvents with
    | nil => exact hh
    | cons e rest => exact ih (hitem h e rest hh hqueue)

/-- What every cleanup callback preserves, the reaper preserves. -/
theorem reapAll_rule {P : ZstHierarchy → Prop}
    (hcleanup : ∀ h e rest, P h → h.cleanupOps = e :: rest →
      P (cleanup v { h with cleanupOps := rest } e))
    (fuel : Nat) {h : ZstHierarchy} (hh : P h) : P (reapAll v fuel h) := by
  induction fuel generalizing h with
  | zero => exact hh
  | succ fuel ih =>
    unfold reapAll
    cases hops : h.cleanupOps with
    | nil => exact hh
    | cons e rest => exact ih (hcleanup h e rest hh hops)

end Virtual

/-! ## Proxies -/

/-- `ZstHierarchy::create_proxy_entity`. -/
def createProxyEntity (h : ZstHierarchy) (buffer : EntityBuffer) : Option Entity :=
  if (h.findEntity buffer.uri).isSome then none
  else if buffer.entityType ≠ .performer ∧ buffer.uri.parent = [] then none
  else some (Entity.unpack buffer)

/-- `ZstHierarchy::dispatch_entity_arrived_event`. -/
def arrivedEvent (e : EntityId) : ZstEntityType → List HierarchyEvent
  | .component | .plug => [.entityArriving e]
  | .factory => [.factoryArriving e]
  | .performer => [.performerArriving e]
  | .none => []

/-- `ZstHierarchy::add_proxy_entity`. The parent is cast to a component
without a check. -/
def addProxyEntity (v : Overrides) (h : ZstHierarchy) (entity : Entity) :
    Except Fault ZstHierarchy := do
  let parent := h.findEntity entity.uri.parent
  let (h, e) := h.alloc entity
  let h := h.setProxy e
  let h ← match parent with
    | some p => if (h.entities p).isComponent then .ok (addChild v h p e) else .error .nullPointer
    | none => .ok h
  let h := h.registerEntity e
  let h := (h.getChildEntities e).foldl (fun h c =>
    (h.setProxy c).setActivationStatus c .activated) h
  return { h with
    proxies := h.proxies ++ [e]
    hierarchyEvents := h.hierarchyEvents ++ arrivedEvent e (h.entities e).entityType }

/-- `ZstHierarchy::get_entity_field`, which throws on an unknown type. -/
def getEntityField (buffer : EntityBuffer) : Except Fault EntityBuffer :=
  if buffer.entityType = .none then .error .exception else .ok buffer

/-- `ZstHierarchy::update_proxy_entity`. A factory takes the new creatables,
and a path that only differs in its last segment renames the entity. -/
def updateProxyEntity (v : Overrides) (h : ZstHierarchy) (e : EntityId) (buffer : EntityBuffer) :
    ZstHierarchy :=
  if buffer.entityType = .factory ∧ (h.entities e).entityType ≠ .factory then h
  else
    let h :=
      if buffer.entityType = .factory then
        (h.modify e fun x =>
          { x with creatables := buffer.creatables }).synchronisableHasEvent e
      else h
    if (h.entities e).uri = buffer.uri then h
    else if (h.entities e).parentAddress ≠ buffer.uri.parent then h
    else
      let h := setName v h e buffer.uri.last
      { h with hierarchyEvents := h.hierarchyEvents ++ [.entityUpdated e] }

/-- What an update of a proxy does. A factory takes the new creatables first, and then the
entity is renamed or it is not. -/
theorem updateProxyEntity_cases (v : Overrides) (h : ZstHierarchy) (e : EntityId)
    (buffer : EntityBuffer) :
    ∃ k, (k = h ∨ buffer.entityType = .factory ∧ (h.entities e).entityType = .factory ∧
        k = (h.modify e fun x =>
          { x with creatables := buffer.creatables }).synchronisableHasEvent e) ∧
      (updateProxyEntity v h e buffer = k ∨
        (k.entities e).uri ≠ buffer.uri ∧ (k.entities e).parentAddress = buffer.uri.parent ∧
        updateProxyEntity v h e buffer =
          { setName v k e buffer.uri.last with
            hierarchyEvents :=
              (setName v k e buffer.uri.last).hierarchyEvents ++ [.entityUpdated e] }) := by
  unfold updateProxyEntity
  split
  · exact ⟨h, .inl rfl, .inl rfl⟩
  · rename_i hfits
    refine ⟨if buffer.entityType = .factory then
        (h.modify e fun x => { x with creatables := buffer.creatables }).synchronisableHasEvent e
      else h, ?_, ?_⟩
    · split_ifs with hfactory
      · exact .inr ⟨hfactory, by_contra fun hother => hfits ⟨hfactory, hother⟩, rfl⟩
      · exact .inl rfl
    · dsimp only
      generalize (if buffer.entityType = .factory then
        (h.modify e fun x => { x with creatables := buffer.creatables }).synchronisableHasEvent e
        else h) = k
      split_ifs with huri hparent
      · exact .inl rfl
      · exact .inl rfl
      · exact .inr ⟨huri, not_not.mp hparent, rfl⟩

end ZstHierarchy
end Showtime
