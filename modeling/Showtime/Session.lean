import Showtime.Lifecycle
/-!
# Cables and sessions

`ZstSession`, the part that the stage's and the client's session share: the
cables, the plugs they are attached to, and the session's own queues.
-/

namespace Showtime

structure ZstCable where
  address : ZstCableAddress
  /-- `m_input` and `m_output`, plain pointers to the plugs. -/
  input : EntityId
  output : EntityId
  syncStatus : ZstSyncStatus := .deactivated
  synchronisableEvents : List SynchronisableEvent := []
  deriving DecidableEq, Repr

structure ZstSession where
  hierarchy : ZstHierarchy
  /-- The object behind a pointer; it keeps its last value once it is freed. -/
  cableObjects : CableId → ZstCable
  nextCable : CableId := 0
  /-- `m_cables`, which owns the cables. -/
  cables : List CableId := []
  /-- The session module's queue and its reaper, which only see cables. -/
  synchronisableEvents : List CableId := []
  cleanupOps : List CableId := []

namespace ZstSession

def modifyCable (s : ZstSession) (c : CableId) (f : ZstCable → ZstCable) : ZstSession :=
  { s with cableObjects := Function.update s.cableObjects c (f (s.cableObjects c)) }

def modifyPlug (s : ZstSession) (e : EntityId) (f : Entity → Entity) : ZstSession :=
  { s with hierarchy := s.hierarchy.modify e f }

@[simp] theorem modifyCable_hierarchy (s : ZstSession) (c : CableId) (f : ZstCable → ZstCable) :
    (s.modifyCable c f).hierarchy = s.hierarchy := rfl

@[simp] theorem modifyCable_cables (s : ZstSession) (c : CableId) (f : ZstCable → ZstCable) :
    (s.modifyCable c f).cables = s.cables := rfl

@[simp] theorem modifyPlug_hierarchy (s : ZstSession) (e : EntityId) (f : Entity → Entity) :
    (s.modifyPlug e f).hierarchy = s.hierarchy.modify e f := rfl

@[simp] theorem modifyPlug_cables (s : ZstSession) (e : EntityId) (f : Entity → Entity) :
    (s.modifyPlug e f).cables = s.cables := rfl

@[simp] theorem modifyPlug_cableObjects (s : ZstSession) (e : EntityId) (f : Entity → Entity) :
    (s.modifyPlug e f).cableObjects = s.cableObjects := rfl

def findCable (s : ZstSession) (address : ZstCableAddress) : Option CableId :=
  s.cables.find? fun c => (s.cableObjects c).address = address

/-- `ZstPlug::get_child_cables`: the cables at the plug's addresses that the
session knows, unless the bundle holds one of that address already. -/
def plugCables (s : ZstSession) (bundle : List CableId) (e : EntityId) : List CableId :=
  let x := s.hierarchy.entities e
  if x.entityType = .plug ∧ x.sessionAdaptor then
    x.cables.foldl (fun bundle address =>
      match s.findCable address with
      | some c =>
        if bundle.any fun b => (s.cableObjects b).address = address then bundle
        else bundle ++ [c]
      | none => bundle) bundle
  else bundle

/-- A plug only hands out cables of the session. -/
theorem mem_cables_of_mem_plugCables {s : ZstSession} {bundle : List CableId} {e : EntityId}
    (hbundle : ∀ c ∈ bundle, c ∈ s.cables) : ∀ c ∈ s.plugCables bundle e, c ∈ s.cables := by
  unfold plugCables
  simp only
  split
  · generalize (s.hierarchy.entities e).cables = addresses
    induction addresses generalizing bundle with
    | nil => exact hbundle
    | cons address addresses ih =>
      refine ih ?_
      dsimp only
      split
      · rename_i c hfind
        split
        · exact hbundle
        · intro d hd
          rcases List.mem_append.mp hd with hd | hd
          · exact hbundle d hd
          · rw [List.mem_singleton.mp hd]
            exact List.mem_of_find?_eq_some hfind
      · exact hbundle
  · exact hbundle

/-- `get_child_cables` of a plug or of every plug below a component. -/
def getChildCables (s : ZstSession) (e : EntityId) : List CableId :=
  (s.hierarchy.getChildEntities e).foldl s.plugCables []

/-- `dynamic_cast<ZstInputPlug*>(find_entity(path))`. -/
def findInputPlug (s : ZstSession) (path : ZstURI) : Option EntityId :=
  (s.hierarchy.findEntity path).filter fun e => (s.hierarchy.entities e).isInputPlug

/-- `dynamic_cast<ZstOutputPlug*>(find_entity(path))`. -/
def findOutputPlug (s : ZstSession) (path : ZstURI) : Option EntityId :=
  (s.hierarchy.findEntity path).filter fun e => (s.hierarchy.entities e).isOutputPlug

/-- `ZstPlug::add_cable`. -/
def plugAddCable (s : ZstSession) (e : EntityId) (address : ZstCableAddress) : ZstSession :=
  s.modifyPlug e fun x =>
    { x with cables := if address ∈ x.cables then x.cables else x.cables ++ [address] }

/-- `ZstPlug::remove_cable`. -/
def plugRemoveCable (s : ZstSession) (e : EntityId) (address : ZstCableAddress) : ZstSession :=
  s.modifyPlug e fun x => { x with cables := x.cables.erase address }

theorem plugAddCable_cables (s : ZstSession) (e d : EntityId) (address : ZstCableAddress) :
    ((s.plugAddCable e address).hierarchy.entities d).cables =
      if d = e then
        if address ∈ (s.hierarchy.entities d).cables then (s.hierarchy.entities d).cables
        else (s.hierarchy.entities d).cables ++ [address]
      else (s.hierarchy.entities d).cables := by
  unfold plugAddCable
  rw [modifyPlug_hierarchy, ZstHierarchy.modify_entities]
  split
  · rename_i hde
    rw [hde]
  · rfl

theorem plugRemoveCable_cables (s : ZstSession) (e d : EntityId) (address : ZstCableAddress) :
    ((s.plugRemoveCable e address).hierarchy.entities d).cables =
      if d = e then (s.hierarchy.entities d).cables.erase address
      else (s.hierarchy.entities d).cables := by
  unfold plugRemoveCable
  rw [modifyPlug_hierarchy, ZstHierarchy.modify_entities]
  split
  · rename_i hde
    rw [hde]
  · rfl

/-- `synchronisable_enqueue_activation(cable)`. -/
def enqueueCableActivation (s : ZstSession) (c : CableId) : ZstSession :=
  if (s.cableObjects c).syncStatus = .activating then
    { s.modifyCable c fun x =>
        { x with
          syncStatus := .activationQueued
          synchronisableEvents := x.synchronisableEvents ++ [.activated] } with
      synchronisableEvents := s.synchronisableEvents ++ [c] }
  else s

/-- `synchronisable_enqueue_deactivation(cable)`. -/
def enqueueCableDeactivation (s : ZstSession) (c : CableId) : ZstSession :=
  if (s.cableObjects c).syncStatus = .activated ∨ (s.cableObjects c).syncStatus = .deactivating then
    { s.modifyCable c fun x =>
        { x with
          syncStatus := .deactivationQueued
          synchronisableEvents := x.synchronisableEvents ++ [.deactivated, .destroyed] } with
      synchronisableEvents := s.synchronisableEvents ++ [c] }
  else s

theorem enqueueCableActivation_hierarchy (s : ZstSession) (c : CableId) :
    (s.enqueueCableActivation c).hierarchy = s.hierarchy := by
  unfold enqueueCableActivation
  split <;> rfl

theorem enqueueCableDeactivation_hierarchy (s : ZstSession) (c : CableId) :
    (s.enqueueCableDeactivation c).hierarchy = s.hierarchy := by
  unfold enqueueCableDeactivation
  split <;> rfl

/-- `ZstSession::create_cable`. An existing cable is returned, and its
activation finished. -/
def createCable (s : ZstSession) (input output : EntityId) : ZstSession × CableId :=
  let address : ZstCableAddress :=
    ⟨(s.hierarchy.entities input).uri, (s.hierarchy.entities output).uri⟩
  match s.findCable address with
  | some c =>
    (if (s.cableObjects c).syncStatus = .activated then s else s.enqueueCableActivation c, c)
  | none =>
    let c := s.nextCable
    let s :=
      { s with
        cableObjects := Function.update s.cableObjects c
          { address, input, output, syncStatus := .activated }
        nextCable := c + 1
        cables := s.cables ++ [c] }
    ((s.plugAddCable input address).plugAddCable output address, c)

/-- `ZstSession::destroy_cable_complete`. -/
def destroyCableComplete (s : ZstSession) (c : CableId) : ZstSession :=
  let address := (s.cableObjects c).address
  let s := match s.findInputPlug address.inputURI with
    | some e => s.plugRemoveCable e address
    | none => s
  let s := match s.findOutputPlug address.outputURI with
    | some e => s.plugRemoveCable e address
    | none => s
  s.enqueueCableDeactivation c

/-- The plugs at a cable's address, so far as they are there, forget it. -/
def unplug (s : ZstSession) (address : ZstCableAddress) : ZstSession :=
  let s := match s.findInputPlug address.inputURI with
    | some e => s.plugRemoveCable e address
    | none => s
  match s.findOutputPlug address.outputURI with
  | some e => s.plugRemoveCable e address
  | none => s

theorem destroyCableComplete_eq (s : ZstSession) (c : CableId) :
    s.destroyCableComplete c =
      (s.unplug (s.cableObjects c).address).enqueueCableDeactivation c := rfl

/-- What forgetting a cable preserves at every plug, unplugging preserves. -/
theorem unplug_rule {P : ZstSession → Prop} {s : ZstSession} (address : ZstCableAddress)
    (hplug : ∀ t e, P t → P (t.plugRemoveCable e address)) (hs : P s) : P (s.unplug address) := by
  unfold unplug
  simp only
  cases s.findInputPlug address.inputURI with
  | none =>
    simp only
    split
    · exact hplug s _ hs
    · exact hs
  | some input =>
    simp only
    split
    · exact hplug _ _ (hplug s input hs)
    · exact hplug s input hs

/-- Unplugging changes the plugs only. -/
theorem unplug_session (s : ZstSession) (address : ZstCableAddress) :
    s.unplug address = { s with hierarchy := (s.unplug address).hierarchy } := by
  refine unplug_rule (P := fun t => t = { s with hierarchy := t.hierarchy }) address
    (fun t e ht => ?_) rfl
  rw [plugRemoveCable, modifyPlug, ht]

/-- `ZstSession::register_entity`: the session becomes an adaptor of the entity
and of everything below it. -/
def registerEntity (s : ZstSession) (e : EntityId) : ZstSession :=
  { s with
    hierarchy := (s.hierarchy.getChildEntities e).foldl (fun h c =>
      h.modify c fun x => { x with sessionAdaptor := true }) s.hierarchy }

/-! ## The session's queues -/

/-- One event of a cable. When it is destroyed the session adds a cleanup callback. -/
def processCableEvent (s : ZstSession) (c : CableId) : SynchronisableEvent → ZstSession
  | .activated => s.modifyCable c fun x => { x with syncStatus := .activated }
  | .deactivated => s.modifyCable c fun x => { x with syncStatus := .deactivated }
  | .destroyed => { s with cleanupOps := s.cleanupOps ++ [c] }
  | .updated => s

/-- An item of the session module's queue: all events of the cable. -/
def processCableItem (s : ZstSession) (c : CableId) : ZstSession :=
  (s.cableObjects c).synchronisableEvents.foldl (fun s event => s.processCableEvent c event)
    (s.modifyCable c fun x => { x with synchronisableEvents := [] })

def processCableItems (s : ZstSession) : ZstSession :=
  s.synchronisableEvents.foldl processCableItem { s with synchronisableEvents := [] }

/-- `reap_all` of the session's reaper: each callback erases its cable from
`m_cables`, which deletes the cable. -/
def reapCables (s : ZstSession) : ZstSession :=
  { s with
    cables := s.cables.filter fun c => c ∉ s.cleanupOps
    cleanupOps := [] }

end ZstSession
end Showtime
