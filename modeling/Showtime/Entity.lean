import Mathlib.Algebra.Group.Int.Defs
import Showtime.Messages
/-!
# Entities

One record holds the members of `ZstSynchronisable`, `ZstEntityBase` and of
the classes below it; a member that a class does not have keeps its default.
-/

namespace Showtime

inductive ZstSyncStatus
  | deactivated | activating | activationQueued | activated
  | deactivating | deactivationQueued | destroyed | err
  deriving DecidableEq, Repr

/-- The events that a synchronisable defers to itself. -/
inductive SynchronisableEvent
  | activated | deactivated | destroyed | updated
  deriving DecidableEq, Repr

/-- The members that `ZstPerformerStageProxy` adds to a performer. -/
structure StageProxy where
  originEndpointUUID : Endpoint
  reliableAddress : String := ""
  connectedSubscriberPeers : List ZstURI := []
  deriving DecidableEq, Repr

structure Entity where
  entityType : ZstEntityType
  uri : ZstURI
  /-- `m_parent`, the URI of the parent at the time the entity was attached. -/
  parentAddress : ZstURI := []
  currentOwner : ZstURI := []
  registered : Bool := false
  /-- Whether the session is one of the entity's session adaptors. -/
  sessionAdaptor : Bool := false
  /-- `m_hierarchy_events` visits its adaptors in the order of their addresses:
  whether the hierarchy comes after the dispatcher's own default adaptor. -/
  hierarchyAdaptorLast : Bool := true
  isProxy : Bool := false
  syncStatus : ZstSyncStatus := .deactivated
  synchronisableEvents : List SynchronisableEvent := []
  /-- `m_children` of a component, a `std::set` of paths. -/
  children : List ZstURI := []
  componentType : String := ""
  heartbeatActive : Bool := false
  missedHeartbeats : Nat := 0
  stageProxy : Option StageProxy := none
  direction : ZstPlugDirection := .none
  /-- `m_max_connected_cables`, an `int`. -/
  maxConnectedCables : Int := -1
  /-- `m_cables` of a plug, a `std::set` of addresses. -/
  cables : List ZstCableAddress := []
  canFire : Bool := false
  creatables : List ZstURI := []
  deriving DecidableEq, Repr

namespace Entity

/-- `dynamic_cast<ZstComponent*>`: performers are components as well. -/
def isComponent (e : Entity) : Bool :=
  e.entityType == .component || e.entityType == .performer

/-- `dynamic_cast<ZstInputPlug*>`. -/
def isInputPlug (e : Entity) : Bool :=
  e.entityType == .plug && e.direction == .inJack

/-- `dynamic_cast<ZstOutputPlug*>`: `unpack_entity` builds an output plug for
every direction but the input one. -/
def isOutputPlug (e : Entity) : Bool :=
  e.entityType == .plug && e.direction != .inJack

def isActivated (e : Entity) : Bool :=
  e.syncStatus == .activated

/-- `ZstPlug::max_connected_cables` returns the `int` as a `size_t`. -/
def maxConnectedCablesSize (e : Entity) : Nat :=
  (e.maxConnectedCables % 2 ^ 64).toNat

/-- The owner as `serialize_partial` writes it: the text of its path, cut to as
many characters as the path has segments. -/
def serializedOwner (e : Entity) : ZstURI :=
  let text := String.ofList (e.currentOwner.path.toList.take e.currentOwner.size)
  if text = "" then [] else text.splitOn "/"

/-- `serialize`, for every kind of entity. -/
def serialize (e : Entity) : EntityBuffer where
  entityType := e.entityType
  uri := e.uri
  owner := e.serializedOwner
  componentType := if e.isComponent then e.componentType else ""
  direction := if e.entityType = .plug then e.direction else .none
  maxCables := if e.entityType = .plug then e.maxConnectedCables else -1
  creatables := if e.entityType = .factory then e.creatables else []

/-- `unpack_entity`: the constructors that take a buffer. -/
def unpack (buffer : EntityBuffer) : Entity where
  entityType := buffer.entityType
  uri := buffer.uri
  currentOwner := buffer.owner
  componentType := buffer.componentType
  direction := buffer.direction
  maxConnectedCables := buffer.maxCables
  creatables := buffer.creatables

/-- The constructor of `ZstPerformerStageProxy`. -/
def performerStageProxy (buffer : EntityBuffer) (reliableAddress : String)
    (originEndpointUUID : Endpoint) : Entity :=
  { unpack buffer with
    entityType := .performer
    syncStatus := .activated
    isProxy := true
    stageProxy := some { originEndpointUUID, reliableAddress } }

/-- `ZstPerformerStageProxy::has_connected_subscriber`. -/
def hasConnectedSubscriber (e client : Entity) : Bool :=
  match e.stageProxy with
  | some proxy => client.uri ∈ proxy.connectedSubscriberPeers
  | none => false

/-- `ZstPerformerStageProxy::add_subscriber`. -/
def addSubscriber (e client : Entity) : Entity :=
  { e with
    stageProxy := e.stageProxy.map fun proxy =>
      { proxy with connectedSubscriberPeers := client.uri :: proxy.connectedSubscriberPeers } }

/-- `ZstEntityFactory::update_createable_URIs`: a creatable that is not below
the factory's URI is moved there. -/
def updateCreateableURIs (e : Entity) : Entity :=
  { e with
    creatables := e.creatables.map fun c =>
      if c.contains e.uri then c else e.uri.add c.last }

end Entity
end Showtime
