import Showtime.Session
/-!
# The client

`ZstClientHierarchy` and `ZstClientSession`, with what `ZstClient` does when an
entity arrives. A synchronous request calls back before it returns and then
drains the hierarchy's queues, in the middle of whatever asked for it. So the
overrides of the client are built by recursion on a bound for this nesting,
which also bounds how long a drain goes on.
-/

namespace Showtime

open ZstHierarchy

/-- The stage as the client's transport shows it: whether it is connected, and
the response to the `n`-th message, `none` for a timeout. -/
structure StageLink where
  connected : Bool
  answer : Nat → Option Content

namespace ZstClientHierarchy

/-! ## Arriving entities -/

/-- `ZstSession::register_entity`, which only touches the hierarchy. -/
def registerSession (h : ZstHierarchy) (e : EntityId) : ZstHierarchy :=
  (h.getChildEntities e).foldl (fun h c => h.modify c fun x => { x with sessionAdaptor := true }) h

def rootURI (h : ZstHierarchy) : ZstURI :=
  match h.root with
  | some root => (h.entities root).uri
  | none => []

/-- `ZstClient::init_arriving_plug`: an output plug below the root may fire. -/
def initArrivingPlug (h : ZstHierarchy) (e : EntityId) : ZstHierarchy :=
  if (h.entities e).isOutputPlug && rootURI h == (h.entities e).uri.first then
    h.modify e fun x => { x with canFire := true }
  else h

/-- `on_entity_arriving` of the session and of `ZstClient`. -/
def onEntityArriving (h : ZstHierarchy) (e : EntityId) : ZstHierarchy :=
  let h := registerSession h e
  (h.getChildEntities e).foldl initArrivingPlug h

/-- The adaptors of the hierarchy's events. Those for leaving entities do
nothing to the hierarchy. -/
def processHierarchyEvent (h : ZstHierarchy) : HierarchyEvent → ZstHierarchy
  | .entityArriving e | .performerArriving e =>
    onEntityArriving { h with freedAccess := h.freedAccess || !h.live e } e
  | _ => h

/-! ## Requests to the stage -/

section Requests

variable (v : Overrides) (link : StageLink)

/-- `ZstClientHierarchy::activate_entity_complete`. -/
def activateEntityComplete (h : ZstHierarchy) (e : EntityId) : ZstHierarchy :=
  let h := h.activateEntityComplete e
  (h.getChildEntities e).foldl onEntityArriving h

/-- `ZstClientHierarchy::destroy_entity_complete`, which never destroys the root. -/
def destroyEntityComplete (h : ZstHierarchy) (e : EntityId) : ZstHierarchy :=
  if (h.entities e).uri = rootURI h then h else h.destroyEntityComplete v e

/-- `send_msg`, which sends nothing unless the transport is connected. -/
def publish (h : ZstHierarchy) (message : Outgoing) : ZstHierarchy :=
  if link.connected then { h with sent := h.sent ++ [message] } else h

/-- The callbacks of the client's requests. -/
def onRecvResponse (h : ZstHierarchy) (action : ResponseAction) (response : Option Content) :
    ZstHierarchy :=
  match action with
  | .entityActivated e factoryRequest =>
    if verifySignal response .ok then
      let h := activateEntityComplete h e
      match factoryRequest with
      | some id => publish link h
        { target := 0, content := .signalMessage .ok, msgID := some id }
      | none => h
    else h
  | .entityDeactivated e =>
    if verifySignal response .ok then destroyEntityComplete v h e else h
  | _ => h

/-- `send_msg` with a callback. A synchronous request waits for the response. -/
def request (h : ZstHierarchy) (content : Content) (behaviour : SendBehaviour)
    (action : ResponseAction) : ZstHierarchy :=
  if link.connected then
    if behaviour = .syncReply then
      onRecvResponse v link (publish link h { target := 0, content }) action
        (link.answer h.sent.length)
    else publish link h { target := 0, content, onRecvResponse := some action }
  else h

/-- `ZstClientHierarchy::process_events`. Each queue is drained of what it
holds, and of at most `fuel` more that is added on the way. -/
def processEvents (fuel : Nat) (h : ZstHierarchy) : ZstHierarchy :=
  let h := h.hierarchyEvents.foldl processHierarchyEvent { h with hierarchyEvents := [] }
  let h := processItems v (h.synchronisableEvents.length + fuel) h
  { reapAll v (h.cleanupOps.length + fuel) h with deadIDs := [] }

/-- `ZstClientHierarchy::activate_entity`. -/
def activateEntity (fuel : Nat) (h : ZstHierarchy) (e : EntityId) (behaviour : SendBehaviour)
    (factoryRequest : Option ZstMsgID := none) : ZstHierarchy :=
  if (h.entities e).parentAddress = [] then h
  else if (h.entities e).isActivated then h
  else
    let h := h.registerEntity e
    let h := (h.getChildEntities e).foldl (fun h c =>
      request v link h (.entityCreateRequest (h.entities c).serialize) behaviour
        (.entityActivated e factoryRequest)) h
    if behaviour = .syncReply then processEvents v fuel h else h

/-- `ZstClientHierarchy::deactivate_entity`. -/
def deactivateEntity (fuel : Nat) (h : ZstHierarchy) (e : EntityId) (behaviour : SendBehaviour) :
    ZstHierarchy :=
  let h := h.deactivateEntityBase e
  let h :=
    if (h.entities e).isProxy then destroyEntityComplete v h e
    else
      let content := .entityDestroyRequest (h.entities e).uri
      if behaviour = .publish then publish link h { target := 0, content }
      else request v link h content behaviour (.entityDeactivated e)
  let h := if behaviour = .publish then destroyEntityComplete v h e else h
  if behaviour = .syncReply then processEvents v fuel h else h

/-- `ZstClientHierarchy::publish_entity_update`. -/
def publishEntityUpdate (h : ZstHierarchy) (e : EntityId) (originalPath : ZstURI) :
    ZstHierarchy :=
  if (h.entities e).isProxy then h
  else publish link h
    { target := 0, content := .entityUpdateRequest (h.entities e).serialize originalPath }

end Requests

/-- The overrides of a client whose calls nest at most so deep. -/
def overrides (link : StageLink) : Nat → Overrides
  | 0 =>
    { requestEntityActivation := fun h _ => h
      deactivateEntity := fun h _ _ => h
      publishEntityUpdate := publishEntityUpdate link }
  | fuel + 1 =>
    let v := overrides link fuel
    { requestEntityActivation := fun h e => activateEntity v link fuel h e .syncReply
      deactivateEntity := deactivateEntity v link fuel
      publishEntityUpdate := publishEntityUpdate link }

/-- The overrides of a client whose requests are never answered. -/
def unanswered : Overrides :=
  overrides ⟨true, fun _ => none⟩ 0

/-! ## Messages from the stage -/

/-- `ZstClientHierarchy::create_proxy_entity`: a path below the root is our own. -/
def createProxyEntity (h : ZstHierarchy) (buffer : EntityBuffer) : Option Entity :=
  if buffer.uri.contains (rootURI h) then none else h.createProxyEntity buffer

def pathIsLocal (h : ZstHierarchy) (path : ZstURI) : Bool :=
  path.contains (rootURI h)

/-- `ZstClientHierarchy::on_receive_msg`, but for the creation of entities by
local factories. -/
def onReceiveMsg (v : Overrides) (h : ZstHierarchy) (content : Content) :
    Except Fault ZstHierarchy :=
  match content with
  | .clientLeaveRequest performer _ =>
    .ok ((h.findEntity performer).elim h (destroyEntityComplete v h))
  | .entityCreateRequest buffer => do
    let buffer ← getEntityField buffer
    match createProxyEntity h buffer with
    | some entity => addProxyEntity v h entity
    | none => return h
  | .entityUpdateRequest buffer originalPath => do
    let buffer ← getEntityField buffer
    if pathIsLocal h buffer.uri then return h
    match h.findEntity originalPath with
    | some proxy => return updateProxyEntity v h proxy buffer
    | none => return h
  | .entityDestroyRequest path =>
    .ok ((h.findEntity path).elim h (destroyEntityComplete v h))
  | _ => .ok h

end ZstClientHierarchy

namespace ZstClientSession

open ZstClientHierarchy

/-- `set_owner`: an output plug asks its hierarchy adaptors for the local
performer and keeps the last answer. The dispatcher's default adaptor has none. -/
def setOwner (h : ZstHierarchy) (e : EntityId) (owner : ZstURI) : ZstHierarchy :=
  h.modify e fun x =>
    if x.isOutputPlug then
      { x with
        currentOwner := owner
        canFire := x.registered && x.hierarchyAdaptorLast && rootURI h == owner }
    else { x with currentOwner := owner }

def aquireEntityOwnershipHandler (h : ZstHierarchy) (path newOwner : ZstURI) : ZstHierarchy :=
  match h.findEntity path with
  | none => h
  | some e => (h.getChildEntities e).foldl (fun h c => setOwner h c newOwner) h

/-- `connect_cable`: the cable is there at once, but it is only activated when
the stage has answered. -/
def connectCable (s : ZstSession) (input output : EntityId) : ZstSession × Option CableId :=
  let x := s.hierarchy.entities input
  let y := s.hierarchy.entities output
  if x.isActivated && y.isActivated && x.direction == .inJack && y.direction == .outJack then
    let (s, cable) := s.createCable input output
    (s.modifyCable cable fun x => { x with syncStatus := .activating }, some cable)
  else (s, none)

def connectCableComplete (s : ZstSession) (cable : CableId) : ZstSession :=
  s.enqueueCableActivation cable

def cableCreateHandler (s : ZstSession) (address : ZstCableAddress) : ZstSession :=
  match s.findInputPlug address.inputURI, s.findOutputPlug address.outputURI with
  | some input, some output => (s.createCable input output).1
  | _, _ => s

def cableDestroyHandler (s : ZstSession) (address : ZstCableAddress) : ZstSession :=
  match s.findCable address with
  | some cable => s.destroyCableComplete cable
  | none => s

/-- `ZstClientSession::on_receive_msg` for messages of the stage. -/
def onReceiveMsg (s : ZstSession) (content : Content) : ZstSession :=
  match content with
  | .cableCreateRequest address => cableCreateHandler s address
  | .cableDestroyRequest address => cableDestroyHandler s address
  | .entityTakeOwnershipRequest path newOwner =>
    { s with hierarchy := aquireEntityOwnershipHandler s.hierarchy path newOwner }
  | _ => s

/-- A message of the stage reaches the session and the hierarchy. -/
def receive (v : Overrides) (s : ZstSession) (content : Content) : Except Fault ZstSession := do
  let s := onReceiveMsg s content
  let h ← ZstClientHierarchy.onReceiveMsg v s.hierarchy content
  return { s with hierarchy := h }

/-- `aquire_entity_ownership`, which the entity asks its session for. -/
def aquireEntityOwnership (h : ZstHierarchy) (e : EntityId) : Option Content :=
  if (h.entities e).sessionAdaptor then
    some (.entityTakeOwnershipRequest (h.entities e).uri (rootURI h))
  else none

/-- `release_entity_ownership`: an empty owner returns the entity. -/
def releaseEntityOwnership (h : ZstHierarchy) (e : EntityId) : Option Content :=
  if (h.entities e).registered && (h.entities e).sessionAdaptor then
    some (.entityTakeOwnershipRequest (h.entities e).uri [])
  else none

/-- `ZstClientSession::process_events`. -/
def processEvents (v : Overrides) (fuel : Nat) (s : ZstSession) : ZstSession :=
  let s := { s with hierarchy := ZstClientHierarchy.processEvents v fuel s.hierarchy }
  s.processCableItems.reapCables

end ZstClientSession
end Showtime
