import Showtime.URI
/-!
# Stage messages

The contents of the messages that the stage and its clients exchange, with the
fields that their handlers read. Identifiers are natural numbers: only whether
two of them are equal matters, and `0` is the nil UUID.
-/

namespace Showtime

/-- An endpoint's UUID. -/
abbrev Endpoint := Nat

/-- A request's UUID, repeated in the reply to it. -/
abbrev ZstMsgID := Nat

/-- A pointer to an entity, which is also its `instance_id`: ids are never reused. -/
abbrev EntityId := Nat

/-- A pointer to a cable. -/
abbrev CableId := Nat

/-- `ZstEntityType`, in one-to-one correspondence with `EntityTypes`. -/
inductive ZstEntityType
  | none | component | performer | plug | factory
  deriving DecidableEq, Repr

inductive ZstPlugDirection
  | none | inJack | outJack
  deriving DecidableEq, Repr

/-- The signals that the code names; `other` is any further enumerator. -/
inductive Signal
  | empty | ok | clientSync | clientHeartbeat
  | errEntityNotFound | errCablePlugsNotFound | errMsgMalformed
  | errStageBadCableConnectRequest | errStagePerformerAlreadyConnected
  | errStagePerformerAlreadyExists | errStagePerformerNotFound | errStageTimeout
  | other (code : Nat)
  deriving DecidableEq, Repr

inductive ClientLeaveReason
  | quit | other (code : Nat)
  deriving DecidableEq, Repr

/-- `ZstTransportRequestBehaviour`. -/
inductive SendBehaviour
  | publish | asyncReply | syncReply
  deriving DecidableEq, Repr

structure ZstCableAddress where
  inputURI : ZstURI
  outputURI : ZstURI
  deriving DecidableEq, Repr

/-- A serialised entity: its type, its `EntityData` and the data of its kind. -/
structure EntityBuffer where
  entityType : ZstEntityType
  uri : ZstURI
  owner : ZstURI := []
  componentType : String := ""
  direction : ZstPlugDirection := .none
  maxCables : Int := -1
  creatables : List ZstURI := []
  deriving DecidableEq, Repr

inductive Content
  | signalMessage (signal : Signal)
  | clientJoinRequest (performer : EntityBuffer) (reliableAddress : String)
  | clientLeaveRequest (performer : ZstURI) (reason : ClientLeaveReason)
  | clientGraphHandshakeListen (output : ZstURI) (address : String)
  | clientGraphHandshakeStart (input : ZstURI) (address : String)
  | clientGraphHandshakeStop (input : ZstURI)
  | entityCreateRequest (entity : EntityBuffer)
  | entityUpdateRequest (entity : EntityBuffer) (originalPath : ZstURI)
  | entityDestroyRequest (path : ZstURI)
  | entityObserveRequest (path : ZstURI)
  | entityTakeOwnershipRequest (path newOwner : ZstURI)
  | factoryCreateEntityRequest (creatable : ZstURI) (name : String)
  | factoryCreateEntityAck (created : ZstURI)
  | cableCreateRequest (cable : ZstCableAddress)
  | cableDestroyRequest (cable : ZstCableAddress)
  | serverStatusMessage
  deriving DecidableEq, Repr

/-- A message as a handler receives it. -/
structure ZstStageMessage where
  content : Content
  id : ZstMsgID
  originEndpointUUID : Endpoint
  deriving DecidableEq, Repr

/-- What the stage does after two clients were connected: nothing, or the
callback of a cable request or of an observe request. -/
inductive ConnectAction
  | none
  | cable (cable : CableId) (sender : EntityId) (id : ZstMsgID)
  | observe (sender : EntityId) (id : ZstMsgID)
  deriving DecidableEq, Repr

/-- The `on_recv_response` callbacks of the stage and of a client, with the
variables they capture. -/
inductive ResponseAction
  | factoryEntityCreated (sender : Option EntityId) (factoryPath : ZstURI) (id : ZstMsgID)
  | clientsConnected (output input : EntityId) (action : ConnectAction)
  /-- `activate_entity`; a factory's request for the entity is then answered. -/
  | entityActivated (entity : EntityId) (factoryRequest : Option ZstMsgID)
  | entityDeactivated (entity : EntityId)
  deriving DecidableEq, Repr

/-- A message as it is handed to the transport: without an id the transport
draws a fresh one. -/
structure Outgoing where
  target : Endpoint
  content : Content
  msgID : Option ZstMsgID := none
  onRecvResponse : Option ResponseAction := none
  deriving DecidableEq, Repr

/-- `ZstStageTransport::get_signal` on a response, which is `none` on a timeout. -/
def getSignal : Option Content → Signal
  | some (.signalMessage signal) => signal
  | _ => .empty

/-- `ZstStageTransport::verify_signal`. -/
def verifySignal (response : Option Content) (expected : Signal) : Bool :=
  response.isSome && getSignal response == expected

@[simp] theorem getSignal_none : getSignal none = .empty := rfl

@[simp] theorem getSignal_signalMessage (signal : Signal) :
    getSignal (some (.signalMessage signal)) = signal := rfl

/-- Only an OK reply verifies as one: a missing response does not. -/
@[simp] theorem verifySignal_ok (response : Option Content) :
    verifySignal response .ok = true ↔ getSignal response = .ok := by
  cases response with
  | none => simp [verifySignal]
  | some content => simp [verifySignal]

end Showtime
