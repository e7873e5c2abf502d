import Mathlib.Logic.Function.Basic
import Showtime.Messages
import Showtime.Library.Run
/-!
# Requests and their responses

`ZstTransportLayer` and `ZstMessageSupervisor`: threads that wait for the response
to a request, the thread that receives messages, the one that dispatches them,
and the table of promises and the table of owned messages that they share. A
step is what one thread does up to the next point where another one can come in.
-/

namespace Showtime

open Library

structure ZstServerAddress where
  name : String
  address : String
  deriving DecidableEq, Repr

/-- A message that was received; two messages never have the same number. A
beacon carries the server that it announces, and the nil id. -/
structure ZstMessage where
  number : Nat
  id : ZstMsgID
  server : Option ZstServerAddress := none
  deriving DecidableEq, Repr

/-- What a promise shares with its future. -/
inductive SharedState
  | pending
  | value (msg : ZstMessage)
  | brokenPromise
  deriving DecidableEq, Repr

/-- Where a thread is in `blocking_send`. -/
inductive SendPhase
  | registered
  /-- The message is sent, and the thread is in `wait_for`. -/
  | waiting
  /-- The wait is over, with or without a message. -/
  | received
  /-- `on_recv_response` has returned. -/
  | responded
  | released
  /-- The promise is enqueued among the dead ones. -/
  | finished
  deriving DecidableEq, Repr

structure Request where
  future : SharedState := .pending
  phase : SendPhase := .registered
  /-- The local `msg` of `blocking_send`. -/
  msg : Option ZstMessage := none
  deriving DecidableEq, Repr

/-- Where a thread is in `join_on_beacon`. -/
inductive JoinPhase
  | waiting
  | satisfied (msg : ZstMessage)
  | timedOut
  deriving DecidableEq, Repr

structure Transport where
  /-- The requests by their message ids, which are distinct. -/
  requests : ZstMsgID → Option Request := fun _ => none
  responsePromises : List ZstMsgID := []
  /-- `m_owned_messages`, each with the cleanup callback of its message. -/
  ownedMessages : ZstMsgID → Option ZstMessage := fun _ => none
  deadPromises : List ZstMsgID := []
  dispatchEvents : List ZstMessage := []
  /-- The message that `process_message_response` has taken, before `set_value`. -/
  processing : Option ZstMessage := none
  /-- The messages with `set_has_promise`. -/
  hasPromise : List ZstMessage := []
  received : List ZstMessage := []
  responses : List (ZstMsgID × Option ZstMessage) := []
  /-- The messages whose cleanup callback has run, once for each time it did. -/
  cleanups : List ZstMessage := []
  serverBeacons : List ZstServerAddress := []
  /-- `m_auto_join_stage_requests`. -/
  joinRequests : String → Option JoinPhase := fun _ => none
  connectedToStage : Bool := false

inductive TransportEvent
  | registerResponse (id : ZstMsgID)
  | sendMessage (id : ZstMsgID)
  | receive (id : ZstMsgID)
  | beacon (server : ZstServerAddress)
  | dispatch
  | setValue
  | get (id : ZstMsgID)
  | timeout (id : ZstMsgID)
  | respond (id : ZstMsgID)
  | release (id : ZstMsgID)
  | enqueueResolved (id : ZstMsgID)
  | cleanup
  | autoJoin (name : String)
  | joinOnBeacon (name : String)
  | joinTimeout (name : String)
  | eraseJoin (name : String)
  | setConnected (value : Bool)
  | serverLost (server : ZstServerAddress)
  deriving DecidableEq, Repr

namespace Transport

/-! ## Supervisor -/

def takeMessageOwnership (s : Transport) (msg : ZstMessage) : Transport :=
  { s with ownedMessages := Function.update s.ownedMessages msg.id (some msg) }

/-- `release_owned_message`: the callback that runs is that of the message which is
owned under the id. -/
def releaseOwnedMessage (s : Transport) (msg : ZstMessage) : Transport :=
  match s.ownedMessages msg.id with
  | some owned =>
    { s with
      cleanups := s.cleanups ++ [owned]
      ownedMessages := Function.update s.ownedMessages msg.id none }
  | none => s

/-- A promise that is destroyed without a value. -/
def breakPromise (r : Request) : Request :=
  if r.future = .pending then { r with future := .brokenPromise } else r

def removeResponsePromise (s : Transport) (id : ZstMsgID) : Transport :=
  if id ∈ s.responsePromises then
    { s with
      responsePromises := s.responsePromises.filter (· ≠ id)
      requests := Function.update s.requests id ((s.requests id).map breakPromise) }
  else s

/-- The next round of `cleanup_response_messages`, in the dispatching thread. -/
def cleanupResponseMessages (s : Transport) : Except Unit Transport :=
  match s.processing, s.deadPromises with
  | none, id :: dead => .ok ({ s with deadPromises := dead }.removeResponsePromise id)
  | _, _ => .error ()

/-! ## Sending -/

def setRequest (s : Transport) (id : ZstMsgID) (r : Request) : Transport :=
  { s with requests := Function.update s.requests id (some r) }

/-- `blocking_send` as far as `register_response`. -/
def registerResponse (s : Transport) (id : ZstMsgID) : Except Unit Transport :=
  match s.requests id with
  | none => .ok ({ s with responsePromises := id :: s.responsePromises }.setRequest id {})
  | some _ => .error ()

def sendMessage (s : Transport) (id : ZstMsgID) : Except Unit Transport :=
  match s.requests id with
  | some ⟨future, .registered, msg⟩ => .ok (s.setRequest id ⟨future, .waiting, msg⟩)
  | _ => .error ()

/-- `wait_for` finds the future ready; `get` throws if the promise is broken. -/
def get (s : Transport) (id : ZstMsgID) : Except Unit Transport :=
  match s.requests id with
  | some ⟨.value msg, .waiting, _⟩ => .ok (s.setRequest id ⟨.value msg, .received, some msg⟩)
  | _ => .error ()

def timeout (s : Transport) (id : ZstMsgID) : Except Unit Transport :=
  match s.requests id with
  | some ⟨.pending, .waiting, _⟩ => .ok (s.setRequest id ⟨.pending, .received, none⟩)
  | _ => .error ()

def respond (s : Transport) (id : ZstMsgID) : Except Unit Transport :=
  match s.requests id with
  | some ⟨future, .received, msg⟩ =>
    .ok ({ s with responses := s.responses ++ [(id, msg)] }.setRequest id ⟨future, .responded, msg⟩)
  | _ => .error ()

def release (s : Transport) (id : ZstMsgID) : Except Unit Transport :=
  match s.requests id with
  | some ⟨future, .responded, none⟩ => .ok (s.setRequest id ⟨future, .released, none⟩)
  | some ⟨future, .responded, some msg⟩ =>
    let s := s.setRequest id ⟨future, .released, some msg⟩
    .ok (if msg ∈ s.hasPromise then s.releaseOwnedMessage msg else s)
  | _ => .error ()

def enqueueResolved (s : Transport) (id : ZstMsgID) : Except Unit Transport :=
  match s.requests id with
  | some ⟨future, .released, msg⟩ =>
    .ok ({ s with deadPromises := s.deadPromises ++ [id] }.setRequest id ⟨future, .finished, msg⟩)
  | _ => .error ()

/-! ## Receiving -/

/-- A transport's `sock_recv` ends in `dispatch_receive_event`. -/
def receive (s : Transport) (id : ZstMsgID) : Transport :=
  let msg : ZstMessage := { number := s.received.length, id }
  { s with received := s.received ++ [msg], dispatchEvents := s.dispatchEvents ++ [msg] }

/-- `s_handle_beacon` takes the message's ownership before it is dispatched. -/
def handleBeacon (s : Transport) (server : ZstServerAddress) : Transport :=
  let msg : ZstMessage := { number := s.received.length, id := 0, server := some server }
  { s with
    received := s.received ++ [msg]
    hasPromise := msg :: s.hasPromise
    dispatchEvents := s.dispatchEvents ++ [msg] }.takeMessageOwnership msg

/-- `server_discovery_handler`; a promise that is satisfied already throws. -/
def serverDiscoveryHandler (s : Transport) (msg : ZstMessage) (server : ZstServerAddress) :
    Transport :=
  if server ∈ s.serverBeacons then s
  else
    let s := { s with serverBeacons := server :: s.serverBeacons }
    if s.connectedToStage = false ∧ s.joinRequests server.name = some .waiting then
      { s with
        joinRequests := Function.update s.joinRequests server.name (some (.satisfied msg)) }
    else s

/-- `process_message_response` as far as the ownership, and what the completion of
`dispatch_receive_event` does if there is no promise. -/
def processMessageResponse (s : Transport) (msg : ZstMessage) : Transport :=
  if msg.id ∈ s.responsePromises then
    { s with hasPromise := msg :: s.hasPromise, processing := some msg }.takeMessageOwnership msg
  else { s with cleanups := s.cleanups ++ [msg] }

/-- The adaptors and then the completion of `dispatch_receive_event`. -/
def completeReceiveEvent (s : Transport) (msg : ZstMessage) : Transport :=
  let s := msg.server.elim s fun server => s.serverDiscoveryHandler msg server
  if msg ∈ s.hasPromise then s else s.processMessageResponse msg

def dispatch (s : Transport) : Except Unit Transport :=
  match s.processing, s.dispatchEvents with
  | none, msg :: events => .ok ({ s with dispatchEvents := events }.completeReceiveEvent msg)
  | _, _ => .error ()

/-- What `set_value` makes of the request; it throws if there is a value already. -/
def satisfy (msg : ZstMessage) (r : Request) : Request :=
  if r.future = .pending then { r with future := .value msg } else r

def setValue (s : Transport) : Except Unit Transport :=
  match s.processing with
  | some msg =>
    .ok { s with
          processing := none
          requests := Function.update s.requests msg.id ((s.requests msg.id).map (satisfy msg)) }
  | none => .error ()

/-! ## Joining on a beacon -/

/-- `auto_join_stage` for a server that is not known yet. -/
def autoJoin (s : Transport) (name : String) : Except Unit Transport :=
  match s.joinRequests name with
  | none => .ok { s with joinRequests := Function.update s.joinRequests name (some .waiting) }
  | some _ => .error ()

/-- `join_on_beacon` with the beacon's message, which it releases. -/
def joinOnBeacon (s : Transport) (name : String) : Except Unit Transport :=
  match s.joinRequests name with
  | some (.satisfied msg) =>
    .ok ({ s with joinRequests := Function.update s.joinRequests name none }.releaseOwnedMessage msg)
  | _ => .error ()

def joinTimeout (s : Transport) (name : String) : Except Unit Transport :=
  match s.joinRequests name with
  | some .waiting =>
    .ok { s with joinRequests := Function.update s.joinRequests name (some .timedOut) }
  | _ => .error ()

def eraseJoin (s : Transport) (name : String) : Except Unit Transport :=
  match s.joinRequests name with
  | some .timedOut => .ok { s with joinRequests := Function.update s.joinRequests name none }
  | _ => .error ()

def step (s : Transport) : TransportEvent → Except Unit Transport
  | .registerResponse id => s.registerResponse id
  | .sendMessage id => s.sendMessage id
  | .receive id => .ok (s.receive id)
  | .beacon server => .ok (s.handleBeacon server)
  | .dispatch => s.dispatch
  | .setValue => s.setValue
  | .get id => s.get id
  | .timeout id => s.timeout id
  | .respond id => s.respond id
  | .release id => s.release id
  | .enqueueResolved id => s.enqueueResolved id
  | .cleanup => s.cleanupResponseMessages
  | .autoJoin name => s.autoJoin name
  | .joinOnBeacon name => s.joinOnBeacon name
  | .joinTimeout name => s.joinTimeout name
  | .eraseJoin name => s.eraseJoin name
  | .setConnected value => .ok { s with connectedToStage := value }
  | .serverLost server => .ok { s with serverBeacons := s.serverBeacons.filter (· ≠ server) }

end Transport
end Showtime
