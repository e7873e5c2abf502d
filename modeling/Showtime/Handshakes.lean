import Showtime.Naming
/-!
# Handshakes between peers

To connect a publisher with a subscriber the stage asks the subscriber to listen
to the publisher, and the publisher to broadcast handshakes until the stage says
stop. The subscriber answers when it hears one. It keeps what it has to answer
by the publisher's path, the publisher keeps its timers by the subscriber's, so
a second handshake of the same two gets in the way of the first one.
-/

namespace Showtime.Handshakes

open ZstHierarchy ZstStageHierarchy ZstStageSession ZstStage Sending
open Naming (endpointOf endpointOf_client mem_joined_iff performerOf_joined SameClients Housed)
open Subscribers (joined mem_joined)

/-! ## Peers -/

/-- The members of `ZstClient` that connections between peers need. A timer is
known by the path of the performer it broadcasts to. -/
structure Peer where
  /-- The path of the local performer. -/
  path : ZstURI
  /-- `get_graph_out_address`. -/
  address : String
  /-- The performers that `find_entity` finds. -/
  performers : List ZstURI := []
  pendingPeerConnections : ZstURI → Option ZstMsgID := fun _ => none
  connectionTimers : List ZstURI := []
  /-- The waits for a timer that are not over. -/
  waits : List ZstURI := []
  /-- The addresses that the graph transport is connected to, and how many
  messages from there it has heard or missed. -/
  publishers : String → Option Nat := fun _ => none
  /-- How many messages of the stage were delivered. -/
  read : Nat := 0
  /-- The ids of the `Signal_OK` messages that were sent to the stage. -/
  signals : List ZstMsgID := []
  /-- How many of these the stage has received. -/
  reported : Nat := 0

namespace Peer

/-- `listen_to_client_handler`. What was published before is missed. -/
def listenToClientHandler (p : Peer) (outputPath : ZstURI) (senderAddress : String)
    (id : ZstMsgID) (published : Nat) : Peer :=
  { p with
    pendingPeerConnections := Function.update p.pendingPeerConnections outputPath (some id)
    publishers := Function.update p.publishers senderAddress
      (some ((p.publishers senderAddress).getD published)) }

/-- `start_connection_broadcast_handler`, which reads the remote client for the log
before it looks whether there is one. A timer that exists is waited for once more. -/
def startConnectionBroadcastHandler (p : Peer) (remoteClient : ZstURI) : Except Fault Peer :=
  if remoteClient ∈ p.performers then
    .ok { p with
      connectionTimers := p.connectionTimers.insert remoteClient
      waits := remoteClient :: p.waits }
  else .error .nullPointer

/-- `send_connection_broadcast`, but for what is published: it waits again while
there is a timer. -/
def sendConnectionBroadcast (p : Peer) (remoteClient : ZstURI) : Peer :=
  let waits := p.waits.erase remoteClient
  { p with
    waits := if remoteClient ∈ p.connectionTimers then remoteClient :: waits else waits }

/-- `stop_connection_broadcast_handler`. A wait that is cancelled ends like any other. -/
def stopConnectionBroadcastHandler (p : Peer) (remoteClient : ZstURI) : Except Fault Peer :=
  if remoteClient ∈ p.performers then
    .ok { p with connectionTimers := p.connectionTimers.filter (· ≠ remoteClient) }
  else .error .nullPointer

def connectionHandshakeHandler (p : Peer) (outputPath : ZstURI) : Peer :=
  match p.pendingPeerConnections outputPath with
  | some id =>
    { p with
      signals := p.signals ++ [id]
      pendingPeerConnections := Function.update p.pendingPeerConnections outputPath none }
  | none => p

/-- `ZstClient::on_receive_msg`, as far as handshakes go. -/
def onReceiveMsg (p : Peer) (id : ZstMsgID) (published : String → List ZstURI) :
    Content → Except Fault Peer
  | .clientGraphHandshakeListen output address =>
    .ok (p.listenToClientHandler output address id (published address).length)
  | .clientGraphHandshakeStart input _ => p.startConnectionBroadcastHandler input
  | .clientGraphHandshakeStop input => p.stopConnectionBroadcastHandler input
  | _ => .ok p

/-- The next message of the stage, which may be for somebody else. The number of
a message is its id. -/
def take (p : Peer) (endpoint : Endpoint) (sent : List Outgoing)
    (published : String → List ZstURI) : Except Fault Peer :=
  match sent[p.read]? with
  | none => .ok p
  | some m =>
    if m.target = endpoint then
      { p with read := p.read + 1 }.onReceiveMsg p.read published m.content
    else .ok { p with read := p.read + 1 }

/-- The sender of the next message from an address. -/
def next (p : Peer) (address : String) (published : String → List ZstURI) : Option ZstURI :=
  (p.publishers address).bind fun n => (published address)[n]?

/-- The next message from the address is over. -/
def skip (p : Peer) (address : String) : Peer :=
  { p with
    publishers := Function.update p.publishers address ((p.publishers address).map (· + 1)) }

end Peer

/-! ## The network -/

/-- The stage, its clients by their endpoints, and what they publish. -/
structure Network where
  stage : ZstSession
  clients : Endpoint → Peer
  /-- The senders of the handshakes that were published from an address. -/
  published : String → List ZstURI := fun _ => []
  /-- The messages of the stage that were responded to. -/
  resolved : List ZstMsgID := []

inductive HandshakeEvent
  /-- The stage receives a `CableCreateRequest`. -/
  | createCable (path : ZstCableAddress) (id : ZstMsgID) (origin : Endpoint)
  /-- The stage receives an `EntityObserveRequest`. -/
  | observe (path : ZstURI) (id : ZstMsgID) (origin : Endpoint)
  /-- A client receives the next message of the stage. -/
  | deliver (client : Endpoint)
  /-- A wait for the timer of a receiver is over. -/
  | timer (client : Endpoint) (receiver : ZstURI)
  /-- A client hears the next handshake from an address, or misses it. -/
  | hear (client : Endpoint) (address : String)
  | miss (client : Endpoint) (address : String)
  /-- The stage receives the next signal of a client. -/
  | respond (client : Endpoint)
  deriving DecidableEq, Repr

/-- The request that the stage receives. -/
def HandshakeEvent.request : HandshakeEvent → Option ZstStageMessage
  | .createCable path id origin =>
    some { content := .cableCreateRequest path, id, originEndpointUUID := origin }
  | .observe path id origin =>
    some { content := .entityObserveRequest path, id, originEndpointUUID := origin }
  | _ => none

namespace Network

def sent (n : Network) : List Outgoing :=
  n.stage.hierarchy.sent

def setClient (n : Network) (client : Endpoint) (p : Peer) : Network :=
  { n with clients := Function.update n.clients client p }

def receiveRequest (n : Network) (msg : ZstStageMessage) : Except Fault Network := do
  let stage ← receive n.stage msg
  return { n with stage }

/-- The first signal for a message finds its promise and runs the callback. -/
def receiveSignal (n : Network) (id : ZstMsgID) : Except Fault Network :=
  if id ∈ n.resolved then .ok n
  else do
    let stage ← ZstStage.step n.stage (.respond id (some (.signalMessage .ok)))
    return { n with stage, resolved := id :: n.resolved }

def step (n : Network) : HandshakeEvent → Except Fault Network
  | .createCable path id origin =>
    n.receiveRequest { content := .cableCreateRequest path, id, originEndpointUUID := origin }
  | .observe path id origin =>
    n.receiveRequest { content := .entityObserveRequest path, id, originEndpointUUID := origin }
  | .deliver client => do
    let p ← (n.clients client).take client n.sent n.published
    return n.setClient client p
  | .timer client receiver =>
    let p := n.clients client
    .ok (if receiver ∈ p.waits then
      { n.setClient client (p.sendConnectionBroadcast receiver) with
        published := Function.update n.published p.address (n.published p.address ++ [p.path]) }
    else n)
  | .hear client address =>
    let p := n.clients client
    .ok (match p.next address n.published with
      | some outputPath =>
        n.setClient client ((p.skip address).connectionHandshakeHandler outputPath)
      | none => n)
  | .miss client address =>
    let p := n.clients client
    .ok (match p.next address n.published with
      | some _ => n.setClient client (p.skip address)
      | none => n)
  | .respond client =>
    let p := n.clients client
    match p.signals[p.reported]? with
    | some id => (n.setClient client { p with reported := p.reported + 1 }).receiveSignal id
    | none => .ok n

end Network

/-! ## What is promised -/

/-- The performers that the stage connects with a message. -/
def connecting (h : ZstHierarchy) (id : ZstMsgID) : Option (EntityId × EntityId) :=
  (callback h id).bind fun
    | .clientsConnected output input _ => some (output, input)
    | _ => none

/-- The message of the number is one of these. -/
def At (sent : List Outgoing) (id : Nat) (which : Outgoing → Prop) : Prop :=
  ∃ m, sent[id]? = some m ∧ which m

/-- The client is asked to listen to a path. -/
def Listen (client : Endpoint) (path : ZstURI) (m : Outgoing) : Prop :=
  m.target = client ∧ ∃ address, m.content = .clientGraphHandshakeListen path address

/-- The client is asked to broadcast to a path. -/
def Start (client : Endpoint) (path : ZstURI) (m : Outgoing) : Prop :=
  m.target = client ∧ ∃ address, m.content = .clientGraphHandshakeStart path address

/-- The client is told that it can stop broadcasting to a path. -/
def Stop (client : Endpoint) (path : ZstURI) (m : Outgoing) : Prop :=
  m.target = client ∧ m.content = .clientGraphHandshakeStop path

/-- The client has received a request to listen to the path. -/
def Peer.Received (p : Peer) (sent : List Outgoing) (client : Endpoint) (id : ZstMsgID)
    (path : ZstURI) : Prop :=
  id < p.read ∧ At sent id (Listen client path)

/-- The client waits for a timer to broadcast to the path, and will wait again. -/
def Peer.Broadcasting (p : Peer) (path : ZstURI) : Prop :=
  path ∈ p.connectionTimers ∧ path ∈ p.waits

/-- The performers have paths and endpoints of their own. -/
structure PerformersApart (h : ZstHierarchy) : Prop where
  endpoint : ∀ d ∈ joined h, ∀ e ∈ joined h, endpointOf h d = endpointOf h e → d = e
  uri : ∀ d ∈ joined h, ∀ e ∈ joined h, (h.entities d).uri = (h.entities e).uri → d = e

/-- The performers between which a request starts a handshake. -/
def starts (s : ZstSession) (msg : ZstStageMessage) : Option (EntityId × EntityId) :=
  (getClientFromEndpointUUID s.hierarchy msg.originEndpointUUID).bind fun sender =>
    match ConnectReplies.course s msg sender with
    | .peers output input action =>
      if handshakeMessages s.hierarchy output input action = [] then none
      else some (output, input)
    | _ => none

namespace Network

/-- The client broadcasts to the path, or the request to do so is on its way. -/
def BroadcastsTo (n : Network) (client : Endpoint) (path : ZstURI) : Prop :=
  (n.clients client).Broadcasting path ∨
    ∃ id, (n.clients client).read ≤ id ∧ At n.sent id (Start client path)

/-- Whoever has heard a handshake has answered the requests to listen to its sender,
each of them once. The publisher of a request that was received and is not answered
broadcasts to the subscriber. No client fails over the message that comes next. -/
structure AnswersHandshakes (start : Network) (events : List HandshakeEvent) (n : Network) :
    Prop where
  answered : ∀ first client address last s path id,
    events = first ++ .hear client address :: last → Library.run step start first = .ok s →
    (s.clients client).next address s.published = some path →
    (s.clients client).Received s.sent client id path → (n.clients client).signals.count id = 1
  broadcasts : ∀ id output input client path publisher,
    connecting n.stage.hierarchy id = some (output, input) →
    (n.clients client).Received n.sent client id path → id ∉ (n.clients client).signals →
    endpointOf n.stage.hierarchy output = some publisher →
    n.BroadcastsTo publisher (n.stage.hierarchy.entities input).uri
  takes : ∀ client, ∃ p, (n.clients client).take client n.sent n.published = .ok p

/-- No handshake was ever asked for, and everyone who is found on the stage is one of
its performers. -/
structure NoHandshakeYet (n : Network) : Prop where
  sound : FindsOwned n.stage.hierarchy
  housed : Housed n.stage.hierarchy
  apart : PerformersApart n.stage.hierarchy
  sent : ∀ m ∈ n.sent, ¬ IsHandshake m
  callbacks : ∀ id, connecting n.stage.hierarchy id = none
  resolved : n.resolved = []
  read : ∀ c, (n.clients c).read = n.sent.length
  signals : ∀ c, (n.clients c).signals = []
  pending : ∀ c path, (n.clients c).pendingPeerConnections path = none

/-- The stage has asked for a handshake of the two and has not had the answer. -/
def UnderWay (n : Network) (output input : EntityId) : Prop :=
  ∃ id ∈ List.range n.sent.length, id ∉ n.resolved ∧
    connecting n.stage.hierarchy id = some (output, input)

/-- The client of the publisher knows the subscriber. -/
def KnowsSubscriber (n : Network) (output input : EntityId) : Prop :=
  ∀ endpoint ∈ endpointOf n.stage.hierarchy output,
    (n.stage.hierarchy.entities input).uri ∈ (n.clients endpoint).performers

/-- When a request starts a handshake no other of the same two is under way, and the
publisher knows the subscriber. -/
def FreshHandshake (n : Network) (event : HandshakeEvent) : Prop :=
  ∀ msg ∈ event.request, ∀ pair ∈ starts n.stage msg,
    ¬ n.UnderWay pair.1 pair.2 ∧ n.KnowsSubscriber pair.1 pair.2

instance (n : Network) (event : HandshakeEvent) : Decidable (n.FreshHandshake event) :=
  inferInstanceAs (Decidable (∀ msg ∈ event.request, ∀ pair ∈ starts n.stage msg,
    ¬ (∃ id ∈ List.range n.sent.length, id ∉ n.resolved ∧
      connecting n.stage.hierarchy id = some (pair.1, pair.2)) ∧
    ∀ endpoint ∈ endpointOf n.stage.hierarchy pair.1,
      (n.stage.hierarchy.entities pair.2).uri ∈ (n.clients endpoint).performers))

end Network

/-! ## What the stage says -/

section Stage

variable {s t : ZstSession} {h k l : ZstHierarchy}

theorem peers_addSubscriber {x : Entity} (hproxy : x.stageProxy.isSome = true) (client : Entity) :
    Subscribers.peers (x.addSubscriber client) = client.uri :: Subscribers.peers x := by
  obtain ⟨proxy, hproxy⟩ := Option.isSome_iff_exists.mp hproxy
  simp [Subscribers.peers, Entity.addSubscriber, hproxy]

/-- The performers of the first hierarchy are where they were, with the subscribers
that they had. -/
structure PerformersStay (h k : ZstHierarchy) : Prop where
  clients : SameClients h k
  uri : ∀ e, (k.entities e).uri = (h.entities e).uri
  findEntity : ∀ path, k.findEntity path = h.findEntity path
  remembers : ∀ d e, (h.entities d).hasConnectedSubscriber (h.entities e) = true →
    (k.entities d).hasConnectedSubscriber (k.entities e) = true

namespace PerformersStay

theorem refl (h : ZstHierarchy) : PerformersStay h h :=
  ⟨.refl h, fun _ => rfl, fun _ => rfl, fun _ _ hconnected => hconnected⟩

theorem trans (hk : PerformersStay h k) (kl : PerformersStay k l) : PerformersStay h l :=
  ⟨hk.clients.trans kl.clients, fun e => (kl.uri e).trans (hk.uri e),
    fun path => (kl.findEntity path).trans (hk.findEntity path),
    fun d e hconnected => kl.remembers d e (hk.remembers d e hconnected)⟩

theorem of_standing (hk : Standing h k) : PerformersStay h k := by
  have huri := hk.field Entity.uri fun _ => rfl
  refine ⟨.of_standing hk, huri, hk.findEntity_eq, fun d e hconnected => ?_⟩
  unfold Entity.hasConnectedSubscriber
  rw [hk.field Entity.stageProxy fun _ => rfl, huri]
  exact hconnected

theorem of_replugged (hst : ConnectReplies.Replugged s t) :
    PerformersStay s.hierarchy t.hierarchy := by
  have huri := hst.field Entity.uri fun _ => rfl
  refine ⟨.of_replugged hst, huri, fun path => ?_, fun d e hconnected => ?_⟩
  · simp only [ZstHierarchy.findEntity, hst.root, hst.lookup, huri]
  · rw [hst.hasConnectedSubscriber]
    exact hconnected

theorem subscribe (h : ZstHierarchy) (output input : EntityId) :
    PerformersStay h (subscribe h output input) := by
  have huri := FindsOwned.subscribe_uri h output input
  refine ⟨.subscribe h output input, huri, fun path => ?_, fun d e hconnected => ?_⟩
  · simp only [ZstHierarchy.findEntity, huri]
    rfl
  · rw [Subscribers.hasConnectedSubscriber_iff] at hconnected ⊢
    rw [huri]
    unfold ZstStageSession.subscribe
    rw [modify_entities]
    split
    · rename_i hd
      rw [hd] at hconnected
      cases hproxy : (h.entities output).stageProxy with
      | none => simp [Subscribers.peers, hproxy] at hconnected
      | some proxy =>
        rw [peers_addSubscriber (by rw [hproxy]; rfl)]
        exact List.mem_cons_of_mem _ hconnected
    · exact hconnected

end PerformersStay

/-- The message is none of a handshake, and nobody waits for its response. -/
def OutsideHandshakes (m : Outgoing) : Prop :=
  ¬ IsHandshake m ∧ m.onRecvResponse = none

theorem plain_whisper {content : Content} (hcontent : ∀ m : Outgoing, m.content = content →
    ¬ IsHandshake m) {c : EntityId} {id : Option ZstMsgID} :
    ∀ m ∈ whisperMessages h c content id none, OutsideHandshakes m := by
  intro m hm
  obtain ⟨proxy, -, rfl⟩ := mem_whisperMessages.mp hm
  exact ⟨hcontent _ rfl, rfl⟩

theorem plain_broadcast {content : Content} (hcontent : ∀ m : Outgoing, m.content = content →
    ¬ IsHandshake m) {excluded : Option EntityId} :
    ∀ m ∈ broadcastMessages h content excluded, OutsideHandshakes m := by
  intro m hm
  obtain ⟨e, -, hm⟩ := List.mem_flatMap.mp hm
  split at hm
  · cases hm
  · exact plain_whisper hcontent m hm

theorem plain_response (msg : ZstStageMessage) (response : Signal) :
    ∀ m ∈ responseMessages msg response, OutsideHandshakes m := by
  intro m hm
  unfold responseMessages at hm
  split at hm
  · cases hm
  · rw [List.mem_singleton.mp hm]
    exact ⟨fun hshake => hshake, rfl⟩

theorem cableMessage_not_handshake {m : Outgoing} {a : ZstCableAddress}
    (hm : m.content = .cableCreateRequest a ∨ m.content = .cableDestroyRequest a) :
    ¬ IsHandshake m := by
  unfold IsHandshake
  rcases hm with hm | hm <;> rw [hm] <;> exact not_false

theorem signal_not_handshake {m : Outgoing} {signal : Signal}
    (hm : m.content = .signalMessage signal) : ¬ IsHandshake m := by
  unfold IsHandshake
  rw [hm]
  exact not_false

theorem destroyCable_plain (s : ZstSession) (c : CableId) :
    Sends OutsideHandshakes s.hierarchy (destroyCable s c).hierarchy := by
  refine .trans ?_ (.silent (Mute.destroyCableComplete _ c).sent)
  simp only [onHierarchy, broadcast_eq]
  exact ⟨_, plain_broadcast fun _ hm => cableMessage_not_handshake (.inr hm), rfl⟩

theorem plugged_plain (s : ZstSession) (input output : EntityId) :
    Sends OutsideHandshakes s.hierarchy (ConnectReplies.plugged s input output).hierarchy := by
  refine .trans ?_ (.silent (Mute.createCable _ input output).sent)
  unfold ConnectReplies.makeRoom
  split
  · exact Sends.foldl destroyCable_plain _ s
  · exact .refl _

theorem replied_plain (sender : EntityId) (signal : Signal) (id : ZstMsgID) :
    Sends OutsideHandshakes h (replyWithSignal h sender signal id) := by
  rw [replyWithSignal, whisperTo_eq]
  exact ⟨_, plain_whisper fun _ => signal_not_handshake, rfl⟩

/-- Telling everyone of a cable is no part of a handshake, nor is the reply. -/
theorem cableConnectFinished_plain {cable : CableId} {sender : EntityId} {id : ZstMsgID}
    {signal : Signal} (hrun : cableConnectFinished s cable sender id signal = .ok t) :
    PerformersStay s.hierarchy t.hierarchy ∧ Sends OutsideHandshakes s.hierarchy t.hierarchy := by
  have hstanding := Standing.cableConnectFinished hrun
  obtain ⟨told, htold, -, rfl⟩ := cableConnectFinished_succeeded hrun
  refine ⟨.of_standing hstanding, .trans ?_ (replied_plain sender signal id)⟩
  rcases htold with ⟨-, -, rfl⟩ | ⟨-, rfl⟩
  · rw [broadcast_eq]
    exact ⟨_, plain_broadcast fun _ hm => cableMessage_not_handshake (.inl hm), rfl⟩
  · exact .refl _

/-- A new handshake is two messages, and the subscriber's response is waited for. -/
theorem handshakeMessages_pair {output input : EntityId} {action : ConnectAction}
    {publisher subscriber : Endpoint} (hpublisher : endpointOf h output = some publisher)
    (hsubscriber : endpointOf h input = some subscriber)
    (hnew : handshakeMessages h output input action ≠ []) :
    ∃ listen start, handshakeMessages h output input action = [listen, start] ∧
      Listen subscriber (h.entities output).uri listen ∧
      listen.onRecvResponse = some (.clientsConnected output input action) ∧
      Start publisher (h.entities input).uri start ∧ start.onRecvResponse = none := by
  obtain ⟨outputProxy, houtput, rfl⟩ := Option.map_eq_some_iff.mp hpublisher
  obtain ⟨inputProxy, hinput, rfl⟩ := Option.map_eq_some_iff.mp hsubscriber
  unfold handshakeMessages at hnew ⊢
  simp only at hnew ⊢
  split_ifs at hnew ⊢
  · exact absurd rfl hnew
  · exact absurd rfl hnew
  · simp only [whisperMessages, houtput, hinput, Option.map_some, Option.toList_some]
    exact ⟨_, _, rfl, ⟨rfl, _, rfl⟩, rfl, ⟨rfl, _, rfl⟩, rfl⟩

theorem handshakeMessages_connected {output input : EntityId}
    (hconnected : (h.entities output).hasConnectedSubscriber (h.entities input) = true)
    (action : ConnectAction) : handshakeMessages h output input action = [] := by
  unfold handshakeMessages
  exact if_pos hconnected

theorem handshakeMessages_same {output input : EntityId}
    (huri : (h.entities output).uri = (h.entities input).uri) (action : ConnectAction) :
    handshakeMessages h output input action = [] := by
  unfold handshakeMessages
  simp only [huri, if_true, ite_self]

theorem handshakeMessages_replugged {u : ZstSession} (hu : ConnectReplies.Replugged s u)
    (output input : EntityId) (action : ConnectAction) :
    handshakeMessages u.hierarchy output input action =
      handshakeMessages s.hierarchy output input action := by
  have huri := hu.field Entity.uri fun _ => rfl
  have hproxy := hu.field Entity.stageProxy fun _ => rfl
  unfold handshakeMessages whisperMessages reliableAddress
  simp only [hu.hasConnectedSubscriber, huri, hproxy]

/-- What a request makes the stage say: no word about a handshake, or last of all the
messages of the one that it starts. -/
structure Speaks (s : ZstSession) (msg : ZstStageMessage) (t : ZstSession) : Prop where
  stays : PerformersStay s.hierarchy t.hierarchy
  sent : starts s msg = none ∧ Sends OutsideHandshakes s.hierarchy t.hierarchy ∨
    ∃ output input action first, starts s msg = some (output, input) ∧
      output ∈ joined s.hierarchy ∧ input ∈ joined s.hierarchy ∧
      handshakeMessages s.hierarchy output input action ≠ [] ∧ (∀ m ∈ first, OutsideHandshakes m) ∧
      t.hierarchy.sent =
        s.hierarchy.sent ++ first ++ handshakeMessages s.hierarchy output input action

variable {msg : ZstStageMessage} {sender : EntityId}

theorem starts_eq_none (hclient : getClientFromEndpointUUID s.hierarchy msg.originEndpointUUID =
      some sender)
    (hcourse : ∀ output input action, ConnectReplies.course s msg sender =
      .peers output input action → handshakeMessages s.hierarchy output input action = []) :
    starts s msg = none := by
  unfold starts
  rw [hclient, Option.bind_some]
  split
  · rename_i output input action hpeers
    exact if_pos (hcourse output input action hpeers)
  · rfl

/-- A request that connects two performers says what the handshake needs. -/
theorem speaks_of_connect {u : ZstSession} {output input : EntityId} {action : ConnectAction}
    (hclient : getClientFromEndpointUUID s.hierarchy msg.originEndpointUUID = some sender)
    (hcourse : ConnectReplies.course s msg sender = .peers output input action)
    (hu : ConnectReplies.Replugged s u) (hplain : Sends OutsideHandshakes s.hierarchy u.hierarchy)
    (hout : output ∈ joined s.hierarchy) (hin : input ∈ joined s.hierarchy) :
    Speaks s msg (connectClients u output input action) := by
  have hstays : PerformersStay s.hierarchy (connectClients u output input action).hierarchy := by
    rw [connectClients_eq]
    exact (PerformersStay.of_replugged hu).trans (.of_standing (Standing.sends _ _))
  refine ⟨hstays, ?_⟩
  rw [connectClients_eq, handshakeMessages_replugged hu]
  by_cases hnew : handshakeMessages s.hierarchy output input action = []
  · refine .inl ⟨starts_eq_none hclient fun d e follow hpeers => ?_, ?_⟩
    · rw [hcourse] at hpeers
      cases hpeers
      exact hnew
    · rw [hnew]
      simpa [onHierarchy] using hplain
  · obtain ⟨first, hfirst, hsent⟩ := hplain
    refine .inr ⟨output, input, action, first, ?_, hout, hin, hnew, hfirst, ?_⟩
    · simp only [starts, hclient, Option.bind_some, hcourse, if_neg hnew]
    · simp only [onHierarchy, hsent]

/-- A handler that connects nobody says nothing about a handshake. -/
theorem speaks_of_plain {w : ZstSession}
    (hclient : getClientFromEndpointUUID s.hierarchy msg.originEndpointUUID = some sender)
    (hcourse : ∀ output input action, ConnectReplies.course s msg sender =
      .peers output input action → handshakeMessages s.hierarchy output input action = [])
    (hstays : PerformersStay s.hierarchy w.hierarchy)
    (hplain : Sends OutsideHandshakes s.hierarchy w.hierarchy)
    (response : Signal) : Speaks s msg (onHierarchy w fun h => respond h msg response) := by
  have hresponse : Sends OutsideHandshakes w.hierarchy (respond w.hierarchy msg response) := by
    rw [respond_eq]
    exact ⟨_, plain_response msg response, rfl⟩
  refine ⟨hstays.trans ?_, .inl ⟨starts_eq_none hclient hcourse, hplain.trans hresponse⟩⟩
  simp only [onHierarchy, respond_eq]
  exact .of_standing (Standing.sends _ _)

theorem createCable_speaks (sound : FindsOwned s.hierarchy) {path : ZstCableAddress}
    (hclient : getClientFromEndpointUUID s.hierarchy msg.originEndpointUUID = some sender)
    (hcontent : msg.content = .cableCreateRequest path) {w : ZstSession} {response : Signal}
    (hrun : createCableHandler s msg path sender = .ok (w, response)) :
    Speaks s msg (onHierarchy w fun h => respond h msg response) := by
  rcases createCableHandler_ok hrun with
    ⟨hrefused, rfl⟩ | ⟨rfl, input, output, p, q, hcable, hinput, houtput, hp, hq, hfinish⟩
  · refine speaks_of_plain hclient (fun output input action hpeers => ?_) (.refl _) (.refl _) _
    -- a check of the handler fails
    exfalso
    unfold ConnectReplies.course at hpeers
    rw [hcontent] at hpeers
    dsimp only at hpeers
    rcases hrefused with hfound | hplug | hplug
    · rw [if_pos hfound] at hpeers
      cases hpeers
    · rw [hplug] at hpeers
      split at hpeers <;> cases hpeers
    · rw [hplug] at hpeers
      split at hpeers
      · cases hpeers
      · cases hin : w.findInputPlug path.inputURI with
        | none =>
          rw [hin] at hpeers
          cases hpeers
        | some input =>
          rw [hin] at hpeers
          cases hpeers
  have hcourse : ConnectReplies.course s msg sender =
      .peers p q (.cable (ConnectReplies.requestedCable s input output) sender msg.id) := by
    simp [ConnectReplies.course, hcontent, hcable, hinput, houtput, hp, hq]
  have hkeeps := (ConnectReplies.plugged_keeps s input output).1
  have hplain := plugged_plain s input output
  split at hfinish
  · rename_i huri
    obtain ⟨hstays, htold⟩ := cableConnectFinished_plain hfinish
    refine speaks_of_plain hclient (fun d e action hpeers => ?_)
      ((PerformersStay.of_replugged hkeeps).trans hstays) (hplain.trans htold) _
    rw [hcourse] at hpeers
    cases hpeers
    exact handshakeMessages_same huri _
  · rw [hfinish]
    exact speaks_of_connect hclient hcourse hkeeps hplain (performerOf_joined sound hp)
      (performerOf_joined sound hq)

theorem observeEntity_speaks (housed : Housed s.hierarchy) {path : ZstURI}
    (hclient : getClientFromEndpointUUID s.hierarchy msg.originEndpointUUID = some sender)
    (hcontent : msg.content = .entityObserveRequest path) {w : ZstSession} {response : Signal}
    (hrun : observeEntityHandler s msg path sender = .ok (w, response)) :
    Speaks s msg (onHierarchy w fun h => respond h msg response) := by
  by_cases hpath : path = []
  · unfold observeEntityHandler firstSegment at hrun
    rw [if_pos hpath] at hrun
    cases hrun
  rw [ConnectReplies.observeEntityHandler_eq s msg path sender hpath] at hrun
  have hsilent : (∀ output input action, ConnectReplies.course s msg sender ≠
      .peers output input action) → Speaks s msg (onHierarchy s fun h => respond h msg response) :=
    fun hcourse => speaks_of_plain hclient (fun d e action hpeers => absurd hpeers (hcourse d e action))
      (.refl _) (.refl _) response
  split at hrun
  · rename_i hnobody
    obtain ⟨rfl, -⟩ := Prod.mk.inj (Except.ok.inj hrun)
    refine hsilent fun d e action hpeers => ?_
    simp [ConnectReplies.course, hcontent, hpath, hnobody] at hpeers
  · rename_i observed hobserved
    split at hrun
    · rename_i hself
      obtain ⟨rfl, -⟩ := Prod.mk.inj (Except.ok.inj hrun)
      refine hsilent fun d e action hpeers => ?_
      simp [ConnectReplies.course, hcontent, hpath, hobserved, hself] at hpeers
    · rename_i hself
      split at hrun
      · rename_i hknown
        obtain ⟨rfl, -⟩ := Prod.mk.inj (Except.ok.inj hrun)
        refine hsilent fun d e action hpeers => ?_
        simp [ConnectReplies.course, hcontent, hpath, hobserved, hself, hknown] at hpeers
      · rename_i hfresh
        obtain ⟨rfl, rfl⟩ := Prod.mk.inj (Except.ok.inj hrun)
        have hcourse : ConnectReplies.course s msg sender =
            .peers observed sender (.observe sender msg.id) := by
          simp [ConnectReplies.course, hcontent, hpath, hobserved, hself, hfresh]
        have hperformer := List.mem_of_find?_eq_some hclient
        have hsender : sender ∈ joined s.hierarchy := mem_joined_iff.mpr
          ⟨List.mem_of_mem_filter hperformer, _, endpointOf_client hclient⟩
        exact speaks_of_connect hclient hcourse (.refl s) (.refl _)
          (housed.mem_joined hobserved) hsender

/-- What any request makes the stage say. -/
theorem receive_speaks (sound : FindsOwned s.hierarchy) (housed : Housed s.hierarchy)
    (hrequest : ConnectReplies.IsConnectRequest msg.content) (hrun : receive s msg = .ok t) :
    Speaks s msg t := by
  cases hclient : getClientFromEndpointUUID s.hierarchy msg.originEndpointUUID with
  | none =>
    unfold receive ZstStageSession.onReceiveMsg at hrun
    rw [hclient] at hrun
    simp only [bind, Except.bind, pure, Except.pure,
      ConnectReplies.hierarchyReceive_request hrequest] at hrun
    obtain rfl := Except.ok.inj hrun
    refine ⟨.refl _, .inl ⟨?_, .refl _⟩⟩
    rw [starts, hclient]
    rfl
  | some sender =>
    rw [ConnectReplies.receive_request s msg sender hrequest hclient] at hrun
    cases hdispatch : ZstStageSession.dispatch s msg sender with
    | error fault =>
      rw [hdispatch] at hrun
      cases hrun
    | ok result =>
      rw [hdispatch] at hrun
      obtain rfl := Except.ok.inj hrun
      unfold ZstStageSession.dispatch at hdispatch
      cases hcontent : msg.content with
      | cableCreateRequest path =>
        rw [hcontent] at hdispatch
        exact createCable_speaks sound hclient hcontent hdispatch
      | entityObserveRequest path =>
        rw [hcontent] at hdispatch
        exact observeEntity_speaks housed hclient hcontent hdispatch
      | _ =>
        rw [hcontent] at hrequest
        exact absurd hrequest not_false

theorem settled_request (hrequest : ConnectReplies.IsConnectRequest msg.content) :
    KeepsPlaces s (.receive msg) := by
  unfold KeepsPlaces
  cases hcontent : msg.content with
  | cableCreateRequest path => simp only [hcontent]
  | entityObserveRequest path => simp only [hcontent]
  | _ =>
    rw [hcontent] at hrequest
    exact absurd hrequest not_false

theorem connecting_eq_some {id : ZstMsgID} {output input : EntityId} :
    connecting h id = some (output, input) ↔
      ∃ action, callback h id = some (.clientsConnected output input action) := by
  unfold connecting
  constructor
  · intro hconnecting
    obtain ⟨waits, hwaits, hpair⟩ := Option.bind_eq_some_iff.mp hconnecting
    cases waits with
    | clientsConnected d e action =>
      obtain ⟨rfl, rfl⟩ := Prod.mk.inj (Option.some.inj hpair)
      exact ⟨action, hwaits⟩
    | _ => cases hpair
  · rintro ⟨action, hcallback⟩
    rw [hcallback]
    rfl

/-- Whatever waits for the handshake says nothing about one. -/
theorem onConnected_plain {action : ConnectAction} {response : Option Content}
    (hrun : onConnected s action response = .ok t) :
    PerformersStay s.hierarchy t.hierarchy ∧ Sends OutsideHandshakes s.hierarchy t.hierarchy := by
  refine ⟨.of_standing (Standing.onConnected hrun), ?_⟩
  cases action with
  | none =>
    obtain rfl := Except.ok.inj hrun
    exact .refl _
  | cable cable sender id => exact (cableConnectFinished_plain hrun).2
  | observe sender id =>
    unfold onConnected at hrun
    obtain ⟨sender, -, hrun⟩ := Library.bind_ok.mp hrun
    obtain rfl := Except.ok.inj hrun
    exact replied_plain sender (getSignal response) id

theorem hasConnectedSubscriber_subscribe {output input : EntityId} {publisher : Endpoint}
    (hpublisher : endpointOf h output = some publisher) :
    ((subscribe h output input).entities output).hasConnectedSubscriber
      ((subscribe h output input).entities input) = true := by
  obtain ⟨proxy, hproxy, -⟩ := Option.map_eq_some_iff.mp hpublisher
  rw [Subscribers.hasConnectedSubscriber_iff, FindsOwned.subscribe_uri]
  unfold subscribe
  rw [modify_entities_self, peers_addSubscriber (by rw [hproxy]; rfl)]
  exact List.mem_cons_self

/-- The response to a handshake makes the stage stop the publisher. -/
theorem respond_stops {id : ZstMsgID} {output input : EntityId} {publisher : Endpoint}
    (hconnecting : connecting s.hierarchy id = some (output, input))
    (hpublisher : endpointOf s.hierarchy output = some publisher)
    (hrun : ZstStage.step s (.respond id (some (.signalMessage .ok))) = .ok t) :
    PerformersStay s.hierarchy t.hierarchy ∧
      (t.hierarchy.entities output).hasConnectedSubscriber (t.hierarchy.entities input) = true ∧
      ∃ stop last, t.hierarchy.sent = s.hierarchy.sent ++ stop :: last ∧
        Stop publisher (s.hierarchy.entities input).uri stop ∧ stop.onRecvResponse = none ∧
        ∀ m ∈ last, OutsideHandshakes m := by
  obtain ⟨action, hcallback⟩ := connecting_eq_some.mp hconnecting
  simp only [ZstStage.step, hcallback, onRecvResponse] at hrun
  obtain ⟨-, -, hfollow⟩ := clientsConnected_succeeded rfl hrun
  obtain ⟨hstays, last, hlast, hsent⟩ := onConnected_plain hfollow
  rw [completeClientConnection_eq] at hstays hsent
  have hsubscribed := PerformersStay.subscribe s.hierarchy output input
  have hstopped : PerformersStay (subscribe s.hierarchy output input) t.hierarchy :=
    .trans (.of_standing (Standing.sends _ _)) hstays
  obtain ⟨proxy, hproxy, hendpoint⟩ := Option.map_eq_some_iff.mp
    ((hsubscribed.clients.endpoint output).trans hpublisher)
  refine ⟨hsubscribed.trans hstopped,
    hstopped.remembers _ _ (hasConnectedSubscriber_subscribe hpublisher),
    { target := publisher
      content := .clientGraphHandshakeStop (s.hierarchy.entities input).uri }, last, ?_,
    ⟨rfl, rfl⟩, rfl, hlast⟩
  rw [hsent]
  simp only [onHierarchy, whisperMessages, hproxy, Option.map_some, Option.toList_some, hendpoint,
    FindsOwned.subscribe_uri, List.append_assoc, List.singleton_append]
  rfl

end Stage

end Showtime.Handshakes
