import Showtime.Session
/-!
# The stage

`ZstStageHierarchy` and `ZstStageSession`: the message handlers, which run on
the transports' threads, and what the hierarchy's events do when the event loop
drains them. A handler that dereferences a null pointer, or a captured pointer
whose object is gone, ends in a `Fault`.
-/

namespace Showtime

open ZstHierarchy

/-- The stage overrides nothing when a child is added or an entity renamed, and
keeps `ZstHierarchy::deactivate_entity`. -/
def stageOverrides : Overrides where
  requestEntityActivation h _ := h
  deactivateEntity h e _ := h.deactivateEntityBase e
  publishEntityUpdate h _ _ := h

namespace ZstStageHierarchy

/-! ## Messaging -/

/-- `dynamic_cast<ZstPerformerStageProxy*>(find_entity(path))`. -/
def findStageProxy (h : ZstHierarchy) (path : ZstURI) : Option EntityId :=
  (h.findEntity path).filter fun e => (h.entities e).stageProxy.isSome

theorem findStageProxy_isSome {h : ZstHierarchy} {path : ZstURI} {e : EntityId}
    (hfind : findStageProxy h path = some e) : (h.entities e).stageProxy.isSome = true :=
  (Option.filter_eq_some_iff.mp hfind).2

/-- `get_performers`, which on the stage are the performers among the proxies. -/
def getPerformers (h : ZstHierarchy) : List EntityId :=
  h.proxies.filter fun e => (h.entities e).entityType = .performer

def getClientFromEndpointUUID (h : ZstHierarchy) (endpoint : Endpoint) : Option EntityId :=
  (getPerformers h).find? fun e =>
    (h.entities e).stageProxy.any fun proxy => proxy.originEndpointUUID = endpoint

def send (h : ZstHierarchy) (message : Outgoing) : ZstHierarchy :=
  { h with sent := h.sent ++ [message] }

/-- `whisper` to a performer that is there. -/
def whisperTo (h : ZstHierarchy) (performer : EntityId) (content : Content)
    (msgID : Option ZstMsgID) (onRecvResponse : Option ResponseAction) : ZstHierarchy :=
  match (h.entities performer).stageProxy with
  | some proxy => send h { target := proxy.originEndpointUUID, content, msgID, onRecvResponse }
  | none => h

/-- `broadcast` to every performer but the excluded one. -/
def broadcast (h : ZstHierarchy) (content : Content) (excluded : Option EntityId := none) :
    ZstHierarchy :=
  (getPerformers h).foldl (fun h e =>
    if some e = excluded then h else whisperTo h e content none none) h

/-- The message of a whisper, if the performer is a stage proxy. -/
def whisperMessages (h : ZstHierarchy) (performer : EntityId) (content : Content)
    (msgID : Option ZstMsgID) (onRecvResponse : Option ResponseAction) : List Outgoing :=
  ((h.entities performer).stageProxy.map fun proxy =>
    { target := proxy.originEndpointUUID, content, msgID, onRecvResponse : Outgoing }).toList

/-- The messages of a broadcast. -/
def broadcastMessages (h : ZstHierarchy) (content : Content)
    (excluded : Option EntityId := none) : List Outgoing :=
  (getPerformers h).flatMap fun e =>
    if some e = excluded then [] else whisperMessages h e content none none

theorem whisperTo_eq (h : ZstHierarchy) (performer : EntityId) (content : Content)
    (msgID : Option ZstMsgID) (onRecvResponse : Option ResponseAction) :
    whisperTo h performer content msgID onRecvResponse =
      { h with sent := h.sent ++ whisperMessages h performer content msgID onRecvResponse } := by
  unfold whisperTo whisperMessages
  cases (h.entities performer).stageProxy <;> simp [send]

/-- A broadcast does nothing but send. -/
theorem broadcast_eq (h : ZstHierarchy) (content : Content) (excluded : Option EntityId) :
    broadcast h content excluded =
      { h with sent := h.sent ++ broadcastMessages h content excluded } := by
  suffices hfold : ∀ (performers : List EntityId) (sent : List Outgoing),
      performers.foldl (fun h e =>
          if some e = excluded then h else whisperTo h e content none none) { h with sent } =
        { h with
          sent := sent ++ performers.flatMap fun e =>
            if some e = excluded then [] else whisperMessages h e content none none } by
    exact hfold (getPerformers h) h.sent
  intro performers
  induction performers with
  | nil => simp
  | cons e performers ih =>
    intro sent
    rw [List.foldl_cons, List.flatMap_cons]
    by_cases he : some e = excluded
    · rw [if_pos he, if_pos he, List.nil_append]
      exact ih sent
    · rw [if_neg he, if_neg he, whisperTo_eq, ← List.append_assoc]
      exact ih (sent ++ whisperMessages h e content none none)

/-- A performer that is a stage proxy gets the message at its endpoint. -/
theorem mem_whisperMessages {h : ZstHierarchy} {performer : EntityId} {content : Content}
    {msgID : Option ZstMsgID} {onRecvResponse : Option ResponseAction} {m : Outgoing} :
    m ∈ whisperMessages h performer content msgID onRecvResponse ↔
      ∃ proxy, (h.entities performer).stageProxy = some proxy ∧
        m = { target := proxy.originEndpointUUID, content, msgID, onRecvResponse } := by
  simp [whisperMessages, eq_comm]

theorem whisperMessages_content {h : ZstHierarchy} {performer : EntityId} {content : Content}
    {msgID : Option ZstMsgID} {onRecvResponse : Option ResponseAction} {m : Outgoing}
    (hm : m ∈ whisperMessages h performer content msgID onRecvResponse) :
    m.content = content := by
  obtain ⟨proxy, -, rfl⟩ := mem_whisperMessages.mp hm
  rfl

theorem whisperMessages_callback {h : ZstHierarchy} {performer : EntityId} {content : Content}
    {msgID : Option ZstMsgID} {onRecvResponse : Option ResponseAction} {m : Outgoing}
    (hm : m ∈ whisperMessages h performer content msgID onRecvResponse) :
    m.onRecvResponse = onRecvResponse := by
  obtain ⟨proxy, -, rfl⟩ := mem_whisperMessages.mp hm
  rfl

/-- A broadcast has a message for every joined client. -/
theorem mem_broadcastMessages {h : ZstHierarchy} {e : EntityId} {proxy : StageProxy}
    (content : Content) (he : e ∈ getPerformers h)
    (hproxy : (h.entities e).stageProxy = some proxy) :
    { target := proxy.originEndpointUUID, content } ∈ broadcastMessages h content := by
  unfold broadcastMessages
  rw [List.mem_flatMap]
  exact ⟨e, he, by simp [whisperMessages, hproxy]⟩

theorem broadcastMessages_content {h : ZstHierarchy} {content : Content}
    {excluded : Option EntityId} {m : Outgoing} (hm : m ∈ broadcastMessages h content excluded) :
    m.content = content := by
  unfold broadcastMessages at hm
  rw [List.mem_flatMap] at hm
  obtain ⟨e, -, hm⟩ := hm
  split at hm
  · simp at hm
  · exact whisperMessages_content hm

/-- Nobody is asked to answer a broadcast. -/
theorem broadcastMessages_callback {h : ZstHierarchy} {content : Content}
    {excluded : Option EntityId} {m : Outgoing} (hm : m ∈ broadcastMessages h content excluded) :
    m.onRecvResponse = none := by
  unfold broadcastMessages at hm
  rw [List.mem_flatMap] at hm
  obtain ⟨e, -, hm⟩ := hm
  split at hm
  · simp at hm
  · exact whisperMessages_callback hm

def replyWithSignal (h : ZstHierarchy) (performer : EntityId) (signal : Signal) (id : ZstMsgID) :
    ZstHierarchy :=
  whisperTo h performer (.signalMessage signal) (some id) none

/-- The end of both `on_receive_msg`: a response goes to the endpoint the
message came from. -/
def respond (h : ZstHierarchy) (msg : ZstStageMessage) (response : Signal) : ZstHierarchy :=
  if response = .empty then h
  else send h
    { target := msg.originEndpointUUID, content := .signalMessage response, msgID := some msg.id }

/-- The message of `respond`. -/
def responseMessages (msg : ZstStageMessage) (response : Signal) : List Outgoing :=
  if response = .empty then []
  else
    [{ target := msg.originEndpointUUID, content := .signalMessage response, msgID := some msg.id }]

theorem respond_eq (h : ZstHierarchy) (msg : ZstStageMessage) (response : Signal) :
    respond h msg response = { h with sent := h.sent ++ responseMessages msg response } := by
  unfold respond responseMessages
  split
  · simp
  · rfl

@[simp] theorem responseMessages_empty (msg : ZstStageMessage) :
    responseMessages msg .empty = [] := rfl

@[simp] theorem respond_empty (h : ZstHierarchy) (msg : ZstStageMessage) :
    respond h msg .empty = h := rfl

/-! ## Handlers of the hierarchy -/

def signalHandler (h : ZstHierarchy) (signal : Signal) (sender : Option EntityId) :
    ZstHierarchy × Signal :=
  match sender with
  | none => (h, .errStagePerformerNotFound)
  | some sender =>
    if signal = .clientHeartbeat then
      (h.modify sender fun x => { x with heartbeatActive := true, missedHeartbeats := 0 }, .ok)
    else (h, .empty)

def createClientHandler (h : ZstHierarchy) (msg : ZstStageMessage) (performer : EntityBuffer)
    (reliableAddress : String) : Except Fault (ZstHierarchy × Signal) := do
  if (h.findEntity performer.uri).isSome then
    return (h, .errStagePerformerAlreadyExists)
  let h ← addProxyEntity stageOverrides h
    (Entity.performerStageProxy performer reliableAddress msg.originEndpointUUID)
  return (h, .ok)

/-- The reason is logged with the sender's path before anything else. -/
def clientLeavingHandler (h : ZstHierarchy) (reason : ClientLeaveReason)
    (sender : Option EntityId) : Except Fault (ZstHierarchy × Signal) := do
  let sender ← h.deref sender
  let h := removeProxyEntity stageOverrides h sender
  let h := broadcast h (.clientLeaveRequest (h.entities sender).uri reason)
  return (h, .ok)

def createEntityHandler (h : ZstHierarchy) (buffer : EntityBuffer) (sender : Option EntityId) :
    Except Fault (ZstHierarchy × Signal) := do
  let buffer ← getEntityField buffer
  let sender ← h.deref sender
  let performerPath ← firstSegment (h.entities sender).uri
  let entityPerformerPath ← firstSegment buffer.uri
  if performerPath ≠ entityPerformerPath then
    return (h, .errEntityNotFound)
  let h ← match h.createProxyEntity buffer with
    | some entity => addProxyEntity stageOverrides h entity
    | none => .ok h
  if (h.findEntity buffer.uri).isNone then
    return (h, .errEntityNotFound)
  return (h, .ok)

/-- `dynamic_cast<ZstEntityFactory*>(find_entity(path))`. -/
def findFactory (h : ZstHierarchy) (path : ZstURI) : Option EntityId :=
  (h.findEntity path).filter fun e => (h.entities e).entityType = .factory

/-- The sender is captured by the callback of the forwarded request, without a check. -/
def factoryCreateEntityHandler (h : ZstHierarchy) (msg : ZstStageMessage) (creatable : ZstURI)
    (name : String) (sender : Option EntityId) : Except Fault (ZstHierarchy × Signal) := do
  let factoryPath := creatable.parent
  match findFactory h factoryPath with
  | none => return (h, .errEntityNotFound)
  | some _ =>
    match findStageProxy h (← firstSegment factoryPath) with
    | none => return (h, .errStagePerformerNotFound)
    | some factoryPerformer =>
      return (whisperTo h factoryPerformer (.factoryCreateEntityRequest creatable name) none
        (some (.factoryEntityCreated sender factoryPath msg.id)), .empty)

def updateEntityHandler (h : ZstHierarchy) (buffer : EntityBuffer) (originalPath : ZstURI)
    (sender : Option EntityId) : Except Fault (ZstHierarchy × Signal) := do
  let buffer ← getEntityField buffer
  match h.findEntity originalPath with
  | none => return (h, .ok)
  | some proxy =>
    let h := updateProxyEntity stageOverrides h proxy buffer
    let update := { (h.entities proxy).serialize with entityType := buffer.entityType }
    return (broadcast h (.entityUpdateRequest update originalPath) sender, .ok)

def destroyEntityHandler (h : ZstHierarchy) (path : ZstURI) (sender : Option EntityId) :
    ZstHierarchy × Signal :=
  match h.findEntity path with
  | none => (h, .errEntityNotFound)
  | some entity =>
    (broadcast (removeProxyEntity stageOverrides h entity) (.entityDestroyRequest path) sender, .ok)

/-- The switch of `ZstStageHierarchy::on_receive_msg`. -/
def dispatch (h : ZstHierarchy) (msg : ZstStageMessage) (sender : Option EntityId) :
    Except Fault (ZstHierarchy × Signal) :=
  match msg.content with
  | .signalMessage signal => .ok (signalHandler h signal sender)
  | .clientJoinRequest performer address => createClientHandler h msg performer address
  | .clientLeaveRequest _ reason => clientLeavingHandler h reason sender
  | .entityCreateRequest buffer => createEntityHandler h buffer sender
  | .factoryCreateEntityRequest creatable name =>
    factoryCreateEntityHandler h msg creatable name sender
  | .entityUpdateRequest buffer originalPath => updateEntityHandler h buffer originalPath sender
  | .entityDestroyRequest path => .ok (destroyEntityHandler h path sender)
  | _ => .ok (h, .empty)

/-- `ZstStageHierarchy::on_receive_msg`: a missing sender is only logged. -/
def onReceiveMsg (h : ZstHierarchy) (msg : ZstStageMessage) : Except Fault ZstHierarchy := do
  let (h, response) ← dispatch h msg (getClientFromEndpointUUID h msg.originEndpointUUID)
  return respond h msg response

/-- The callback of a forwarded factory request. After an error it still sends
the acknowledgement. -/
def factoryEntityCreated (h : ZstHierarchy) (sender : Option EntityId) (factoryPath : ZstURI)
    (id : ZstMsgID) (response : Option Content) : Except Fault ZstHierarchy := do
  let sender ← h.deref sender
  let h := if verifySignal response .ok then h
    else replyWithSignal h sender (getSignal response) id
  return whisperTo h sender (.factoryCreateEntityAck factoryPath) (some id) none

end ZstStageHierarchy
end Showtime
