import Showtime.Stage
/-!
# The stage's session

`ZstStageSession`: cables, peer handshakes and entity ownership, and the
events of the hierarchy that the session listens to.
-/

namespace Showtime

open ZstHierarchy ZstStageHierarchy

namespace ZstStageSession

/-- A step of the session that only concerns its hierarchy. -/
def onHierarchy (s : ZstSession) (f : ZstHierarchy → ZstHierarchy) : ZstSession :=
  { s with hierarchy := f s.hierarchy }

/-- Use of a captured cable pointer: `m_cables` owns every cable. -/
def derefCable (s : ZstSession) (c : CableId) : Except Fault CableId :=
  if c ∈ s.cables then .ok c else .error .freedPointer

/-! ## Cables -/

def destroyCable (s : ZstSession) (c : CableId) : ZstSession :=
  (onHierarchy s fun h => broadcast h (.cableDestroyRequest (s.cableObjects c).address)).destroyCableComplete c

def disconnectCables (s : ZstSession) (entity : Option EntityId) : ZstSession :=
  match entity with
  | none => s
  | some e => (s.getChildCables e).foldl destroyCable s

/-! ## Connecting clients -/

def completeClientConnection (s : ZstSession) (output input : EntityId) : ZstSession :=
  onHierarchy s fun h =>
    let h := h.modify output fun x => x.addSubscriber (h.entities input)
    whisperTo h output (.clientGraphHandshakeStop (h.entities input).uri) none none

def reliableAddress (x : Entity) : String :=
  (x.stageProxy.map StageProxy.reliableAddress).getD ""

/-- `connect_clients`. It returns without a word, and without running the
callback, when the clients are connected already. -/
def connectClients (s : ZstSession) (output input : EntityId) (action : ConnectAction) :
    ZstSession :=
  let outputClient := s.hierarchy.entities output
  let inputClient := s.hierarchy.entities input
  if outputClient.hasConnectedSubscriber inputClient then s
  else if outputClient.uri = inputClient.uri then s
  else onHierarchy s fun h =>
    whisperTo
      (whisperTo h input
        (.clientGraphHandshakeListen outputClient.uri (reliableAddress outputClient)) none
        (some (.clientsConnected output input action)))
      output (.clientGraphHandshakeStart inputClient.uri (reliableAddress inputClient)) none none

def subscribe (h : ZstHierarchy) (output input : EntityId) : ZstHierarchy :=
  h.modify output fun x => x.addSubscriber (h.entities input)

theorem completeClientConnection_eq (s : ZstSession) (output input : EntityId) :
    completeClientConnection s output input =
      onHierarchy s fun h =>
        let h := subscribe h output input
        { h with
          sent := h.sent ++ whisperMessages h output
            (.clientGraphHandshakeStop (h.entities input).uri) none none } := by
  simp only [completeClientConnection, onHierarchy, subscribe, whisperTo_eq]

/-- The second session is the first one after it sent some messages. -/
def OnlySends (allowed : Outgoing → Prop) (s t : ZstSession) : Prop :=
  ∃ messages, (∀ m ∈ messages, allowed m) ∧
    t = onHierarchy s fun h => { h with sent := h.sent ++ messages }

theorem OnlySends.refl (allowed : Outgoing → Prop) (s : ZstSession) : OnlySends allowed s s :=
  ⟨[], by simp, by simp [onHierarchy]⟩

theorem OnlySends.trans {allowed : Outgoing → Prop} {s t u : ZstSession}
    (hst : OnlySends allowed s t) (htu : OnlySends allowed t u) : OnlySends allowed s u := by
  obtain ⟨first, hfirst, rfl⟩ := hst
  obtain ⟨second, hsecond, rfl⟩ := htu
  refine ⟨first ++ second, ?_, by simp [onHierarchy]⟩
  intro m hm
  rcases List.mem_append.mp hm with hm | hm
  · exact hfirst m hm
  · exact hsecond m hm

theorem OnlySends.foldl {α : Type} {allowed : Outgoing → Prop} {f : ZstSession → α → ZstSession}
    (hf : ∀ s a, OnlySends allowed s (f s a)) (items : List α) (s : ZstSession) :
    OnlySends allowed s (items.foldl f s) := by
  induction items generalizing s with
  | nil => exact .refl allowed s
  | cons a items ih => exact (hf s a).trans (ih (f s a))

def IsHandshake (m : Outgoing) : Prop :=
  match m.content with
  | .clientGraphHandshakeListen _ _ | .clientGraphHandshakeStart _ _
  | .clientGraphHandshakeStop _ => True
  | _ => False

/-- The messages of `connect_clients`: none for clients that are connected already. -/
def handshakeMessages (h : ZstHierarchy) (output input : EntityId) (action : ConnectAction) :
    List Outgoing :=
  let outputClient := h.entities output
  let inputClient := h.entities input
  if outputClient.hasConnectedSubscriber inputClient then []
  else if outputClient.uri = inputClient.uri then []
  else
    whisperMessages h input
        (.clientGraphHandshakeListen outputClient.uri (reliableAddress outputClient)) none
        (some (.clientsConnected output input action)) ++
      whisperMessages h output
        (.clientGraphHandshakeStart inputClient.uri (reliableAddress inputClient)) none none

theorem connectClients_eq (s : ZstSession) (output input : EntityId) (action : ConnectAction) :
    connectClients s output input action =
      onHierarchy s fun h =>
        { h with sent := h.sent ++ handshakeMessages s.hierarchy output input action } := by
  unfold connectClients handshakeMessages
  simp only
  split_ifs
  · simp [onHierarchy]
  · simp [onHierarchy]
  · simp only [onHierarchy, whisperTo_eq, List.append_assoc]
    rfl

theorem foldl_connectClients_eq (s : ZstSession) (outputs : List EntityId) (input : EntityId)
    (action : ConnectAction) :
    outputs.foldl (fun s output => connectClients s output input action) s =
      onHierarchy s fun h =>
        { h with
          sent := h.sent ++
            outputs.flatMap fun output => handshakeMessages s.hierarchy output input action } := by
  suffices hfold : ∀ sent : List Outgoing,
      outputs.foldl (fun s output => connectClients s output input action)
          (onHierarchy s fun h => { h with sent }) =
        onHierarchy s fun h =>
          { h with
            sent := sent ++
              outputs.flatMap fun output => handshakeMessages s.hierarchy output input action } by
    exact hfold s.hierarchy.sent
  induction outputs with
  | nil => simp
  | cons output outputs ih =>
    intro sent
    rw [List.foldl_cons, List.flatMap_cons, connectClients_eq, ← List.append_assoc]
    exact ih (sent ++ handshakeMessages s.hierarchy output input action)

/-- Connecting two clients only starts a handshake between them. -/
theorem connectClients_sends (s : ZstSession) (output input : EntityId) (action : ConnectAction) :
    OnlySends IsHandshake s (connectClients s output input action) := by
  refine ⟨_, fun m hm => ?_, connectClients_eq s output input action⟩
  unfold handshakeMessages at hm
  simp only at hm
  split_ifs at hm
  · cases hm
  · cases hm
  · rcases List.mem_append.mp hm with hm | hm
    · simp [IsHandshake, whisperMessages_content hm]
    · simp [IsHandshake, whisperMessages_content hm]

/-- `connect_finished_cb` of a cable request. -/
def cableConnectFinished (s : ZstSession) (cable : CableId) (sender : EntityId) (id : ZstMsgID)
    (signal : Signal) : Except Fault ZstSession := do
  let s ← if signal = .ok then do
      let cable ← derefCable s cable
      pure (onHierarchy s fun h => broadcast h (.cableCreateRequest (s.cableObjects cable).address))
    else pure s
  let sender ← s.hierarchy.deref (some sender)
  return onHierarchy s fun h => replyWithSignal h sender signal id

/-- What finishing a cable request does. Everyone is told of the cable on an OK, and the
requester gets the signal either way. -/
theorem cableConnectFinished_succeeded {s t : ZstSession} {cable : CableId} {sender : EntityId}
    {id : ZstMsgID} {signal : Signal}
    (hrun : cableConnectFinished s cable sender id signal = .ok t) :
    ∃ told, (signal = .ok ∧ cable ∈ s.cables ∧
        told = broadcast s.hierarchy (.cableCreateRequest (s.cableObjects cable).address) ∨
        signal ≠ .ok ∧ told = s.hierarchy) ∧
      told.live sender = true ∧
      t = { s with hierarchy := replyWithSignal told sender signal id } := by
  have hreply : ∀ {u : ZstSession}, (do
      let sender ← u.hierarchy.deref (some sender)
      pure (onHierarchy u fun h => replyWithSignal h sender signal id)) = .ok t →
      u.hierarchy.live sender = true ∧
        t = { u with hierarchy := replyWithSignal u.hierarchy sender signal id } := by
    intro u hrun
    by_cases hlive : u.hierarchy.live sender = true
    · simp only [deref, hlive, if_true, bind, Except.bind] at hrun
      exact ⟨hlive, (Except.ok.inj hrun).symm⟩
    · simp [deref, hlive, bind, Except.bind] at hrun
  unfold cableConnectFinished at hrun
  dsimp only at hrun
  by_cases hok : signal = .ok
  · rw [if_pos hok] at hrun
    by_cases hcable : cable ∈ s.cables
    · rw [derefCable, if_pos hcable] at hrun
      exact ⟨_, .inl ⟨hok, hcable, rfl⟩, hreply hrun⟩
    · rw [derefCable, if_neg hcable] at hrun
      cases hrun
  · rw [if_neg hok] at hrun
    exact ⟨_, .inr ⟨hok, rfl⟩, hreply hrun⟩

def onConnected (s : ZstSession) (action : ConnectAction) (response : Option Content) :
    Except Fault ZstSession :=
  match action with
  | .none => .ok s
  | .cable cable sender id => cableConnectFinished s cable sender id (getSignal response)
  | .observe sender id => do
    let sender ← s.hierarchy.deref (some sender)
    return onHierarchy s fun h => replyWithSignal h sender (getSignal response) id

/-- The response to a handshake request. Only an OK reply goes on to the callback. -/
def clientsConnected (s : ZstSession) (output input : EntityId) (action : ConnectAction)
    (response : Option Content) : Except Fault ZstSession := do
  if verifySignal response .ok then
    let output ← s.hierarchy.deref (some output)
    let input ← s.hierarchy.deref (some input)
    onConnected (completeClientConnection s output input) action response
  else
    return s

theorem clientsConnected_succeeded {s t : ZstSession} {output input : EntityId}
    {action : ConnectAction} {response : Option Content} (hok : verifySignal response .ok = true)
    (hrun : clientsConnected s output input action response = .ok t) :
    s.hierarchy.live output = true ∧ s.hierarchy.live input = true ∧
      onConnected (completeClientConnection s output input) action response = .ok t := by
  unfold clientsConnected deref at hrun
  simp only [hok, if_true] at hrun
  by_cases hout : s.hierarchy.live output = true
  · by_cases hin : s.hierarchy.live input = true
    · simp only [hout, hin, if_true, bind, Except.bind] at hrun
      exact ⟨hout, hin, hrun⟩
    · simp [hout, hin, bind, Except.bind] at hrun
  · simp [hout, bind, Except.bind] at hrun

/-- The transport runs the `on_recv_response` callback of a message. -/
def onRecvResponse (s : ZstSession) (callback : ResponseAction) (response : Option Content) :
    Except Fault ZstSession :=
  match callback with
  | .factoryEntityCreated sender factoryPath id => do
    let h ← factoryEntityCreated s.hierarchy sender factoryPath id response
    return { s with hierarchy := h }
  | .clientsConnected output input action => clientsConnected s output input action response
  | _ => .ok s

/-! ## Handlers of the session -/

def synchroniseClientGraphHandler (s : ZstSession) (sender : EntityId) : ZstSession × Signal :=
  let h := s.hierarchy
  let performers := (getPerformers h).filter fun e => (h.entities e).uri ≠ (h.entities sender).uri
  let entities := performers.flatMap h.getChildEntities
  let h := entities.foldl (fun h e =>
    whisperTo h sender (.entityCreateRequest (h.entities e).serialize) none none) h
  let h := s.cables.foldl (fun h c =>
    whisperTo h sender (.cableCreateRequest (s.cableObjects c).address) none none) h
  ({ s with hierarchy := h }, .ok)

def signalHandler (s : ZstSession) (signal : Signal) (sender : EntityId) : ZstSession × Signal :=
  if signal = .clientSync then synchroniseClientGraphHandler s sender else (s, .empty)

def createCableHandler (s : ZstSession) (msg : ZstStageMessage) (cablePath : ZstCableAddress)
    (sender : EntityId) : Except Fault (ZstSession × Signal) := do
  if (s.findCable cablePath).isSome then
    return (s, .errStageBadCableConnectRequest)
  match s.findInputPlug cablePath.inputURI, s.findOutputPlug cablePath.outputURI with
  | some input, some output =>
    -- a full input plug gives up all its cables
    let plug := s.hierarchy.entities input
    let s := if plug.cables.length ≥ plug.maxConnectedCablesSize then
        (s.getChildCables input).foldl destroyCable s
      else s
    let (s, cable) := s.createCable input output
    let h := s.hierarchy
    let inputPerf := findStageProxy h (← firstSegment (h.entities input).uri)
    let outputPerf := findStageProxy h (← firstSegment (h.entities output).uri)
    let outputPerf ← h.deref outputPerf
    let inputPerf ← h.deref inputPerf
    if (h.entities outputPerf).uri = (h.entities inputPerf).uri then
      let s ← cableConnectFinished s cable sender msg.id .ok
      return (s, .empty)
    return (connectClients s outputPerf inputPerf (.cable cable sender msg.id), .empty)
  | _, _ => return (s, .errCablePlugsNotFound)

def destroyCableHandler (s : ZstSession) (cablePath : ZstCableAddress) : ZstSession × Signal :=
  match s.findCable cablePath with
  | some cable => (destroyCable s cable, .ok)
  | none => (s, .ok)

def observeEntityHandler (s : ZstSession) (msg : ZstStageMessage) (path : ZstURI)
    (sender : EntityId) : Except Fault (ZstSession × Signal) := do
  let h := s.hierarchy
  match findStageProxy h (← firstSegment path) with
  | none => return (s, .errStagePerformerNotFound)
  | some observed =>
    if sender = observed then
      return (s, .errStagePerformerAlreadyConnected)
    if (h.entities observed).hasConnectedSubscriber (h.entities sender) then
      return (s, .errStagePerformerAlreadyConnected)
    return (connectClients s observed sender (.observe sender msg.id), .empty)

/-- `set_owner` of an output plug on the stage, which has no local performer. -/
def setOwner (x : Entity) (owner : ZstURI) : Entity :=
  if x.isOutputPlug then { x with currentOwner := owner, canFire := false }
  else { x with currentOwner := owner }

/-- The performers that have an input connected to the plug, each of them once. -/
def receivers (s : ZstSession) (entity : EntityId) : Except Fault (List EntityId) :=
  s.cables.foldlM (fun receivers c => do
    let cable := s.cableObjects c
    let output ← s.hierarchy.deref (some cable.output)
    if (s.hierarchy.entities output).uri = (s.hierarchy.entities entity).uri then
      let input ← s.hierarchy.deref (some cable.input)
      let performer ← firstSegment (s.hierarchy.entities input).uri
      let receiver ← s.hierarchy.deref (findStageProxy s.hierarchy performer)
      return if receiver ∈ receivers then receivers else receivers ++ [receiver]
    return receivers) []

/-- `aquire_entity_ownership_handler`. An empty owner stands for the release of
the entity. -/
def aquireEntityOwnershipHandler (s : ZstSession) (path newOwner : ZstURI) :
    Except Fault (ZstSession × Signal) := do
  match s.hierarchy.findEntity path with
  | none => return (s, .errEntityNotFound)
  | some entity =>
    if newOwner = [] then
      let s := onHierarchy s fun h => h.modify entity fun x => setOwner x []
      let _ ← receivers s entity
      return (onHierarchy s fun h =>
        broadcast h (.entityTakeOwnershipRequest (h.entities entity).uri []), .ok)
    match findStageProxy s.hierarchy newOwner with
    | none => return (s, .errStagePerformerNotFound)
    | some owner =>
      let s := onHierarchy s fun h =>
        h.modify entity fun x => setOwner x (h.entities owner).uri
      let receivers ← receivers s entity
      let s := receivers.foldl (fun s receiver => connectClients s receiver owner .none) s
      return (onHierarchy s fun h =>
        broadcast h (.entityTakeOwnershipRequest (h.entities entity).uri newOwner), .ok)

/-- The switch of `ZstStageSession::on_receive_msg`. -/
def dispatch (s : ZstSession) (msg : ZstStageMessage) (sender : EntityId) :
    Except Fault (ZstSession × Signal) :=
  match msg.content with
  | .signalMessage signal => .ok (signalHandler s signal sender)
  | .cableCreateRequest cable => createCableHandler s msg cable sender
  | .cableDestroyRequest cable => .ok (destroyCableHandler s cable)
  | .entityObserveRequest path => observeEntityHandler s msg path sender
  | .entityTakeOwnershipRequest path newOwner => aquireEntityOwnershipHandler s path newOwner
  | _ => .ok (s, .empty)

/-- `ZstStageSession::on_receive_msg`: without a sender nothing happens. -/
def onReceiveMsg (s : ZstSession) (msg : ZstStageMessage) : Except Fault ZstSession := do
  match getClientFromEndpointUUID s.hierarchy msg.originEndpointUUID with
  | none => return s
  | some sender =>
    let (s, response) ← dispatch s msg sender
    return onHierarchy s fun h => respond h msg response

/-- A message of a client reaches both adaptors of the transport. -/
def receive (s : ZstSession) (msg : ZstStageMessage) : Except Fault ZstSession := do
  let s ← onReceiveMsg s msg
  let h ← ZstStageHierarchy.onReceiveMsg s.hierarchy msg
  return { s with hierarchy := h }

/-! ## Events of the hierarchy -/

/-- `ZstStageHierarchy::on_entity_arriving`: everyone but the entity's own
performer is told. The dispatcher catches the exception for an empty path. -/
def onEntityArriving (h : ZstHierarchy) (e : EntityId) : ZstHierarchy :=
  let x := h.entities e
  if x.uri = [] then h
  else broadcast h (.entityCreateRequest x.serialize) (findStageProxy h x.uri.first)

/-- What the hierarchy and the session do with an event of the hierarchy. The
session does not listen to arriving or leaving factories. -/
def processHierarchyEvent (s : ZstSession) : HierarchyEvent → Except Fault ZstSession
  | .entityArriving e | .performerArriving e => do
    let e ← s.hierarchy.deref (some e)
    return (onHierarchy s fun h => onEntityArriving h e).registerEntity e
  | .factoryArriving e => do
    let e ← s.hierarchy.deref (some e)
    return onHierarchy s fun h => onEntityArriving h e
  | .entityLeaving path | .performerLeaving path =>
    .ok (disconnectCables s (s.hierarchy.findEntity path))
  | .factoryLeaving _ | .entityUpdated _ => .ok s

def processHierarchyEvents (s : ZstSession) : Except Fault ZstSession :=
  s.hierarchy.hierarchyEvents.foldlM processHierarchyEvent
    (onHierarchy s fun h => { h with hierarchyEvents := [] })

/-- The drain of the hierarchy module's queue. On the stage nothing adds to the
queue while it is drained. -/
def processSynchronisableEvents (s : ZstSession) : ZstSession :=
  onHierarchy s fun h => processItems stageOverrides h.synchronisableEvents.length h

/-- The hierarchy's reaper, after which the dead ids are forgotten. -/
def reap (s : ZstSession) : ZstSession :=
  onHierarchy s fun h =>
    { reapAll stageOverrides h.cleanupOps.length h with deadIDs := [] }

/-- `ZstStageSession::process_events`. -/
def processEvents (s : ZstSession) : Except Fault ZstSession := do
  let s ← processHierarchyEvents s
  let s := reap (processSynchronisableEvents s)
  let s := s.processCableItems.reapCables
  let s ← processHierarchyEvents s
  return reap (processSynchronisableEvents s)

end ZstStageSession
end Showtime
