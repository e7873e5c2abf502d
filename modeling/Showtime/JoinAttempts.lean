import Showtime.Connection
import Showtime.Library.Run
/-!
# Attempts to join the stage

What `ZstClient` knows about its connection to the stage, for any answers to its
requests: `join_stage` and `leave_stage` of the application, the responses to the
join requests and to the heartbeats, and the status messages of the stage. The
entities that a join or a leave activates and deactivates are not part of this.
-/

namespace Showtime.JoinAttempts

structure ZstServerAddress where
  name : String := ""
  address : String := ""
  deriving DecidableEq, Repr

inductive ServerStatus
  | quit | other (code : Nat)
  deriving DecidableEq, Repr

/-- The state of `ZstZMQClientTransport`. -/
structure ClientTransport where
  isConnected : Bool := false
  serverAddr : String := ""
  deriving DecidableEq, Repr

/-- `connect`. Without a socket `zsock_connect` is not called, and nothing `connects`. -/
def ClientTransport.connect (transport : ClientTransport) (address : String) (connects : Bool) :
    ClientTransport where
  isConnected := transport.isConnected || connects
  serverAddr := "tcp://" ++ address

def ClientTransport.disconnect (transport : ClientTransport) : ClientTransport :=
  { transport with isConnected := false }

/-- The requests with a callback, and what it captures. -/
inductive Request
  | join (stageAddress : ZstServerAddress)
  | heartbeat
  deriving DecidableEq, Repr

def Request.isJoin : Request → Bool
  | .join _ => true
  | .heartbeat => false

/-- A request that waits for its response. -/
structure ResponsePromise where
  id : ZstMsgID
  request : Request
  deriving DecidableEq, Repr

/-- The members of `ZstClient` and of its transport that a connection is about. -/
structure ClientConnection where
  initCompleted : Bool
  isConnecting : Bool := false
  connectedToStage : Bool := false
  connectedServer : ZstServerAddress := {}
  transport : ClientTransport := {}
  responsePromises : List ResponsePromise := []
  /-- The id of the next message; the random ids of the source are told apart by number. -/
  nextID : ZstMsgID := 1
  deriving DecidableEq, Repr

namespace ClientConnection

/-- `send_msg` for a request with a callback. A transport that is not connected
drops the message, and nobody waits for the response to a published one. -/
def sendMsg (client : ClientConnection) (request : Request) (behaviour : SendBehaviour) :
    ClientConnection :=
  let id := client.nextID
  let client := { client with nextID := id + 1 }
  if !client.transport.isConnected then client
  else
    match behaviour with
    | .asyncReply | .syncReply =>
      { client with responsePromises := client.responsePromises ++ [{ id, request }] }
    | .publish => client

/-- `join_stage`, or the error that it logs. -/
def joinStage (client : ClientConnection) (stageAddress : ZstServerAddress)
    (sendtype : SendBehaviour) (connects : Bool) : Except String ClientConnection :=
  if !client.initCompleted then
    .error "Can't join the stage until the library has been initialised"
  else if client.isConnecting then
    .error "Can't connect to stage, already connecting"
  else if client.isConnecting || client.connectedToStage then
    .error "Can't connect to stage, already connected"
  else
    let client := { client with
      isConnecting := true
      transport := client.transport.connect stageAddress.address connects }
    .ok (client.sendMsg (.join stageAddress) sendtype)

def leaveStageComplete (client : ClientConnection) : ClientConnection :=
  if !client.connectedToStage then client
  else
    { client with
      connectedToStage := false
      isConnecting := false
      transport := client.transport.disconnect
      connectedServer := {} }

def leaveStage (client : ClientConnection) : ClientConnection :=
  let client := if client.connectedToStage then { client with isConnecting := false } else client
  client.leaveStageComplete

/-- `join_stage_complete`, which verifies the response once more. -/
def joinStageComplete (client : ClientConnection) (serverAddress : ZstServerAddress)
    (response : Option Content) : ClientConnection :=
  let client := { client with
    isConnecting := false
    connectedToStage := true
    connectedServer := serverAddress }
  if !verifySignal response .ok then client.leaveStageComplete else client

/-- The callback of a request; the response is `none` on a timeout. -/
def onRecvResponse (client : ClientConnection) (response : Option Content) :
    Request → ClientConnection
  | .join stageAddress =>
    if !verifySignal response .ok then client else client.joinStageComplete stageAddress response
  | .heartbeat => if !verifySignal response .ok then client.leaveStageComplete else client

def heartbeatTimer (client : ClientConnection) : ClientConnection :=
  if !client.connectedToStage then client else client.sendMsg .heartbeat .asyncReply

def serverStatusHandler (client : ClientConnection) (status : ServerStatus) : ClientConnection :=
  if status = .quit then client.leaveStageComplete else client

/-- The promise that a response to the id keeps. -/
def promised (client : ClientConnection) (id : ZstMsgID) : Option ResponsePromise :=
  client.responsePromises.find? fun promise => promise.id == id

/-- `blocking_send` from the response or the timeout on. A response that nobody
waits for is dropped. -/
def respond (client : ClientConnection) (id : ZstMsgID) (response : Option Content) :
    ClientConnection :=
  match client.promised id with
  | some promise =>
    { client with
      responsePromises := client.responsePromises.eraseP fun promise => promise.id == id
    }.onRecvResponse response promise.request
  | none => client

end ClientConnection

open ClientConnection

/-! ## Runs -/

inductive ConnectionEvent
  /-- The application joins, ... -/
  | joinStage (stageAddress : ZstServerAddress) (sendtype : SendBehaviour) (connects : Bool)
  /-- ... or leaves. -/
  | leaveStage
  /-- A response arrives, or the time for it is over. -/
  | respond (id : ZstMsgID) (response : Option Content)
  | heartbeatTimer
  /-- The stage sends its status. -/
  | serverStatus (status : ServerStatus)
  deriving DecidableEq, Repr

/-- A call of `join_stage` that is refused changes nothing. -/
def step (client : ClientConnection) : ConnectionEvent → Except Fault ClientConnection
  | .joinStage stageAddress sendtype connects =>
    .ok ((client.joinStage stageAddress sendtype connects).toOption.getD client)
  | .leaveStage => .ok client.leaveStage
  | .respond id response => .ok (client.respond id response)
  | .heartbeatTimer => .ok client.heartbeatTimer
  | .serverStatus status => .ok (client.serverStatusHandler status)

/-- After `init_client`. -/
def initialised : ClientConnection where
  initCompleted := true

/-- `join_stage` goes ahead. -/
def CanJoin (client : ClientConnection) : Prop :=
  client.initCompleted = true ∧ client.isConnecting = false ∧ client.connectedToStage = false

instance (client : ClientConnection) : Decidable (CanJoin client) :=
  inferInstanceAs (Decidable (_ ∧ _ ∧ _))

/-- The step ends no attempt to join without success: the request of an attempt
goes out and somebody waits for the response, and the response is OK. -/
def Succeeds (client : ClientConnection) : ConnectionEvent → Prop
  | .joinStage _ sendtype connects =>
    CanJoin client → sendtype ≠ .publish ∧ (client.transport.isConnected || connects) = true
  | .respond id response =>
    ∀ promise ∈ client.promised id, promise.request.isJoin = true →
      verifySignal response .ok = true
  | .leaveStage | .heartbeatTimer | .serverStatus _ => True

instance (client : ClientConnection) : ∀ event, Decidable (Succeeds client event)
  | .joinStage _ _ _ => inferInstanceAs (Decidable (_ → _))
  | .respond _ _ => inferInstanceAs (Decidable (∀ _ ∈ _, _))
  | .leaveStage | .heartbeatTimer | .serverStatus _ => inferInstanceAs (Decidable True)

/-- A join request of the client waits for its response. -/
def JoinPending (client : ClientConnection) : Prop :=
  ∃ promise ∈ client.responsePromises, promise.request.isJoin = true

/-- The flags say what is the case. -/
structure Truthful (client : ClientConnection) : Prop where
  waits : client.isConnecting = true → JoinPending client
  exclusive : ¬ (client.isConnecting = true ∧ client.connectedToStage = true)

/-- The flags are truthful at all times, and after an attempt that failed the next
call of `join_stage` is an attempt again. -/
structure JoinsAgain (events : List ConnectionEvent) : Prop where
  truthful : ∀ first last client, events = first ++ last →
    Library.run step initialised first = .ok client → Truthful client
  again : ∀ first failing between stageAddress sendtype connects last before after,
    events = first ++ failing :: between ++
      .joinStage stageAddress sendtype connects :: last →
    Library.run step initialised first = .ok before → ¬ Succeeds before failing →
    (∀ address behaviour result, .joinStage address behaviour result ∉ between) →
    Library.run step before (failing :: between) = .ok after →
    ∃ client, after.joinStage stageAddress sendtype connects = .ok client

section Steps

variable {client after : ClientConnection} {event : ConnectionEvent}

theorem sendMsg_eq (client : ClientConnection) (request : Request) (behaviour : SendBehaviour) :
    client.sendMsg request behaviour =
      { client with
        nextID := client.nextID + 1
        responsePromises :=
          if client.transport.isConnected = true ∧ behaviour ≠ .publish then
            client.responsePromises ++ [{ id := client.nextID, request }]
          else client.responsePromises } := by
  unfold sendMsg
  cases hconnected : client.transport.isConnected with
  | false => simp [hconnected]
  | true => cases behaviour <;> simp [hconnected]

theorem joinStage_ok {stageAddress : ZstServerAddress} {sendtype : SendBehaviour}
    {connects : Bool} :
    client.joinStage stageAddress sendtype connects = .ok after ↔
      CanJoin client ∧ after = { client with
        isConnecting := true
        transport := client.transport.connect stageAddress.address connects
      }.sendMsg (.join stageAddress) sendtype := by
  unfold joinStage CanJoin
  cases client.initCompleted <;> cases client.isConnecting <;> cases client.connectedToStage <;>
    simp [eq_comm]

/-- The flag that `leave_stage` sets early is set again right after. -/
theorem leaveStage_eq (client : ClientConnection) :
    client.leaveStage = client.leaveStageComplete := by
  unfold leaveStage leaveStageComplete
  cases hconnected : client.connectedToStage with
  | false => simp [hconnected]
  | true => simp

/-- After the callback has verified it, the response is not bad any more. -/
theorem onRecvResponse_join (client : ClientConnection) (response : Option Content)
    (stageAddress : ZstServerAddress) :
    client.onRecvResponse response (.join stageAddress) =
      if verifySignal response .ok = true then
        { client with
          isConnecting := false
          connectedToStage := true
          connectedServer := stageAddress }
      else client := by
  unfold onRecvResponse joinStageComplete
  cases hok : verifySignal response .ok <;> simp

/-- The join requests that wait for their responses. -/
def pendingJoins (client : ClientConnection) : List ResponsePromise :=
  client.responsePromises.filter fun promise => promise.request.isJoin

theorem waits_iff : JoinPending client ↔ pendingJoins client ≠ [] := by
  simp [JoinPending, pendingJoins, List.filter_eq_nil_iff]

/-- What a step does to the flags and to the join requests. -/
inductive JoinMoves (client after : ClientConnection) : ConnectionEvent → Prop
  /-- The flags stay, or the connection is over. -/
  | calm {event : ConnectionEvent} (succeeds : Succeeds client event)
      (pending : pendingJoins after = pendingJoins client)
      (flags : after.isConnecting = client.isConnecting ∧
          after.connectedToStage = client.connectedToStage ∨
        client.connectedToStage = true ∧ after.isConnecting = false ∧
          after.connectedToStage = false) :
      JoinMoves client after event
  | attempts {stageAddress : ZstServerAddress} {sendtype : SendBehaviour} {connects : Bool}
      (isOpen : CanJoin client) (connecting : after.isConnecting = true)
      (connected : after.connectedToStage = false)
      (sent : Succeeds client (.joinStage stageAddress sendtype connects) →
        pendingJoins after = pendingJoins client ++
          [{ id := client.nextID, request := .join stageAddress }])
      (dropped : ¬ Succeeds client (.joinStage stageAddress sendtype connects) →
        pendingJoins after = pendingJoins client) :
      JoinMoves client after (.joinStage stageAddress sendtype connects)
  | answered {id : ZstMsgID} {response : Option Content} {promise : ResponsePromise}
      {first last : List ResponsePromise} (promised : client.promised id = some promise)
      (before : pendingJoins client = first ++ promise :: last)
      (pending : pendingJoins after = first ++ last)
      (succeeds : Succeeds client (.respond id response) →
        after.isConnecting = false ∧ after.connectedToStage = true)
      (fails : ¬ Succeeds client (.respond id response) →
        after.isConnecting = client.isConnecting ∧
          after.connectedToStage = client.connectedToStage) :
      JoinMoves client after (.respond id response)

theorem leaveStageComplete_moves (client : ClientConnection) :
    pendingJoins client.leaveStageComplete = pendingJoins client ∧
      (client.leaveStageComplete.isConnecting = client.isConnecting ∧
          client.leaveStageComplete.connectedToStage = client.connectedToStage ∨
        client.connectedToStage = true ∧ client.leaveStageComplete.isConnecting = false ∧
          client.leaveStageComplete.connectedToStage = false) := by
  unfold leaveStageComplete
  cases hconnected : client.connectedToStage with
  | false => simp [hconnected]
  | true => simp [pendingJoins]

theorem joinStage_moves {stageAddress : ZstServerAddress} {sendtype : SendBehaviour}
    {connects : Bool}
    (hstep : step client (.joinStage stageAddress sendtype connects) = .ok after) :
    JoinMoves client after (.joinStage stageAddress sendtype connects) := by
  obtain rfl := Except.ok.inj hstep
  cases hjoin : client.joinStage stageAddress sendtype connects with
  | error refusal =>
    have hclosed : ¬ CanJoin client := fun hopen => by
      rw [joinStage_ok.mpr ⟨hopen, rfl⟩] at hjoin
      cases hjoin
    exact .calm (fun hopen => absurd hopen hclosed) rfl (Or.inl ⟨rfl, rfl⟩)
  | ok joined =>
    obtain ⟨hopen, rfl⟩ := joinStage_ok.mp hjoin
    have hsends : Succeeds client (.joinStage stageAddress sendtype connects) ↔
        (client.transport.connect stageAddress.address connects).isConnected = true ∧
          sendtype ≠ .publish :=
      ⟨fun h => (h hopen).symm, fun h _ => h.symm⟩
    refine .attempts hopen ?_ ?_ (fun hsucceeds => ?_) fun hfails => ?_
    · simp [Except.toOption, sendMsg_eq]
    · simp [Except.toOption, sendMsg_eq, hopen.2.2]
    · simp [Except.toOption, sendMsg_eq, pendingJoins, hsends.mp hsucceeds, Request.isJoin]
    · simp [Except.toOption, sendMsg_eq, pendingJoins, mt hsends.mpr hfails]

theorem respond_moves (client : ClientConnection) (id : ZstMsgID) (response : Option Content) :
    JoinMoves client (client.respond id response) (.respond id response) := by
  unfold respond
  cases hpromised : client.promised id with
  | none =>
    refine .calm (fun promise hpromise => ?_) rfl (Or.inl ⟨rfl, rfl⟩)
    rw [hpromised] at hpromise
    cases hpromise
  | some promise =>
    obtain ⟨hid, first, last, hpromises, hfirst⟩ := List.find?_eq_some_iff_append.mp hpromised
    have herased : client.responsePromises.eraseP (fun promise => promise.id == id) =
        first ++ last := by
      rw [hpromises, List.eraseP_append_right _ (by simpa using hfirst),
        List.eraseP_cons_of_pos (by exact hid)]
    simp only [herased]
    cases hrequest : promise.request with
    | heartbeat =>
      have hpending : pendingJoins { client with responsePromises := first ++ last } =
          pendingJoins client := by
        simp [pendingJoins, hpromises, hrequest, Request.isJoin]
      have hsucceeds : Succeeds client (.respond id response) := fun other hother hjoin => by
        obtain rfl : promise = other := Option.some.inj (hpromised.symm.trans hother)
        rw [hrequest] at hjoin
        cases hjoin
      simp only [onRecvResponse]
      split
      · obtain ⟨hcomplete, hflags⟩ :=
          leaveStageComplete_moves { client with responsePromises := first ++ last }
        exact .calm hsucceeds (hcomplete.trans hpending) hflags
      · exact .calm hsucceeds hpending (Or.inl ⟨rfl, rfl⟩)
    | join stageAddress =>
      have hverified : Succeeds client (.respond id response) ↔
          verifySignal response .ok = true := by
        simp [Succeeds, hpromised, hrequest, Request.isJoin]
      have hbefore : pendingJoins client =
          (first.filter fun promise => promise.request.isJoin) ++ promise ::
            last.filter fun promise => promise.request.isJoin := by
        simp [pendingJoins, hpromises, hrequest, Request.isJoin]
      rw [onRecvResponse_join]
      refine .answered hpromised hbefore ?_ (fun h => ?_) fun h => ?_
      · split <;> simp [pendingJoins]
      · simp [hverified.mp h]
      · simp [mt hverified.mpr h]

theorem step_moves (hstep : step client event = .ok after) : JoinMoves client after event := by
  cases event with
  | joinStage stageAddress sendtype connects => exact joinStage_moves hstep
  | leaveStage =>
    obtain rfl := Except.ok.inj hstep
    rw [leaveStage_eq]
    obtain ⟨hpending, hflags⟩ := leaveStageComplete_moves client
    exact .calm trivial hpending hflags
  | respond id response =>
    obtain rfl := Except.ok.inj hstep
    exact respond_moves client id response
  | heartbeatTimer =>
    obtain rfl := Except.ok.inj hstep
    refine .calm trivial ?_ (Or.inl ?_)
    · unfold heartbeatTimer
      split
      · rfl
      · simp only [sendMsg_eq, pendingJoins]
        split
        · simp [Request.isJoin]
        · rfl
    · unfold heartbeatTimer
      split
      · exact ⟨rfl, rfl⟩
      · simp [sendMsg_eq]
  | serverStatus status =>
    obtain rfl := Except.ok.inj hstep
    unfold serverStatusHandler
    split
    · obtain ⟨hpending, hflags⟩ := leaveStageComplete_moves client
      exact .calm trivial hpending hflags
    · exact .calm trivial rfl (Or.inl ⟨rfl, rfl⟩)

/-! ## The flags along a run -/

/-- In every run, whatever fails: at most one join request waits, the client is
connecting while it does, and it is never connecting and connected at once. -/
structure OneJoinAtATime (client : ClientConnection) : Prop where
  single : (pendingJoins client).length ≤ 1
  connecting : pendingJoins client ≠ [] → client.isConnecting = true
  exclusive : ¬ (client.isConnecting = true ∧ client.connectedToStage = true)

theorem orderly_initialised : OneJoinAtATime initialised :=
  ⟨by decide, by decide, by decide⟩

/-- Nobody waits while the client is not connecting. -/
theorem OneJoinAtATime.pending_nil (orderly : OneJoinAtATime client)
    (hidle : client.isConnecting = false) :
    pendingJoins client = [] := by
  by_contra hpending
  rw [orderly.connecting hpending] at hidle
  cases hidle

/-- The answered request was the only one. -/
theorem OneJoinAtATime.answered {first last : List ResponsePromise} {promise : ResponsePromise}
    (orderly : OneJoinAtATime client) (hbefore : pendingJoins client = first ++ promise :: last) :
    first ++ last = [] := by
  have hsingle := orderly.single
  rw [hbefore, List.length_append, List.length_cons] at hsingle
  rw [← List.length_eq_zero_iff, List.length_append]
  omega

theorem OneJoinAtATime.step (orderly : OneJoinAtATime client)
    (hstep : JoinAttempts.step client event = .ok after) : OneJoinAtATime after := by
  cases step_moves hstep with
  | calm succeeds pending flags =>
    rcases flags with ⟨hconnecting, hconnected⟩ | ⟨hwas, hconnecting, hconnected⟩
    · refine ⟨?_, fun h => ?_, ?_⟩
      · rw [pending]
        exact orderly.single
      · rw [hconnecting]
        exact orderly.connecting (pending ▸ h)
      · rw [hconnecting, hconnected]
        exact orderly.exclusive
    · have hidle : client.isConnecting = false := by
        by_contra h
        exact orderly.exclusive ⟨by simpa using h, hwas⟩
      have hnone : pendingJoins after = [] := pending.trans (orderly.pending_nil hidle)
      refine ⟨?_, fun h => absurd hnone h, ?_⟩
      · simp [hnone]
      · simp [hconnected]
  | @attempts stageAddress sendtype connects isOpen connecting connected sent dropped =>
    have hnone : pendingJoins client = [] := orderly.pending_nil isOpen.2.1
    refine ⟨?_, fun _ => connecting, ?_⟩
    · by_cases hsucceeds : Succeeds client (.joinStage stageAddress sendtype connects)
      · rw [sent hsucceeds, hnone]
        simp
      · rw [dropped hsucceeds, hnone]
        simp
    · simp [connected]
  | @answered id response promise first last promised before pending succeeds fails =>
    have hnone : pendingJoins after = [] := pending.trans (orderly.answered before)
    refine ⟨?_, fun h => absurd hnone h, ?_⟩
    · simp [hnone]
    · by_cases hsucceeds : Succeeds client (.respond id response)
      · simp [(succeeds hsucceeds).1]
      · rw [(fails hsucceeds).1, (fails hsucceeds).2]
        exact orderly.exclusive

theorem orderly_run {events : List ConnectionEvent}
    (hrun : Library.run step initialised events = .ok client) : OneJoinAtATime client :=
  Library.run_history (fun _ client => OneJoinAtATime client) (fun _ _ _ _ h hstep => h.step hstep)
    orderly_initialised hrun

/-- The client is connecting, and nothing it waits for can change that. -/
structure Stuck (client : ClientConnection) : Prop where
  connecting : client.isConnecting = true
  connected : client.connectedToStage = false
  pending : pendingJoins client = []

/-- An attempt that fails leaves the client stuck, ... -/
theorem OneJoinAtATime.stuck (orderly : OneJoinAtATime client) (hfails : ¬ Succeeds client event)
    (hstep : JoinAttempts.step client event = .ok after) : Stuck after := by
  cases step_moves hstep with
  | calm succeeds pending flags => exact absurd succeeds hfails
  | attempts isOpen connecting connected sent dropped =>
    exact ⟨connecting, connected, (dropped hfails).trans (orderly.pending_nil isOpen.2.1)⟩
  | answered promised before pending succeeds fails =>
    have hconnecting : client.isConnecting = true := orderly.connecting (by simp [before])
    obtain ⟨hsame, hconnected⟩ := fails hfails
    refine ⟨hsame.trans hconnecting, ?_, pending.trans (orderly.answered before)⟩
    rw [hconnected]
    by_contra h
    exact orderly.exclusive ⟨hconnecting, by simpa using h⟩

/-- ... and it stays so. -/
theorem Stuck.step (stuck : Stuck client) (hstep : JoinAttempts.step client event = .ok after) :
    Stuck after := by
  cases step_moves hstep with
  | calm succeeds pending flags =>
    rcases flags with ⟨hconnecting, hconnected⟩ | ⟨hwas, -, -⟩
    · exact ⟨hconnecting.trans stuck.connecting, hconnected.trans stuck.connected,
        pending.trans stuck.pending⟩
    · rw [stuck.connected] at hwas
      cases hwas
  | attempts isOpen connecting connected sent dropped =>
    have hidle := isOpen.2.1
    rw [stuck.connecting] at hidle
    cases hidle
  | answered promised before pending succeeds fails =>
    rw [stuck.pending] at before
    simp at before

/-- No call of `join_stage` is an attempt again. -/
theorem Stuck.refused (stuck : Stuck client) (stageAddress : ZstServerAddress)
    (sendtype : SendBehaviour) (connects : Bool) :
    ∃ refusal, client.joinStage stageAddress sendtype connects = .error refusal := by
  cases hjoin : client.joinStage stageAddress sendtype connects with
  | error refusal => exact ⟨refusal, rfl⟩
  | ok joined =>
    have hidle := (joinStage_ok.mp hjoin).1.2.1
    rw [stuck.connecting] at hidle
    cases hidle

/-- After one attempt that failed, the application never joins the stage again. -/
theorem refused_of_failed {first later : List ConnectionEvent} {before : ClientConnection}
    (hfirst : Library.run step initialised first = .ok before) (hfails : ¬ Succeeds before event)
    (hrun : Library.run step before (event :: later) = .ok client)
    (stageAddress : ZstServerAddress) (sendtype : SendBehaviour) (connects : Bool) :
    ∃ refusal, client.joinStage stageAddress sendtype connects = .error refusal := by
  obtain ⟨failed, hstep, hlater⟩ := Library.run_cons_ok.mp hrun
  have hfailed : Stuck failed := (orderly_run hfirst).stuck hfails hstep
  have hstuck : Stuck client :=
    Library.run_history (fun _ client => Stuck client) (fun _ _ _ _ h hnext => h.step hnext)
      hfailed hlater
  exact hstuck.refused stageAddress sendtype connects

theorem Stuck.not_truthful (stuck : Stuck client) : ¬ Truthful client := fun truthful =>
  waits_iff.mp (truthful.waits stuck.connecting) stuck.pending

/-- The flags stay truthful as long as no attempt fails. -/
theorem OneJoinAtATime.truthful_step (orderly : OneJoinAtATime client) (truthful : Truthful client)
    (hsucceeds : Succeeds client event) (hstep : JoinAttempts.step client event = .ok after) :
    Truthful after := by
  refine ⟨fun hconnecting => waits_iff.mpr ?_, (orderly.step hstep).exclusive⟩
  cases step_moves hstep with
  | calm succeeds pending flags =>
    rcases flags with ⟨hsame, -⟩ | ⟨-, hidle, -⟩
    · rw [pending]
      exact waits_iff.mp (truthful.waits (hsame ▸ hconnecting))
    · rw [hidle] at hconnecting
      cases hconnecting
  | attempts isOpen connecting connected sent dropped => simp [sent hsucceeds]
  | answered promised before pending succeeds fails =>
    rw [(succeeds hsucceeds).1] at hconnecting
    cases hconnecting

end Steps

theorem step_total (client : ClientConnection) (event : ConnectionEvent) :
    ∃ after, step client event = .ok after := by
  cases event <;> exact ⟨_, rfl⟩

/-- The client is truthful about joining, and joins again after a failure, exactly
as long as no attempt to join fails. -/
theorem joinsAgain_iff_succeeds (events : List ConnectionEvent) :
    JoinsAgain events ↔ Library.Along step Succeeds initialised events := by
  constructor
  · intro hjoins
    refine Library.along_of_forall fun first event last before hsplit hfirst => ?_
    by_contra hfails
    obtain ⟨after, hstep⟩ := step_total before event
    have hrun : Library.run step initialised (first ++ [event]) = .ok after :=
      Library.run_concat_ok.mpr ⟨before, hfirst, hstep⟩
    exact ((orderly_run hfirst).stuck hfails hstep).not_truthful
      (hjoins.truthful _ last after (by simpa using hsplit) hrun)
  · intro hsucceeds
    refine ⟨?_, ?_⟩
    · rintro first last client rfl hfirst
      have hstart : OneJoinAtATime initialised ∧ Truthful initialised :=
        ⟨orderly_initialised, ⟨nofun, by decide⟩⟩
      have hkept (before : ClientConnection) (event : ConnectionEvent) (after : ClientConnection)
          (h : OneJoinAtATime before ∧ Truthful before) (hevent : Succeeds before event)
          (hstep : step before event = .ok after) : OneJoinAtATime after ∧ Truthful after :=
        ⟨h.1.step hstep, h.1.truthful_step h.2 hevent hstep⟩
      exact (Library.run_invariant hkept hstart (Library.along_append.mp hsucceeds).1 hfirst).2
    · rintro first failing between stageAddress sendtype connects last before after rfl hfirst
        hfails
      rw [List.append_assoc, List.cons_append] at hsucceeds
      exact absurd (Library.along_append_cons hsucceeds hfirst) hfails

/-- The stage does not answer in time, and the application tries once more. -/
def timedOut : List ConnectionEvent :=
  [.joinStage {} .syncReply true, .respond 1 none, .joinStage {} .syncReply true]

theorem timedOut_not_joinsAgain : ¬ JoinsAgain timedOut := by
  intro hjoins
  obtain ⟨client, hclient⟩ := hjoins.again [.joinStage {} .syncReply true] (.respond 1 none) []
    {} .syncReply true [] _ _ rfl rfl (by decide) (by simp) rfl
  cases hclient

/-! ## A stage that always agrees -/

/-- The promises have ids that were drawn. -/
def Issued (connection : ClientConnection) : Prop :=
  ∀ promise ∈ connection.responsePromises, promise.id < connection.nextID

/-- The flags of a client with its entities. -/
structure SameFlags (client : ZstClient) (connection : ClientConnection) : Prop where
  connecting : client.isConnecting = connection.isConnecting
  connected : client.connectedToStage = connection.connectedToStage

section Agreeing

variable {client : ZstClient} {connection after : ClientConnection}

theorem Issued.sendMsg (issued : Issued connection) (request : Request)
    (behaviour : SendBehaviour) : Issued (connection.sendMsg request behaviour) := by
  rw [sendMsg_eq]
  intro promise hpromise
  simp only at hpromise ⊢
  split at hpromise
  · rcases List.mem_append.mp hpromise with hold | hnew
    · exact Nat.lt_succ_of_lt (issued promise hold)
    · obtain rfl := List.mem_singleton.mp hnew
      exact Nat.lt_succ_self _
  · exact Nat.lt_succ_of_lt (issued promise hpromise)

theorem Issued.leaveStageComplete (issued : Issued connection) :
    Issued connection.leaveStageComplete := by
  unfold ClientConnection.leaveStageComplete
  split
  · exact issued
  · exact issued

theorem Issued.respond (issued : Issued connection) (id : ZstMsgID) (response : Option Content) :
    Issued (connection.respond id response) := by
  unfold ClientConnection.respond
  cases connection.promised id with
  | none => exact issued
  | some promise =>
    have hrest : Issued { connection with
        responsePromises := connection.responsePromises.eraseP fun promise => promise.id == id } :=
      fun other hother => issued other (List.mem_of_mem_eraseP hother)
    simp only
    cases promise.request with
    | join stageAddress =>
      rw [onRecvResponse_join]
      split
      · exact hrest
      · exact hrest
    | heartbeat =>
      simp only [onRecvResponse]
      split
      · exact hrest.leaveStageComplete
      · exact hrest

theorem Issued.step {event : ConnectionEvent} (issued : Issued connection)
    (hstep : JoinAttempts.step connection event = .ok after) : Issued after := by
  cases event with
  | joinStage stageAddress sendtype connects =>
    obtain rfl := Except.ok.inj hstep
    cases hjoin : connection.joinStage stageAddress sendtype connects with
    | error refusal => exact issued
    | ok joined =>
      obtain ⟨-, rfl⟩ := joinStage_ok.mp hjoin
      have hconnecting : Issued { connection with
          isConnecting := true
          transport := connection.transport.connect stageAddress.address connects } := issued
      exact hconnecting.sendMsg _ _
  | leaveStage =>
    obtain rfl := Except.ok.inj hstep
    rw [leaveStage_eq]
    exact issued.leaveStageComplete
  | respond id response =>
    obtain rfl := Except.ok.inj hstep
    exact issued.respond id response
  | heartbeatTimer =>
    obtain rfl := Except.ok.inj hstep
    unfold heartbeatTimer
    split
    · exact issued
    · exact issued.sendMsg _ _
  | serverStatus status =>
    obtain rfl := Except.ok.inj hstep
    unfold serverStatusHandler
    split
    · exact issued.leaveStageComplete
    · exact issued

/-- The response to the next request is for that request alone. -/
theorem Issued.promised_next (issued : Issued connection) :
    connection.promised connection.nextID = none := by
  refine List.find?_eq_none.mpr fun promise hpromise hid => ?_
  have hdrawn := issued promise hpromise
  rw [beq_iff_eq] at hid
  exact absurd hid (Nat.ne_of_lt hdrawn)

variable (fuel : Nat) (root : EntityId)

theorem joinStage_flags (client : ZstClient) {behaviour : SendBehaviour}
    (hbehaviour : behaviour ≠ .publish) :
    (client.isConnecting = true ∨ client.connectedToStage = true →
        client.joinStage fuel root behaviour = client) ∧
      (client.isConnecting = false ∧ client.connectedToStage = false →
        (client.joinStage fuel root behaviour).isConnecting = false ∧
          (client.joinStage fuel root behaviour).connectedToStage = true) := by
  refine ⟨fun hrefused => ?_, fun ⟨hidle, hleft⟩ => ?_⟩
  · simp [ZstClient.joinStage, hrefused]
  · cases behaviour with
    | publish => exact absurd rfl hbehaviour
    | asyncReply | syncReply =>
      simp [ZstClient.joinStage, hidle, hleft, ZstClient.joinStageComplete,
        ZstClient.processEvents, ZstClient.onHierarchy]

theorem leaveStage_flags (client : ZstClient) :
    (client.connectedToStage = false →
        (client.leaveStage fuel root).isConnecting = client.isConnecting) ∧
      (client.connectedToStage = true → (client.leaveStage fuel root).isConnecting = false) ∧
      (client.leaveStage fuel root).connectedToStage = false := by
  cases hconnected : client.connectedToStage <;>
    simp [ZstClient.leaveStage, ZstClient.leaveStageComplete, hconnected,
      ZstClient.processEvents, ZstClient.onHierarchy]

/-- A join with its OK does to the flags what the call and the response do. -/
theorem SameFlags.joinStage (hflags : SameFlags client connection) (issued : Issued connection)
    (hinit : connection.initCompleted = true) (stageAddress : ZstServerAddress)
    {behaviour : SendBehaviour} (hbehaviour : behaviour ≠ .publish) :
    ∃ after, Library.run step connection
        [.joinStage stageAddress behaviour true,
          .respond connection.nextID (some (.signalMessage .ok))] = .ok after ∧
      SameFlags (client.joinStage fuel root behaviour) after := by
  refine ⟨_, rfl, ?_⟩
  obtain ⟨hrefuses, hjoins⟩ := joinStage_flags fuel root client hbehaviour
  rw [hflags.connecting, hflags.connected] at hrefuses hjoins
  have hnone : connection.responsePromises.find? (fun promise => promise.id == connection.nextID) =
      none := issued.promised_next
  by_cases hopen : CanJoin connection
  · have hjoin : connection.joinStage stageAddress behaviour true = .ok _ :=
      joinStage_ok.mpr ⟨hopen, rfl⟩
    obtain ⟨hconnecting, hconnected⟩ := hjoins hopen.2
    refine ⟨hconnecting.trans ?_, hconnected.trans ?_⟩
    all_goals
      simp [hjoin, Except.toOption, sendMsg_eq, respond, promised, ClientTransport.connect,
        hbehaviour, hnone, onRecvResponse_join]
  · have hclosed : connection.isConnecting = true ∨ connection.connectedToStage = true := by
      by_contra h
      simp only [not_or, Bool.not_eq_true] at h
      exact hopen ⟨hinit, h⟩
    have hjoin : (connection.joinStage stageAddress behaviour true).toOption = none := by
      cases hjoin : connection.joinStage stageAddress behaviour true with
      | error refusal => rfl
      | ok joined => exact absurd (joinStage_ok.mp hjoin).1 hopen
    rw [hrefuses hclosed]
    simpa [hjoin, respond, promised, hnone] using hflags

theorem SameFlags.leaveStage (hflags : SameFlags client connection) :
    SameFlags (client.leaveStage fuel root) connection.leaveStage := by
  obtain ⟨hleft, hleaves, hconnected⟩ := leaveStage_flags fuel root client
  rw [hflags.connecting, hflags.connected] at hleft
  rw [hflags.connected] at hleaves
  rw [leaveStage_eq]
  cases hwas : connection.connectedToStage with
  | false =>
    have hsame : connection.leaveStageComplete = connection := by
      simp [ClientConnection.leaveStageComplete, hwas]
    rw [hsame]
    exact ⟨hleft hwas, hconnected.trans hwas.symm⟩
  | true =>
    refine ⟨(hleaves hwas).trans ?_, hconnected.trans ?_⟩
    all_goals simp [ClientConnection.leaveStageComplete, hwas]

end Agreeing

end Showtime.JoinAttempts
