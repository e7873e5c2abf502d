import Mathlib.Data.List.Chain
import Showtime.JoinAttempts
/-!
# What the adaptors hear of a connection

`join_stage_complete` and `leave_stage_complete` defer a notice each. The first
one keeps its server; the other one reads the connected server when it runs, and
`leave_stage_complete` clears that server right after it has deferred the notice.
-/

namespace Showtime.ServerNotices

open Library JoinAttempts ClientConnection

/-- A call of the connection adaptors that was deferred. -/
inductive Deferred
  | onConnectedToServer (server : ZstServerAddress)
  | onDisconnectedFromServer
  deriving DecidableEq, Repr

/-- A call of the connection adaptors, as they see it. -/
inductive Notice
  | onConnectedToServer (server : ZstServerAddress)
  | onDisconnectedFromServer (server : ZstServerAddress)
  deriving DecidableEq, Repr

def Deferred.connects : Deferred → Bool
  | .onConnectedToServer _ => true
  | .onDisconnectedFromServer => false

def Notice.connects : Notice → Bool
  | .onConnectedToServer _ => true
  | .onDisconnectedFromServer _ => false

/-- A deferred call that runs while the client is connected to the server. -/
def notice (connectedServer : ZstServerAddress) : Deferred → Notice
  | .onConnectedToServer server => .onConnectedToServer server
  | .onDisconnectedFromServer => .onDisconnectedFromServer connectedServer

structure Client where
  connection : ClientConnection := initialised
  /-- The calls of `leave_stage_complete` that have not come to their last line,
  which clears the connected server. -/
  clearings : Nat := 0
  events : List Deferred := []
  notices : List Notice := []
  deriving DecidableEq, Repr

/-- What happens to the connection, and when the other threads clear the server and
process the events. -/
inductive NoticeStep
  | connection (event : ConnectionEvent)
  | clearServer
  | processEvents
  deriving DecidableEq, Repr

namespace Client

/-- `leave_stage_complete` but for its last line. -/
def leaveStageComplete (x : Client) : Client :=
  if !x.connection.connectedToStage then x
  else
    { x with
      connection := { x.connection with
        connectedToStage := false
        isConnecting := false
        transport := x.connection.transport.disconnect }
      clearings := x.clearings + 1
      events := x.events ++ [.onDisconnectedFromServer] }

/-- The last line of `leave_stage_complete`. -/
def clearServer (x : Client) : Client :=
  if x.clearings = 0 then x
  else
    { x with
      connection := { x.connection with connectedServer := {} }
      clearings := x.clearings - 1 }

/-- `leave_stage`; its call of `process_events` is a step of its own. -/
def leaveStage (x : Client) : Client :=
  let x :=
    if x.connection.connectedToStage then
      { x with connection := { x.connection with isConnecting := false } }
    else x
  x.leaveStageComplete

/-- `join_stage_complete`. After a synchronous join the next step processes the events. -/
def joinStageComplete (x : Client) (serverAddress : ZstServerAddress)
    (response : Option Content) : Client :=
  let x := { x with
    connection := { x.connection with
      isConnecting := false
      connectedToStage := true
      connectedServer := serverAddress } }
  if !verifySignal response .ok then x.leaveStageComplete
  else { x with events := x.events ++ [.onConnectedToServer serverAddress] }

/-- The callback of a request. -/
def onRecvResponse (x : Client) (response : Option Content) : Request → Client
  | .join stageAddress =>
    if !verifySignal response .ok then x else x.joinStageComplete stageAddress response
  | .heartbeat => if !verifySignal response .ok then x.leaveStageComplete else x

def respond (x : Client) (id : ZstMsgID) (response : Option Content) : Client :=
  match x.connection.promised id with
  | some promise =>
    { x with
      connection := { x.connection with
        responsePromises :=
          x.connection.responsePromises.eraseP fun promise => promise.id == id }
    }.onRecvResponse response promise.request
  | none => x

def serverStatusHandler (x : Client) (status : ServerStatus) : Client :=
  if status = .quit then x.leaveStageComplete else x

def processEvents (x : Client) : Client :=
  { x with
    events := []
    notices := x.notices ++ x.events.map (notice x.connection.connectedServer) }

def step (x : Client) : NoticeStep → Except Fault Client
  | .connection (.joinStage stageAddress sendtype connects) =>
    .ok { x with
          connection := (x.connection.joinStage stageAddress sendtype connects).toOption.getD
            x.connection }
  | .connection .leaveStage => .ok x.leaveStage
  | .connection (.respond id response) => .ok (x.respond id response)
  | .connection .heartbeatTimer => .ok { x with connection := x.connection.heartbeatTimer }
  | .connection (.serverStatus status) => .ok (x.serverStatusHandler status)
  | .clearServer => .ok x.clearServer
  | .processEvents => .ok x.processEvents

end Client

/-! ## What the adaptors should hear -/

/-- Connected and disconnected in turns, and connected first. -/
def Alternates (notices : List Notice) : Prop :=
  (false :: notices.map Notice.connects).IsChain (· ≠ ·)

/-- Every disconnection tells the server of the connection before it, the first
one that of a connection that is open already. -/
def FaithfulNotices : Option ZstServerAddress → List Notice → Prop
  | _, [] => True
  | _, .onConnectedToServer server :: notices => FaithfulNotices (some server) notices
  | opened, .onDisconnectedFromServer server :: notices =>
    opened = some server ∧ FaithfulNotices none notices

/-- The server of the connection that the adaptors know to be open. -/
def opened : Option ZstServerAddress → List Notice → Option ZstServerAddress
  | known, [] => known
  | _, .onConnectedToServer server :: notices => opened (some server) notices
  | _, .onDisconnectedFromServer _ :: notices => opened none notices

/-- The servers of the connections whose end the adaptors are to hear of. -/
def waiting : Option ZstServerAddress → List Deferred → List (Option ZstServerAddress)
  | _, [] => []
  | _, .onConnectedToServer server :: events => waiting (some server) events
  | known, .onDisconnectedFromServer :: events => known :: waiting none events

/-- The server of the connection that the adaptors know to be open once the events
have run. -/
def expected : Option ZstServerAddress → List Deferred → Option ZstServerAddress
  | known, [] => known
  | _, .onConnectedToServer server :: events => expected (some server) events
  | _, .onDisconnectedFromServer :: events => expected none events

section Notices

variable {known : Option ZstServerAddress} {first second : List Notice}

theorem faithful_append :
    FaithfulNotices known (first ++ second) ↔
      FaithfulNotices known first ∧ FaithfulNotices (opened known first) second := by
  induction first generalizing known with
  | nil => simp [FaithfulNotices, opened]
  | cons notice first ih =>
    cases notice with
    | onConnectedToServer server => exact ih
    | onDisconnectedFromServer server =>
      rw [List.cons_append, FaithfulNotices, FaithfulNotices, ih, opened, and_assoc]

theorem opened_append : opened known (first ++ second) = opened (opened known first) second := by
  induction first generalizing known with
  | nil => rfl
  | cons notice first ih =>
    cases notice with
    | onConnectedToServer server => exact ih
    | onDisconnectedFromServer server => exact ih

theorem opened_map_notice (server : ZstServerAddress) (events : List Deferred) :
    opened known (events.map (notice server)) = expected known events := by
  induction events generalizing known with
  | nil => rfl
  | cons event events ih =>
    cases event with
    | onConnectedToServer other => exact ih
    | onDisconnectedFromServer => exact ih

theorem expected_append (events later : List Deferred) :
    expected known (events ++ later) = expected (expected known events) later := by
  induction events generalizing known with
  | nil => rfl
  | cons event events ih =>
    cases event with
    | onConnectedToServer server => exact ih
    | onDisconnectedFromServer => exact ih

theorem waiting_append (events later : List Deferred) : waiting known (events ++ later) =
    waiting known events ++ waiting (expected known events) later := by
  induction events generalizing known with
  | nil => rfl
  | cons event events ih =>
    cases event with
    | onConnectedToServer server => exact ih
    | onDisconnectedFromServer => exact congrArg (known :: ·) ih

/-- What runs now is faithful if the connected server is the one that was left. -/
theorem faithful_map_notice {server : ZstServerAddress} {events : List Deferred} :
    FaithfulNotices known (events.map (notice server)) ↔
      ∀ left ∈ waiting known events, left = some server := by
  induction events generalizing known with
  | nil => simp [FaithfulNotices, waiting]
  | cons event events ih =>
    cases event with
    | onConnectedToServer other => exact ih
    | onDisconnectedFromServer =>
      rw [List.map_cons, notice, FaithfulNotices, waiting, List.forall_mem_cons, ih]

end Notices

/-! ## The order of the steps -/

/-- What a step can mean for the connection and the notices. -/
inductive Move
  | joined (server : ZstServerAddress)
  | left
  | cleared
  | polled
  deriving DecidableEq, Repr

/-- A response completes a join, or ends the connection that it was a heartbeat of. -/
def answerMove (x : Client) (response : Option Content) : Request → Option Move
  | .join stageAddress => if verifySignal response .ok then some (.joined stageAddress) else none
  | .heartbeat =>
    if !verifySignal response .ok && x.connection.connectedToStage then some .left else none

def move (x : Client) : NoticeStep → Option Move
  | .connection (.joinStage _ _ _) | .connection .heartbeatTimer => none
  | .connection .leaveStage => if x.connection.connectedToStage then some .left else none
  | .connection (.serverStatus status) =>
    if status = .quit ∧ x.connection.connectedToStage = true then some .left else none
  | .connection (.respond id response) =>
    (x.connection.promised id).bind fun promise => answerMove x response promise.request
  | .clearServer => if x.clearings = 0 then none else some .cleared
  | .processEvents => some .polled

/-- The moves of a run, in their order. -/
def moves : Client → List NoticeStep → List Move
  | _, [] => []
  | x, event :: events =>
    match x.step event with
    | .ok y => (move x event).toList ++ moves y events
    | .error _ => []

/-- What can come between a join and the leave that ends it. -/
def Move.quiet : Move → Bool
  | .cleared | .polled => true
  | .joined _ | .left => false

/-- The move sets the connected server. -/
def Move.sets : Move → Bool
  | .joined _ | .cleared => true
  | .left | .polled => false

/-- After the join the server was not set, or at last by a join of the same one. A server
without a name and an address is the same as none. -/
def ServerIntact (server : ZstServerAddress) (since : List Move) : Prop :=
  ∀ m ∈ (since.filter Move.sets).getLast?, m = .joined server ∨ m = .cleared ∧ server = {}

/-- At the first poll after a leave, the server of the connection that was left is intact. -/
def PolledInTime (moves : List Move) : Prop :=
  ∀ first server up down last,
    moves = first ++ .joined server :: (up ++ .left :: (down ++ .polled :: last)) →
    (∀ m ∈ up, m.quiet = true) → .polled ∉ down → ServerIntact server (up ++ down)

section Order

variable {ms : List Move} {m : Move} {server : ZstServerAddress}

/-- The last connection is one to the server, and has not ended. -/
def Joined (ms : List Move) (server : ZstServerAddress) : Prop :=
  ∃ first up, ms = first ++ .joined server :: up ∧ ∀ m ∈ up, m.quiet = true

/-- A connection to the server has ended since the events were processed. -/
def Ended (ms : List Move) (server : ZstServerAddress) : Prop :=
  ∃ first up down, ms = first ++ .joined server :: (up ++ .left :: down) ∧
    (∀ m ∈ up, m.quiet = true) ∧ .polled ∉ down

/-- Either nothing came after the join, or the last move did. -/
theorem joined_concat : Joined (ms ++ [m]) server ↔
    m = .joined server ∨ m.quiet = true ∧ Joined ms server := by
  constructor
  · rintro ⟨first, up, heq, hup⟩
    rcases List.eq_nil_or_concat up with rfl | ⟨up, last, rfl⟩
    · obtain ⟨-, hm⟩ := List.append_inj' heq rfl
      exact Or.inl (List.singleton_inj.mp hm)
    · rw [List.concat_eq_append, ← List.cons_append, ← List.append_assoc] at heq
      obtain ⟨hms, hm⟩ := List.append_inj' heq rfl
      obtain rfl := List.singleton_inj.mp hm
      refine Or.inr ⟨hup m (by simp), first, up, hms, fun n hn => hup n ?_⟩
      simp [hn]
  · rintro (rfl | ⟨hquiet, first, up, rfl, hup⟩)
    · exact ⟨ms, [], rfl, fun _ hn => by cases hn⟩
    · refine ⟨first, up ++ [m], by simp, fun n hn => ?_⟩
      rcases List.mem_append.mp hn with hn | hn
      · exact hup n hn
      · exact List.mem_singleton.mp hn ▸ hquiet

theorem ended_concat : Ended (ms ++ [m]) server ↔
    m = .left ∧ Joined ms server ∨ m ≠ .polled ∧ Ended ms server := by
  constructor
  · rintro ⟨first, up, down, heq, hup, hdown⟩
    rcases List.eq_nil_or_concat down with rfl | ⟨down, last, rfl⟩
    · rw [← List.cons_append, ← List.append_assoc] at heq
      obtain ⟨hms, hm⟩ := List.append_inj' heq rfl
      exact Or.inl ⟨List.singleton_inj.mp hm, first, up, hms, hup⟩
    · rw [List.concat_eq_append, ← List.cons_append, ← List.append_assoc, ← List.cons_append,
        ← List.append_assoc] at heq
      obtain ⟨hms, hm⟩ := List.append_inj' heq rfl
      obtain rfl := List.singleton_inj.mp hm
      rw [List.concat_eq_append, List.mem_append, not_or] at hdown
      exact Or.inr ⟨fun hpolled => hdown.2 (hpolled ▸ List.mem_singleton_self _),
        first, up, down, by simpa using hms, hup, hdown.1⟩
  · rintro (⟨rfl, first, up, rfl, hup⟩ | ⟨hpoll, first, up, down, rfl, hup, hdown⟩)
    · exact ⟨first, up, [], by simp, hup, List.not_mem_nil⟩
    · refine ⟨first, up, down ++ [m], by simp, hup, fun hmem => ?_⟩
      rcases List.mem_append.mp hmem with hmem | hmem
      · exact hdown hmem
      · exact hpoll (List.mem_singleton.mp hmem).symm

/-- The connected server after a move. -/
def Move.serve (server : ZstServerAddress) : Move → ZstServerAddress
  | .joined server => server
  | .cleared => {}
  | .left | .polled => server

theorem intact_iff {since : List Move} :
    ServerIntact server since ↔ since.foldl Move.serve server = server := by
  induction since using List.reverseRecOn with
  | nil => simp [ServerIntact]
  | append_singleton since m ih =>
    rw [List.foldl_concat, ← List.concat_eq_append]
    cases m with
    | joined other => simp [ServerIntact, Move.sets, Move.serve]
    | cleared => simp [ServerIntact, Move.sets, Move.serve, eq_comm]
    | left | polled => simpa [ServerIntact, Move.sets, Move.serve] using ih

theorem intact_of_ended {first up down : List Move}
    (heq : ms = first ++ .joined server :: (up ++ .left :: down)) :
    ServerIntact server (up ++ down) ↔ ms.foldl Move.serve {} = server := by
  rw [intact_iff, heq]
  simp [Move.serve]

/-- A poll finds all connections that have ended since the last one intact or not. -/
theorem inTime_concat : PolledInTime (ms ++ [m]) ↔
    PolledInTime ms ∧
    (m = .polled → ∀ server, Ended ms server → ms.foldl Move.serve {} = server) := by
  constructor
  · refine fun htime => ⟨fun first server up down last heq => ?_, ?_⟩
    · exact htime first server up down (last ++ [m]) (by simp [heq])
    · rintro rfl server ⟨first, up, down, heq, hup, hdown⟩
      exact (intact_of_ended heq).mp (htime first server up down [] (by simp [heq]) hup hdown)
  · rintro ⟨htime, hlast⟩ first server up down last heq hup hdown
    rcases List.eq_nil_or_concat last with rfl | ⟨last, other, rfl⟩
    · have hsplit : ms ++ [m] = (first ++ .joined server :: (up ++ .left :: down)) ++ [.polled] := by
        simp [heq]
      obtain ⟨hms, hm⟩ := List.append_inj' hsplit rfl
      exact (intact_of_ended hms).mpr
        (hlast (List.singleton_inj.mp hm) server ⟨first, up, down, hms, hup, hdown⟩)
    · have hsplit : ms ++ [m] =
          (first ++ .joined server :: (up ++ .left :: (down ++ .polled :: last))) ++ [other] := by
        simp [heq]
      obtain ⟨hms, -⟩ := List.append_inj' hsplit rfl
      exact htime first server up down last hms hup hdown

end Order

/-! ## Turns -/

/-- What the adaptors have heard and are going to hear alternates, and ends with
the flag of the client. -/
structure Turns (x : Client) : Prop where
  orderly : OneJoinAtATime x.connection
  alternates : (false :: (x.notices.map Notice.connects ++
    x.events.map Deferred.connects)).IsChain (· ≠ ·)
  last : (false :: (x.notices.map Notice.connects ++
    x.events.map Deferred.connects)).getLast? = some x.connection.connectedToStage

section Steps

variable {x y : Client}

/-- A connection that begins or ends is told of after the others. -/
theorem Turns.turn (turns : Turns x) {event : Deferred} {connection : ClientConnection}
    {clearings : Nat} (orderly : OneJoinAtATime connection)
    (hbefore : x.connection.connectedToStage = !event.connects)
    (hafter : connection.connectedToStage = event.connects) :
    Turns { x with connection, clearings, events := x.events ++ [event] } := by
  refine ⟨orderly, ?_, ?_⟩
  · dsimp only
    rw [List.map_append, ← List.append_assoc, ← List.cons_append]
    refine List.isChain_append.mpr ⟨turns.alternates, List.isChain_singleton _, ?_⟩
    intro before hlast after hhead
    rw [turns.last] at hlast
    obtain rfl := Option.some.inj hlast
    obtain rfl : event.connects = after := by simpa using hhead
    rw [hbefore]
    exact Bool.not_ne_self _
  · dsimp only
    rw [List.map_append, ← List.append_assoc, ← List.cons_append, hafter]
    exact List.getLast?_concat

/-- The flag stays, and nothing is told. -/
theorem Turns.calm (turns : Turns x) {connection : ClientConnection} {clearings : Nat}
    (orderly : OneJoinAtATime connection)
    (hsame : connection.connectedToStage = x.connection.connectedToStage) :
    Turns { x with connection, clearings } :=
  ⟨orderly, turns.alternates, turns.last.trans (by rw [hsame])⟩

theorem Turns.opened : Turns {} :=
  ⟨orderly_initialised, List.isChain_singleton _, rfl⟩

theorem Turns.leaveStageComplete (turns : Turns x) : Turns x.leaveStageComplete := by
  have hstep : JoinAttempts.step x.connection .leaveStage = .ok x.connection.leaveStage := rfl
  have horderly := turns.orderly.step hstep
  rw [leaveStage_eq] at horderly
  unfold ClientConnection.leaveStageComplete at horderly
  unfold Client.leaveStageComplete
  split
  · exact turns
  · rename_i hconnected
    rw [if_neg hconnected] at horderly
    exact turns.turn ⟨horderly.single, horderly.connecting, horderly.exclusive⟩
      (by simpa [Deferred.connects] using hconnected) rfl

/-- The flag that `leave_stage` sets early is set again right after. -/
theorem leaveStage_eq (x : Client) : x.leaveStage = x.leaveStageComplete := by
  unfold Client.leaveStage Client.leaveStageComplete
  cases hconnected : x.connection.connectedToStage with
  | false => simp [hconnected]
  | true => simp [hconnected]

theorem joinStage_still (client : ClientConnection) (stageAddress : ZstServerAddress)
    (sendtype : SendBehaviour) (connects : Bool) :
    let joined := (client.joinStage stageAddress sendtype connects).toOption.getD client
    joined.connectedServer = client.connectedServer ∧
      joined.connectedToStage = client.connectedToStage := by
  cases hjoin : client.joinStage stageAddress sendtype connects with
  | error refusal => exact ⟨rfl, rfl⟩
  | ok joined =>
    obtain ⟨-, rfl⟩ := joinStage_ok.mp hjoin
    simp [Except.toOption, sendMsg_eq]

theorem heartbeatTimer_still (client : ClientConnection) :
    client.heartbeatTimer.connectedServer = client.connectedServer ∧
      client.heartbeatTimer.connectedToStage = client.connectedToStage := by
  unfold heartbeatTimer
  split
  · exact ⟨rfl, rfl⟩
  · rw [sendMsg_eq]
    exact ⟨rfl, rfl⟩

/-- A response takes its promise, and ends a connection or begins one. -/
theorem Turns.respond (turns : Turns x) (id : ZstMsgID) (response : Option Content) :
    Turns (x.respond id response) := by
  unfold Client.respond
  cases hpromised : x.connection.promised id with
  | none => exact turns
  | some promise =>
    dsimp only
    cases hrequest : promise.request with
    | heartbeat =>
      -- an acknowledged heartbeat only takes its promise
      have hstep : JoinAttempts.step x.connection (.respond id (some (.signalMessage .ok))) =
          .ok (x.connection.respond id (some (.signalMessage .ok))) := rfl
      have horderly := turns.orderly.step hstep
      unfold ClientConnection.respond at horderly
      rw [hpromised] at horderly
      dsimp only at horderly
      rw [hrequest] at horderly
      have htaken : Turns { x with
          connection := { x.connection with
            responsePromises :=
              x.connection.responsePromises.eraseP fun promise => promise.id == id } } :=
        turns.calm horderly rfl
      unfold Client.onRecvResponse
      dsimp only
      split
      · exact htaken.leaveStageComplete
      · exact htaken
    | join stageAddress =>
      have hstep : JoinAttempts.step x.connection (.respond id response) =
          .ok (x.connection.respond id response) := rfl
      have horderly := turns.orderly.step hstep
      unfold ClientConnection.respond at horderly
      rw [hpromised] at horderly
      dsimp only at horderly
      rw [hrequest, onRecvResponse_join] at horderly
      unfold Client.onRecvResponse
      dsimp only
      cases hverified : verifySignal response .ok with
      | false =>
        rw [hverified, if_neg Bool.false_ne_true] at horderly
        exact turns.calm horderly rfl
      | true =>
        rw [hverified, if_pos rfl] at horderly
        unfold Client.joinStageComplete
        rw [hverified]
        refine turns.turn horderly ?_ rfl
        -- whoever waits for the response to a join is not connected
        have hpending : pendingJoins x.connection ≠ [] :=
          List.ne_nil_of_mem (List.mem_filter.mpr
            ⟨List.mem_of_find?_eq_some hpromised, by rw [hrequest]; rfl⟩)
        have hconnecting := turns.orderly.connecting hpending
        have hexclusive := turns.orderly.exclusive
        simpa [hconnecting, Deferred.connects] using hexclusive

theorem Turns.step (turns : Turns x) {event : NoticeStep} (hstep : x.step event = .ok y) :
    Turns y := by
  cases event with
  | clearServer =>
    obtain rfl := Except.ok.inj hstep
    unfold Client.clearServer
    split
    · exact turns
    · exact turns.calm ⟨turns.orderly.single, turns.orderly.connecting, turns.orderly.exclusive⟩ rfl
  | processEvents =>
    obtain rfl := Except.ok.inj hstep
    have hmap : (x.processEvents.notices.map Notice.connects ++
        x.processEvents.events.map Deferred.connects) =
        x.notices.map Notice.connects ++ x.events.map Deferred.connects := by
      have hsame : ∀ event : Deferred,
          (notice x.connection.connectedServer event).connects = event.connects := fun event => by
        cases event <;> rfl
      simp [Client.processEvents, Function.comp_def, hsame]
    exact ⟨turns.orderly, hmap ▸ turns.alternates, hmap ▸ turns.last⟩
  | connection event =>
    cases event with
    | joinStage stageAddress sendtype connects =>
      obtain rfl := Except.ok.inj hstep
      have hjoin : JoinAttempts.step x.connection (.joinStage stageAddress sendtype connects) =
          .ok ((x.connection.joinStage stageAddress sendtype connects).toOption.getD
            x.connection) := rfl
      exact turns.calm (turns.orderly.step hjoin) (joinStage_still _ _ _ _).2
    | leaveStage =>
      obtain rfl := Except.ok.inj hstep
      rw [leaveStage_eq]
      exact turns.leaveStageComplete
    | respond id response =>
      obtain rfl := Except.ok.inj hstep
      exact turns.respond id response
    | heartbeatTimer =>
      obtain rfl := Except.ok.inj hstep
      have htimer : JoinAttempts.step x.connection .heartbeatTimer =
          .ok x.connection.heartbeatTimer := rfl
      exact turns.calm (turns.orderly.step htimer) (heartbeatTimer_still _).2
    | serverStatus status =>
      obtain rfl := Except.ok.inj hstep
      unfold Client.serverStatusHandler
      split
      · exact turns.leaveStageComplete
      · exact turns

/-- What a step does to the server, the flag and the events, by the move it makes. -/
inductive Makes (x : Client) : Option Move → Client → Prop
  | still {y : Client} (hserver : y.connection.connectedServer = x.connection.connectedServer)
      (hconnected : y.connection.connectedToStage = x.connection.connectedToStage)
      (hevents : y.events = x.events) (hnotices : y.notices = x.notices) : Makes x none y
  | joined {y : Client} {server : ZstServerAddress} (hserver : y.connection.connectedServer = server)
      (hconnected : y.connection.connectedToStage = true)
      (hevents : y.events = x.events ++ [.onConnectedToServer server])
      (hnotices : y.notices = x.notices) : Makes x (some (.joined server)) y
  | left {y : Client} (hbefore : x.connection.connectedToStage = true)
      (hserver : y.connection.connectedServer = x.connection.connectedServer)
      (hconnected : y.connection.connectedToStage = false)
      (hevents : y.events = x.events ++ [.onDisconnectedFromServer])
      (hnotices : y.notices = x.notices) : Makes x (some .left) y
  | cleared {y : Client} (hserver : y.connection.connectedServer = {})
      (hconnected : y.connection.connectedToStage = x.connection.connectedToStage)
      (hevents : y.events = x.events) (hnotices : y.notices = x.notices) :
      Makes x (some .cleared) y
  | polled : Makes x (some .polled) x.processEvents

theorem Makes.leaveStageComplete (x : Client) :
    Makes x (if x.connection.connectedToStage then some .left else none) x.leaveStageComplete := by
  unfold Client.leaveStageComplete
  cases hconnected : x.connection.connectedToStage with
  | false => exact .still rfl rfl rfl rfl
  | true => exact .left hconnected rfl rfl rfl rfl

/-- The promise that a response takes makes no difference. -/
theorem Makes.of_promises {m : Option Move} (responsePromises : List ResponsePromise)
    (makes : Makes { x with connection := { x.connection with responsePromises } } m y)
    (hpoll : m ≠ some .polled) : Makes x m y := by
  cases makes with
  | still hserver hconnected hevents hnotices => exact .still hserver hconnected hevents hnotices
  | joined hserver hconnected hevents hnotices => exact .joined hserver hconnected hevents hnotices
  | left hbefore hserver hconnected hevents hnotices =>
    exact .left hbefore hserver hconnected hevents hnotices
  | cleared hserver hconnected hevents hnotices =>
    exact .cleared hserver hconnected hevents hnotices
  | polled => exact absurd rfl hpoll

theorem answerMove_ne_polled (x : Client) (response : Option Content) (request : Request) :
    answerMove x response request ≠ some .polled := by
  unfold answerMove
  cases request with
  | join stageAddress =>
    dsimp only
    split <;> simp
  | heartbeat =>
    dsimp only
    split <;> simp

theorem Makes.onRecvResponse (x : Client) (response : Option Content) (request : Request) :
    Makes x (answerMove x response request) (x.onRecvResponse response request) := by
  unfold Client.onRecvResponse answerMove
  cases request with
  | join stageAddress =>
    dsimp only
    cases hverified : verifySignal response .ok with
    | false => exact .still rfl rfl rfl rfl
    | true =>
      unfold Client.joinStageComplete
      rw [hverified]
      exact .joined rfl rfl rfl rfl
  | heartbeat =>
    dsimp only
    cases hverified : verifySignal response .ok with
    | false => exact .leaveStageComplete x
    | true => exact .still rfl rfl rfl rfl

theorem Makes.of_step {event : NoticeStep} (hstep : x.step event = .ok y) : Makes x
    (move x event) y := by
  cases event with
  | processEvents =>
    obtain rfl := Except.ok.inj hstep
    exact .polled
  | clearServer =>
    obtain rfl := Except.ok.inj hstep
    change Makes x (if x.clearings = 0 then none else some .cleared) x.clearServer
    unfold Client.clearServer
    by_cases hnone : x.clearings = 0
    · rw [if_pos hnone, if_pos hnone]
      exact .still rfl rfl rfl rfl
    · rw [if_neg hnone, if_neg hnone]
      exact .cleared rfl rfl rfl rfl
  | connection event =>
    cases event with
    | joinStage stageAddress sendtype connects =>
      obtain rfl := Except.ok.inj hstep
      obtain ⟨hserver, hconnected⟩ := joinStage_still x.connection stageAddress sendtype connects
      exact .still hserver hconnected rfl rfl
    | heartbeatTimer =>
      obtain rfl := Except.ok.inj hstep
      obtain ⟨hserver, hconnected⟩ := heartbeatTimer_still x.connection
      exact .still hserver hconnected rfl rfl
    | leaveStage =>
      obtain rfl := Except.ok.inj hstep
      rw [leaveStage_eq]
      exact .leaveStageComplete x
    | serverStatus status =>
      obtain rfl := Except.ok.inj hstep
      change Makes x (if status = .quit ∧ x.connection.connectedToStage = true then some .left
        else none) (x.serverStatusHandler status)
      unfold Client.serverStatusHandler
      by_cases hquit : status = .quit
      · simp only [hquit, if_true, true_and]
        exact .leaveStageComplete x
      · simp only [hquit, if_false, false_and]
        exact .still rfl rfl rfl rfl
    | respond id response =>
      obtain rfl := Except.ok.inj hstep
      change Makes x ((x.connection.promised id).bind fun promise =>
        answerMove x response promise.request) (x.respond id response)
      unfold Client.respond
      cases hpromised : x.connection.promised id with
      | none => exact .still rfl rfl rfl rfl
      | some promise =>
        have hmakes := Makes.onRecvResponse { x with
          connection := { x.connection with
            responsePromises :=
              x.connection.responsePromises.eraseP fun promise => promise.id == id } }
          response promise.request
        exact .of_promises _ hmakes (answerMove_ne_polled _ response promise.request)

/-- What the moves say of the client. -/
structure MovesTraced (ms : List Move) (x : Client) : Prop where
  server : x.connection.connectedServer = ms.foldl Move.serve {}
  flag : x.connection.connectedToStage = (expected (opened none x.notices) x.events).isSome
  joined : ∀ server, expected (opened none x.notices) x.events = some server ↔ Joined ms server
  ended : ∀ left, left ∈ waiting (opened none x.notices) x.events ↔
    ∃ server, left = some server ∧ Ended ms server

theorem MovesTraced.step {ms : List Move} (traced : MovesTraced ms x) {m : Option Move}
    (makes : Makes x m y) : MovesTraced (ms ++ m.toList) y := by
  cases makes with
  | still hserver hconnected hevents hnotices =>
    rw [Option.toList_none, List.append_nil]
    refine ⟨hserver.trans traced.server, hconnected.trans ?_, ?_, ?_⟩
    all_goals rw [hevents, hnotices]
    · exact traced.flag
    · exact traced.joined
    · exact traced.ended
  | @joined _ server hserver hconnected hevents hnotices =>
    rw [Option.toList_some]
    refine ⟨hserver.trans (by rw [List.foldl_concat]; rfl), hconnected.trans ?_, fun other => ?_,
      fun left => ?_⟩
    all_goals rw [hevents, hnotices]
    · rw [expected_append]
      rfl
    · rw [expected_append, joined_concat]
      simp [expected, Move.quiet]
    · rw [waiting_append, waiting, waiting, List.append_nil, traced.ended]
      simp [ended_concat]
  | left hbefore hserver hconnected hevents hnotices =>
    rw [Option.toList_some]
    refine ⟨hserver.trans (by rw [List.foldl_concat, traced.server]; rfl), hconnected.trans ?_,
      fun other => ?_, fun left => ?_⟩
    all_goals rw [hevents, hnotices]
    · rw [expected_append]
      rfl
    · rw [expected_append, joined_concat]
      simp [expected, Move.quiet]
    · -- whoever is connected is so since a join
      obtain ⟨server, hserver⟩ := Option.isSome_iff_exists.mp (traced.flag ▸ hbefore)
      have hjoined := traced.joined
      rw [hserver] at hjoined
      rw [waiting_append, List.mem_append, traced.ended, hserver]
      simp only [waiting, List.mem_singleton, ended_concat, ← hjoined, Option.some.injEq,
        true_and, ne_eq, reduceCtorEq, not_false_eq_true]
      constructor
      · rintro (⟨other, rfl, hended⟩ | rfl)
        · exact ⟨other, rfl, Or.inr hended⟩
        · exact ⟨server, rfl, Or.inl rfl⟩
      · rintro ⟨other, rfl, rfl | hended⟩
        · exact Or.inr rfl
        · exact Or.inl ⟨other, rfl, hended⟩
  | cleared hserver hconnected hevents hnotices =>
    rw [Option.toList_some]
    refine ⟨hserver.trans (by rw [List.foldl_concat]; rfl), hconnected.trans ?_, fun other => ?_,
      fun left => ?_⟩
    all_goals rw [hevents, hnotices]
    · exact traced.flag
    · rw [traced.joined, joined_concat]
      simp [Move.quiet]
    · rw [traced.ended]
      simp [ended_concat]
  | polled =>
    have hopened : expected (opened none x.processEvents.notices) x.processEvents.events =
        expected (opened none x.notices) x.events := by
      rw [Client.processEvents, opened_append, opened_map_notice]
      rfl
    rw [Option.toList_some]
    refine ⟨traced.server.trans (by rw [List.foldl_concat]; rfl), ?_, fun other => ?_,
      fun left => ?_⟩
    · rw [hopened]
      exact traced.flag
    · rw [hopened, traced.joined, joined_concat]
      simp [Move.quiet]
    · simp [Client.processEvents, waiting, ended_concat]

/-- A step tells something new when it processes the events, and that is as it
should be if the servers of the connections that have ended are intact. -/
theorem MovesTraced.faithful {ms : List Move} (traced : MovesTraced ms x) {m : Option Move}
    (makes : Makes x m y) (hbefore : FaithfulNotices none x.notices ↔ PolledInTime ms) :
    FaithfulNotices none y.notices ↔ PolledInTime (ms ++ m.toList) := by
  cases makes with
  | still _ _ _ hnotices => rwa [hnotices, Option.toList_none, List.append_nil]
  | joined _ _ _ hnotices | left _ _ _ _ hnotices | cleared _ _ _ hnotices =>
    rw [hnotices, Option.toList_some, inTime_concat, hbefore]
    simp
  | polled =>
    rw [Option.toList_some, inTime_concat, Client.processEvents, faithful_append,
      faithful_map_notice, hbefore, ← traced.server]
    refine and_congr_right fun _ => ⟨fun hall _ server hended => ?_, fun hall left hleft => ?_⟩
    · have hleft := hall (some server) ((traced.ended _).mpr ⟨server, rfl, hended⟩)
      exact (Option.some.inj hleft).symm
    · obtain ⟨server, rfl, hended⟩ := (traced.ended left).mp hleft
      rw [hall rfl server hended]

end Steps

/-! ## Runs -/

section Runs

variable {x : Client} {events : List NoticeStep}

theorem moves_concat {event : NoticeStep} {y z : Client}
    (hrun : Library.run Client.step y events = .ok x)
    (hstep : x.step event = .ok z) :
    moves y (events ++ [event]) = moves y events ++ (move x event).toList := by
  induction events generalizing y with
  | nil =>
    obtain rfl : y = x := by simpa using hrun
    simp [moves, hstep]
  | cons other events ih =>
    obtain ⟨w, hfirst, hrest⟩ := Library.run_cons_ok.mp hrun
    simp only [List.cons_append, moves, hfirst, List.append_assoc]
    rw [ih hrest]

theorem MovesTraced.run (hrun : Library.run Client.step {} events = .ok x) :
    MovesTraced (moves {} events) x ∧
    (FaithfulNotices none x.notices ↔ PolledInTime (moves {} events)) := by
  induction events using List.reverseRecOn generalizing x with
  | nil =>
    obtain rfl : {} = x := by simpa using hrun
    refine ⟨⟨rfl, rfl, fun server => ?_, fun left => ?_⟩, iff_of_true trivial ?_⟩
    · simp [Joined, moves, opened, expected]
    · simp [Ended, moves, waiting]
    · simp [PolledInTime, moves]
  | append_singleton events event ih =>
    obtain ⟨y, hbefore, hstep⟩ := Library.run_concat_ok.mp hrun
    obtain ⟨traced, hfaithful⟩ := ih hbefore
    have makes := Makes.of_step hstep
    rw [moves_concat hbefore hstep]
    exact ⟨traced.step makes, traced.faithful makes hfaithful⟩

/-- **What the adaptors hear.** In every run they hear of connections and
disconnections in turns; and every disconnection tells the server of the connection
before it if and only if each poll comes while the servers that were left are intact. -/
theorem notices_faithful_iff (hrun : Library.run Client.step {} events = .ok x) :
    Alternates x.notices ∧ (FaithfulNotices none x.notices ↔ PolledInTime (moves {} events)) := by
  have turns : Turns x :=
    Library.run_history (fun _ x => Turns x) (fun _ _ _ _ h hstep => h.step hstep) .opened hrun
  refine ⟨?_, (MovesTraced.run hrun).2⟩
  have hchain := turns.alternates
  rw [← List.cons_append] at hchain
  exact (List.isChain_append.mp hchain).1

/-- The client joins a stage, hears of it, and leaves again. -/
def visit : List NoticeStep :=
  [.connection (.joinStage ⟨"stage", "10.0.0.1:40004"⟩ .asyncReply true),
    .connection (.respond 1 (some (.signalMessage .ok))), .processEvents,
    .connection .leaveStage, .clearServer, .processEvents]

/-- The same, but the other thread processes the events before the server is cleared. -/
def polledEarly : List NoticeStep :=
  [.connection (.joinStage ⟨"stage", "10.0.0.1:40004"⟩ .asyncReply true),
    .connection (.respond 1 (some (.signalMessage .ok))), .processEvents,
    .connection .leaveStage, .processEvents, .clearServer]

theorem polledEarly_inTime : PolledInTime (moves {} polledEarly) := by
  have hmoves : moves {} polledEarly =
      [.joined ⟨"stage", "10.0.0.1:40004"⟩, .polled, .left, .polled, .cleared] := by decide
  rw [hmoves]
  intro first server up down last heq hup hdown
  obtain ⟨rfl, hup'⟩ : first = [] ∧ up = [.polled] := by
    cases first with
    | cons m first =>
      have hmem : Move.joined server ∈ [.polled, .left, .polled, .cleared] := by
        rw [(List.cons.inj heq).2]
        simp
      exact absurd hmem (by simp)
    | nil =>
      refine ⟨rfl, ?_⟩
      rcases up with _ | ⟨m, _ | ⟨n, up⟩⟩
      · simp at heq
      · simp only [List.nil_append, List.cons_append, List.cons.injEq] at heq
        rw [← heq.2.1]
      · simp only [List.nil_append, List.cons_append, List.cons.injEq] at heq
        have hquiet := hup n (by simp)
        rw [← heq.2.2.1] at hquiet
        exact absurd hquiet Bool.false_ne_true
  subst hup'
  cases down with
  | nil => simp [ServerIntact, Move.sets]
  | cons m down =>
    simp only [List.nil_append, List.cons_append, List.cons.injEq] at heq
    exact absurd (heq.2.2.2.1 ▸ List.mem_cons_self) hdown

theorem notices_faithful_iff_visit :
    (∃ x, Library.run Client.step {} polledEarly = .ok x ∧ FaithfulNotices none x.notices) ∧
      ∃ x, Library.run Client.step {} visit = .ok x ∧ ¬ PolledInTime (moves {} visit) := by
  obtain ⟨x, hx⟩ : ∃ x, Library.run Client.step {} polledEarly = .ok x := ⟨_, rfl⟩
  obtain ⟨y, hy, hnotices⟩ : ∃ y, Library.run Client.step {} visit = .ok y ∧
      y.notices = [.onConnectedToServer ⟨"stage", "10.0.0.1:40004"⟩,
        .onDisconnectedFromServer {}] := ⟨_, rfl, rfl⟩
  refine ⟨⟨x, hx, (notices_faithful_iff hx).2.mpr polledEarly_inTime⟩, y, hy, fun htime => ?_⟩
  have hfaithful := (notices_faithful_iff hy).2.mpr htime
  rw [hnotices] at hfaithful
  exact absurd (Option.some.inj hfaithful.1) (by decide)

/-- The adaptors are told that the client left a server without a name. -/
theorem visit_not_faithful :
    ¬ ∀ events x, Library.run Client.step {} events = .ok x →
      Alternates x.notices ∧ FaithfulNotices none x.notices := by
  intro hall
  obtain ⟨-, hfaithful⟩ := hall visit _ rfl
  exact absurd (Option.some.inj hfaithful.1) (by decide)

end Runs

end Showtime.ServerNotices
