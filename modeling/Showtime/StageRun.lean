import Showtime.Arriving
import Showtime.Library.Run
import Showtime.Standing
import Showtime.TreeEdit
/-!
# The stage at work

`ZstStage` with its threads: messages and responses are handled by the
transports' threads, the heartbeat timer has a thread of its own, and the event
loop takes one deferred event after the other. A run of the stage is any order
of these steps. Everything that was ever sent stays in `sent`.
-/

namespace Showtime

open ZstHierarchy ZstStageHierarchy ZstStageSession

namespace ZstStage

/-! ## The heartbeat timer -/

def maxMissedHeartbeats : Nat := 10

/-- `clear_active_hearbeat` of a performer that was heard, and
`set_heartbeat_inactive` of any other one. -/
def checkHeartbeat (x : Entity) : Entity :=
  if x.heartbeatActive then { x with heartbeatActive := false }
  else { x with missedHeartbeats := x.missedHeartbeats + 1 }

/-- The first loop of the timer, with the performers that missed too many
heartbeats. -/
def checkHeartbeats (h : ZstHierarchy) : ZstHierarchy × List EntityId :=
  (getPerformers h).foldl (fun (h, removedClients) e =>
    let h := h.modify e checkHeartbeat
    (h, if (h.entities e).missedHeartbeats > maxMissedHeartbeats then removedClients ++ [e]
      else removedClients)) (h, [])

def stageHeartbeatTimer (h : ZstHierarchy) : ZstHierarchy :=
  let (h, removedClients) := checkHeartbeats h
  removedClients.foldl (removeProxyEntity stageOverrides) h

/-! ## Steps -/

inductive StageEvent
  /-- A message of a client is handled. -/
  | receive (msg : ZstStageMessage)
  /-- The response to a message of the stage comes in, or it times out. -/
  | respond (message : Nat) (response : Option Content)
  | heartbeatTimer
  /-- The event loop takes the oldest event of the hierarchy, ... -/
  | hierarchyEvent
  /-- ... the oldest item of the hierarchy's module, ... -/
  | synchronisableEvent
  /-- ... the oldest callback of its reaper, ... -/
  | cleanup
  /-- ... forgets the dead ids, ... -/
  | forgetDead
  /-- ... or drains what the session knows of its cables. -/
  | cableEvents
  deriving DecidableEq, Repr

/-- The callback that waits for the response to a message. -/
def callback (h : ZstHierarchy) (message : Nat) : Option ResponseAction :=
  h.sent[message]?.bind Outgoing.onRecvResponse

def step (s : ZstSession) : StageEvent → Except Fault ZstSession
  | .receive msg => receive s msg
  | .respond message response =>
    match callback s.hierarchy message with
    | some action => onRecvResponse s action response
    | none => .ok s
  | .heartbeatTimer => .ok (onHierarchy s stageHeartbeatTimer)
  | .hierarchyEvent =>
    match s.hierarchy.hierarchyEvents with
    | [] => .ok s
    | event :: rest =>
      processHierarchyEvent (onHierarchy s fun h => { h with hierarchyEvents := rest }) event
  | .synchronisableEvent => .ok (onHierarchy s (processItems stageOverrides 1))
  | .cleanup => .ok (onHierarchy s (reapAll stageOverrides 1))
  | .forgetDead => .ok (onHierarchy s fun h => { h with deadIDs := [] })
  | .cableEvents => .ok s.processCableItems.reapCables

/-- The event loop and the reaper take their turns once. -/
def drainTurn : List StageEvent :=
  [.hierarchyEvent, .synchronisableEvent, .cleanup, .forgetDead]

/-- The stage before anybody joined. -/
def opened : ZstSession where
  hierarchy := ofList []
  cableObjects _ := { address := ⟨[], []⟩, input := 0, output := 0 }

/-! ## Messages of a client -/

def joining (name : String) (endpoint : Endpoint) : StageEvent :=
  .receive
    { content := .clientJoinRequest { entityType := .performer, uri := [name] } ""
      id := 0
      originEndpointUUID := endpoint }

def leaving (name : String) (endpoint : Endpoint) : StageEvent :=
  .receive
    { content := .clientLeaveRequest [name] .quit, id := 0, originEndpointUUID := endpoint }

def heartbeat (endpoint : Endpoint) : StageEvent :=
  .receive { content := .signalMessage .clientHeartbeat, id := 0, originEndpointUUID := endpoint }

def observing (name : String) (endpoint : Endpoint) : StageEvent :=
  .receive { content := .entityObserveRequest [name], id := 0, originEndpointUUID := endpoint }

/-! ## What the handlers of the hierarchy come to -/

section Handlers

variable {h k : ZstHierarchy} {response : Signal}

/-- A join is refused, or brings a performer. -/
theorem createClientHandler_ok {msg : ZstStageMessage} {performer : EntityBuffer}
    {address : String}
    (hrun : createClientHandler h msg performer address = .ok (k, response)) :
    k = h ∨ h.findEntity performer.uri = none ∧ addProxyEntity stageOverrides h
      (Entity.performerStageProxy performer address msg.originEndpointUUID) = .ok k := by
  unfold createClientHandler at hrun
  split at hrun
  · obtain ⟨rfl, -⟩ := Prod.mk.inj (Except.ok.inj hrun)
    exact Or.inl rfl
  · rename_i hfind
    obtain ⟨l, hadd, hrun⟩ := Library.bind_ok.mp hrun
    obtain ⟨rfl, -⟩ := Prod.mk.inj (Except.ok.inj hrun)
    exact Or.inr ⟨Option.not_isSome_iff_eq_none.mp hfind, hadd⟩

/-- A request for an entity changes nothing, or brings the entity. -/
theorem createEntityHandler_ok {buffer : EntityBuffer} {sender : Option EntityId}
    (hrun : createEntityHandler h buffer sender = .ok (k, response)) :
    k = h ∨ ∃ x, h.createProxyEntity buffer = some x ∧
      addProxyEntity stageOverrides h x = .ok k := by
  unfold createEntityHandler at hrun
  obtain ⟨field, hfield, hrun⟩ := Library.bind_ok.mp hrun
  obtain rfl : buffer = field := by
    unfold getEntityField at hfield
    split at hfield
    · cases hfield
    · exact Except.ok.inj hfield
  obtain ⟨performer, -, hrun⟩ := Library.bind_ok.mp hrun
  obtain ⟨first, -, hrun⟩ := Library.bind_ok.mp hrun
  obtain ⟨entityFirst, -, hrun⟩ := Library.bind_ok.mp hrun
  have hanswer : ∀ {l : ZstHierarchy}, (if (l.findEntity buffer.uri).isNone = true then
      pure (l, Signal.errEntityNotFound) else pure (l, Signal.ok)) =
        (Except.ok (k, response) : Except Fault _) → l = k := by
    intro l hl
    split at hl
    · exact (Prod.mk.inj (Except.ok.inj hl)).1
    · exact (Prod.mk.inj (Except.ok.inj hl)).1
  dsimp only at hrun
  split at hrun
  · obtain ⟨rfl, -⟩ := Prod.mk.inj (Except.ok.inj hrun)
    exact Or.inl rfl
  · split at hrun
    · rename_i x hx
      obtain ⟨l, hadd, hrun⟩ := Library.bind_ok.mp hrun
      obtain rfl := hanswer hrun
      exact Or.inr ⟨x, hx, hadd⟩
    · obtain ⟨l, hl, hrun⟩ := Library.bind_ok.mp hrun
      obtain rfl := Except.ok.inj hl
      exact Or.inl (hanswer hrun).symm

theorem updateEntityHandler_ok {buffer : EntityBuffer} {originalPath : ZstURI}
    {sender : Option EntityId}
    (hrun : updateEntityHandler h buffer originalPath sender = .ok (k, response)) :
    k = h ∨ ∃ proxy, h.findEntity originalPath = some proxy ∧
      Standing (h.updateProxyEntity stageOverrides proxy buffer) k := by
  unfold updateEntityHandler at hrun
  obtain ⟨field, hfield, hrun⟩ := Library.bind_ok.mp hrun
  obtain rfl : buffer = field := by
    unfold getEntityField at hfield
    split at hfield
    · cases hfield
    · exact Except.ok.inj hfield
  dsimp only at hrun
  split at hrun
  · obtain ⟨rfl, -⟩ := Prod.mk.inj (Except.ok.inj hrun)
    exact Or.inl rfl
  · rename_i proxy hfind
    obtain ⟨rfl, -⟩ := Prod.mk.inj (Except.ok.inj hrun)
    exact Or.inr ⟨proxy, hfind, Standing.broadcast _ _ _⟩

theorem destroyEntityHandler_cases (h : ZstHierarchy) (path : ZstURI) (sender : Option EntityId) :
    (destroyEntityHandler h path sender).1 = h ∨ ∃ e, h.findEntity path = some e ∧
      Standing (h.removeProxyEntity stageOverrides e)
        (destroyEntityHandler h path sender).1 := by
  unfold destroyEntityHandler
  split
  · exact Or.inl rfl
  · rename_i e hfind
    exact Or.inr ⟨e, hfind, Standing.broadcast _ _ _⟩

theorem createProxyEntity_eq_some {h : ZstHierarchy} {buffer : EntityBuffer} {x : Entity}
    (hx : h.createProxyEntity buffer = some x) :
    h.findEntity buffer.uri = none ∧ x = Entity.unpack buffer := by
  unfold createProxyEntity at hx
  split at hx
  · cases hx
  · rename_i hfind
    split at hx
    · cases hx
    · exact ⟨Option.not_isSome_iff_eq_none.mp hfind, (Option.some.inj hx).symm⟩

/-- An empty path has no first segment. -/
theorem createEntityHandler_uri {h k : ZstHierarchy} {buffer : EntityBuffer}
    {sender : Option EntityId} {response : Signal}
    (hrun : createEntityHandler h buffer sender = .ok (k, response)) : buffer.uri ≠ [] := by
  unfold createEntityHandler at hrun
  obtain ⟨field, hfield, hrun⟩ := Library.bind_ok.mp hrun
  obtain rfl : buffer = field := by
    unfold getEntityField at hfield
    split at hfield
    · cases hfield
    · exact Except.ok.inj hfield
  obtain ⟨performer, -, hrun⟩ := Library.bind_ok.mp hrun
  obtain ⟨first, -, hrun⟩ := Library.bind_ok.mp hrun
  obtain ⟨entityFirst, hfirst, -⟩ := Library.bind_ok.mp hrun
  intro hempty
  unfold firstSegment at hfirst
  rw [if_pos hempty] at hfirst
  cases hfirst

theorem clientLeavingHandler_ok {reason : ClientLeaveReason} {sender : Option EntityId}
    (hrun : clientLeavingHandler h reason sender = .ok (k, response)) :
    ∃ e, sender = some e ∧ Standing (h.removeProxyEntity stageOverrides e) k := by
  unfold clientLeavingHandler at hrun
  obtain ⟨performer, hperformer, hrun⟩ := Library.bind_ok.mp hrun
  obtain ⟨rfl, -⟩ := Prod.mk.inj (Except.ok.inj hrun)
  exact ⟨performer, deref_ok hperformer, Standing.broadcast _ _ none⟩

end Handlers

/-! ## What a step comes to -/

section Shifts

variable {s t : ZstSession}

/-- A response that comes in changes nothing, or completes a handshake. -/
theorem onRecvResponse_cases {s t : ZstSession} {action : ResponseAction}
    {response : Option Content} (hrun : onRecvResponse s action response = .ok t) :
    Standing s.hierarchy t.hierarchy ∨
      ∃ output input follow, action = .clientsConnected output input follow ∧
        verifySignal response .ok = true ∧ s.hierarchy.live output = true ∧
        s.hierarchy.live input = true ∧
        Standing (subscribe s.hierarchy output input) t.hierarchy := by
  unfold onRecvResponse at hrun
  split at hrun
  · obtain ⟨k, hfactory, hrun⟩ := Library.bind_ok.mp hrun
    obtain rfl := Except.ok.inj hrun
    left
    unfold factoryEntityCreated at hfactory
    obtain ⟨performer, -, hfactory⟩ := Library.bind_ok.mp hfactory
    obtain rfl := Except.ok.inj hfactory
    dsimp only
    split
    · exact Standing.whisperTo _ _ _ _ _
    · exact (Standing.whisperTo _ _ _ _ _).trans (Standing.whisperTo _ _ _ _ _)
  · rename_i output input follow
    by_cases hok : verifySignal response .ok = true
    · obtain ⟨hout, hin, hfollow⟩ := clientsConnected_succeeded hok hrun
      refine Or.inr ⟨output, input, follow, rfl, hok, hout, hin, ?_⟩
      refine .trans ?_ (Standing.onConnected hfollow)
      rw [completeClientConnection_eq]
      exact Standing.sends _ _
    · unfold clientsConnected at hrun
      rw [if_neg hok] at hrun
      obtain rfl := Except.ok.inj hrun
      exact Or.inl (.refl _)
  · obtain rfl := Except.ok.inj hrun
    exact Or.inl (.refl _)

/-- The first loop of the timer only counts heartbeats. -/
theorem checkHeartbeats_standing (h : ZstHierarchy) : Standing h (checkHeartbeats h).1 := by
  unfold checkHeartbeats
  refine List.foldlRecOn (motive := fun (state : ZstHierarchy × List EntityId) =>
    Standing h state.1) _ _ (.refl h) fun state hstate e _ => hstate.trans ?_
  refine Standing.modify state.1 e checkHeartbeat fun x => ?_
  unfold checkHeartbeat
  split <;> rfl

/-- A calm message moves nobody. -/
theorem receive_calm {msg : ZstStageMessage} (hcalm : EntityPreserving msg.content)
    (hrun : receive s msg = .ok t) : Standing s.hierarchy t.hierarchy := by
  obtain ⟨u, hsession, hrun⟩ := Library.bind_ok.mp hrun
  obtain ⟨k, hhierarchy, hrun⟩ := Library.bind_ok.mp hrun
  obtain rfl := Except.ok.inj hrun
  unfold ZstStageHierarchy.onReceiveMsg at hhierarchy
  obtain ⟨⟨l, response⟩, hdispatch, hrespond⟩ := Library.bind_ok.mp hhierarchy
  obtain rfl := Except.ok.inj hrespond
  have hu : Standing s.hierarchy u.hierarchy := .onReceiveMsg hsession
  exact (hu.trans (.hierarchyDispatch hcalm hdispatch)).trans (.respond l msg response)

/-- The session has nothing to do with any other message. -/
theorem receive_not_calm {msg : ZstStageMessage} (hcalm : ¬ EntityPreserving msg.content)
    (hrun : receive s msg = .ok t) :
    ∃ l response, ZstStageHierarchy.dispatch s.hierarchy msg
        (getClientFromEndpointUUID s.hierarchy msg.originEndpointUUID) = .ok (l, response) ∧
      t = { s with hierarchy := respond l msg response } := by
  have hsession : ZstStageSession.onReceiveMsg s msg = .ok s := by
    unfold ZstStageSession.onReceiveMsg ZstStageSession.dispatch
    cases hcontent : msg.content
    case clientJoinRequest | clientLeaveRequest | entityCreateRequest | entityUpdateRequest
        | entityDestroyRequest =>
      cases getClientFromEndpointUUID s.hierarchy msg.originEndpointUUID <;> rfl
    all_goals
      rw [hcontent] at hcalm
      exact absurd trivial hcalm
  obtain ⟨u, hu, hrun⟩ := Library.bind_ok.mp hrun
  obtain rfl := Except.ok.inj (hsession.symm.trans hu)
  obtain ⟨k, hhierarchy, hrun⟩ := Library.bind_ok.mp hrun
  obtain rfl := Except.ok.inj hrun
  unfold ZstStageHierarchy.onReceiveMsg at hhierarchy
  obtain ⟨⟨l, response⟩, hdispatch, hrespond⟩ := Library.bind_ok.mp hhierarchy
  obtain rfl := Except.ok.inj hrespond
  exact ⟨l, response, hdispatch, rfl⟩

/-- The entities that a step removes. -/
def leavers (h : ZstHierarchy) : StageEvent → List EntityId
  | .receive msg =>
    match msg.content with
    | .clientLeaveRequest _ _ => (getClientFromEndpointUUID h msg.originEndpointUUID).toList
    | .entityDestroyRequest path => (h.findEntity path).toList
    | _ => []
  | .heartbeatTimer => (checkHeartbeats h).2
  | _ => []

/-- The timer removes performers. -/
theorem mem_checkHeartbeats {h : ZstHierarchy} :
    ∀ e ∈ (checkHeartbeats h).2, e ∈ getPerformers h := by
  unfold checkHeartbeats
  refine List.foldlRecOn (motive := fun (state : ZstHierarchy × List EntityId) =>
    ∀ e ∈ state.2, e ∈ getPerformers h) _ _ (by simp) fun state hstate d hd e he => ?_
  dsimp only at he
  split at he
  · rcases List.mem_append.mp he with he | he
    · exact hstate e he
    · exact List.mem_singleton.mp he ▸ hd
  · exact hstate e he

/-- Whoever is removed is owned by the stage or found at a path. -/
theorem mem_leavers {h : ZstHierarchy} {event : StageEvent} {e : EntityId}
    (he : e ∈ leavers h event) : e ∈ h.proxies ∨ ∃ path, h.findEntity path = some e := by
  cases event with
  | receive msg =>
    cases hcontent : msg.content with
    | clientLeaveRequest =>
      simp only [leavers, hcontent, Option.mem_toList] at he
      exact Or.inl (List.mem_of_mem_filter (List.mem_of_find?_eq_some he))
    | entityDestroyRequest path =>
      simp only [leavers, hcontent, Option.mem_toList] at he
      exact Or.inr ⟨path, he⟩
    | _ => simp [leavers, hcontent] at he
  | heartbeatTimer => exact Or.inl (List.mem_of_mem_filter (mem_checkHeartbeats e he))
  | _ => simp [leavers] at he

/-- What a step comes to, seen from the hierarchy. -/
inductive Shift (h : ZstHierarchy) (event : StageEvent) (k : ZstHierarchy) : Prop
  | stands (hk : Standing h k)
  | dequeues (events : List HierarchyEvent) (hevent : event = .hierarchyEvent)
      (hk : Standing { h with hierarchyEvents := events } k)
  | connects (message : Nat) (response : Option Content) (output input : EntityId)
      (follow : ConnectAction) (hevent : event = .respond message response)
      (hcallback : callback h message = some (.clientsConnected output input follow))
      (hok : verifySignal response .ok = true) (hout : h.live output = true)
      (hin : h.live input = true) (hk : Standing (subscribe h output input) k)
  | removes (l : ZstHierarchy) (hl : Standing h l)
      (hk : Standing ((leavers h event).foldl (removeProxyEntity stageOverrides) l) k)
  | renames (msg : ZstStageMessage) (buffer : EntityBuffer) (originalPath : ZstURI)
      (proxy : EntityId) (hevent : event = .receive msg)
      (hcontent : msg.content = .entityUpdateRequest buffer originalPath)
      (hfind : h.findEntity originalPath = some proxy)
      (hk : Standing (h.updateProxyEntity stageOverrides proxy buffer) k)
  | joins (msg : ZstStageMessage) (performer : EntityBuffer) (address : String)
      (l : ZstHierarchy) (hevent : event = .receive msg)
      (hcontent : msg.content = .clientJoinRequest performer address)
      (hfind : h.findEntity performer.uri = none)
      (hadd : addProxyEntity stageOverrides h
        (Entity.performerStageProxy performer address msg.originEndpointUUID) = .ok l)
      (hk : Standing l k)
  | creates (msg : ZstStageMessage) (buffer : EntityBuffer) (l : ZstHierarchy)
      (hevent : event = .receive msg) (hcontent : msg.content = .entityCreateRequest buffer)
      (hfind : h.findEntity buffer.uri = none) (huri : buffer.uri ≠ [])
      (hadd : addProxyEntity stageOverrides h (Entity.unpack buffer) = .ok l)
      (hk : Standing l k)
  | forgets (path : ZstURI) (hk : Standing (h.removeEntityFromLookup path) k)
  | buries (e : EntityId) (he : e ∈ h.proxies) (hk : Standing (h.bury e) k)

theorem receive_shift {msg : ZstStageMessage} (hrun : receive s msg = .ok t) :
    Shift s.hierarchy (.receive msg) t.hierarchy := by
  by_cases hcalm : EntityPreserving msg.content
  · exact .stands (receive_calm hcalm hrun)
  obtain ⟨l, response, hdispatch, rfl⟩ := receive_not_calm hcalm hrun
  have hrespond : Standing l (respond l msg response) := .respond l msg response
  unfold ZstStageHierarchy.dispatch at hdispatch
  cases hcontent : msg.content with
  | clientJoinRequest performer address =>
    rw [hcontent] at hdispatch
    rcases createClientHandler_ok hdispatch with rfl | ⟨hfind, hadd⟩
    · exact .stands hrespond
    · exact .joins msg performer address l rfl hcontent hfind hadd hrespond
  | clientLeaveRequest path reason =>
    rw [hcontent] at hdispatch
    obtain ⟨performer, hclient, hremoved⟩ := clientLeavingHandler_ok hdispatch
    refine .removes s.hierarchy (.refl _) ?_
    simp only [leavers, hcontent, hclient, Option.toList_some, List.foldl_cons, List.foldl_nil]
    exact hremoved.trans hrespond
  | entityCreateRequest buffer =>
    rw [hcontent] at hdispatch
    rcases createEntityHandler_ok hdispatch with rfl | ⟨x, hx, hadd⟩
    · exact .stands hrespond
    · obtain ⟨hfind, rfl⟩ := createProxyEntity_eq_some hx
      exact .creates msg buffer l rfl hcontent hfind (createEntityHandler_uri hdispatch) hadd
        hrespond
  | entityUpdateRequest buffer originalPath =>
    rw [hcontent] at hdispatch
    rcases updateEntityHandler_ok hdispatch with rfl | ⟨proxy, hfind, hk⟩
    · exact .stands hrespond
    · exact .renames msg buffer originalPath proxy rfl hcontent hfind (hk.trans hrespond)
  | entityDestroyRequest path =>
    rw [hcontent] at hdispatch
    obtain rfl : (destroyEntityHandler s.hierarchy path _).1 = l :=
      congrArg Prod.fst (Except.ok.inj hdispatch)
    rcases destroyEntityHandler_cases s.hierarchy path
        (getClientFromEndpointUUID s.hierarchy msg.originEndpointUUID) with heq | ⟨e, hfind, hk⟩
    · rw [heq] at hrespond ⊢
      exact .stands hrespond
    · refine .removes s.hierarchy (.refl _) ?_
      simp only [leavers, hcontent, hfind, Option.toList_some, List.foldl_cons, List.foldl_nil]
      exact hk.trans hrespond
  | _ =>
    rw [hcontent] at hcalm
    exact absurd trivial hcalm

/-- Every step is one of these. -/
theorem step_shift {event : StageEvent} (hrun : step s event = .ok t) :
    Shift s.hierarchy event t.hierarchy := by
  cases event with
  | receive msg => exact receive_shift hrun
  | respond message response =>
    simp only [ZstStage.step] at hrun
    split at hrun
    · rename_i action hcallback
      rcases onRecvResponse_cases hrun with
        hk | ⟨output, input, follow, rfl, hok, hout, hin, hk⟩
      · exact .stands hk
      · exact .connects message response output input follow rfl hcallback hok hout hin hk
    · obtain rfl := Except.ok.inj hrun
      exact .stands (.refl _)
  | heartbeatTimer =>
    obtain rfl := Except.ok.inj hrun
    exact .removes (checkHeartbeats s.hierarchy).1 (checkHeartbeats_standing _) (.refl _)
  | hierarchyEvent =>
    simp only [ZstStage.step] at hrun
    split at hrun
    · obtain rfl := Except.ok.inj hrun
      exact .stands (.refl _)
    · rename_i event rest hevents
      exact .dequeues rest rfl (Standing.processHierarchyEvent hrun)
  | synchronisableEvent =>
    obtain rfl := Except.ok.inj hrun
    exact .stands (Standing.processItems 1 s.hierarchy)
  | cleanup =>
    obtain rfl := Except.ok.inj hrun
    change Shift s.hierarchy .cleanup (reapAll stageOverrides 1 s.hierarchy)
    cases hops : s.hierarchy.cleanupOps with
    | nil =>
      simp only [reapAll, hops]
      exact .stands (.refl _)
    | cons e rest =>
      simp only [reapAll, hops]
      rcases cleanup_cases { s.hierarchy with cleanupOps := rest } e with hk | hk | ⟨he, hk⟩
      · exact .stands { hk with }
      · exact .forgets _ { hk with }
      · exact .buries e he { hk with }
  | forgetDead =>
    obtain rfl := Except.ok.inj hrun
    exact .stands { Standing.refl s.hierarchy with }
  | cableEvents =>
    obtain rfl := Except.ok.inj hrun
    refine .stands ?_
    rw [Standing.cableEvents_hierarchy]
    exact .refl _

end Shifts

/-! ## The proxies -/

/-- The second hierarchy has the same objects, in whatever place, and its
proxies are still marked as such. -/
structure SameProxies (h k : ZstHierarchy) : Prop where
  isProxy : ∀ e, (h.entities e).isProxy = true → (k.entities e).isProxy = true
  entityType : ∀ e, (k.entities e).entityType = (h.entities e).entityType
  next : k.next = h.next
  proxies : k.proxies = h.proxies

namespace SameProxies

variable {h k l : ZstHierarchy}

theorem trans (hk : SameProxies h k) (kl : SameProxies k l) : SameProxies h l :=
  ⟨fun e he => kl.isProxy e (hk.isProxy e he),
    fun e => (kl.entityType e).trans (hk.entityType e), kl.next.trans hk.next,
    kl.proxies.trans hk.proxies⟩

theorem of_standing (hk : Standing h k) : SameProxies h k :=
  ⟨fun e he => (hk.field Entity.isProxy (fun _ => rfl) e).trans he,
    hk.field Entity.entityType fun _ => rfl, hk.next, hk.proxies⟩

theorem of_treeEdit (hk : TreeEdit h k) : SameProxies h k :=
  ⟨fun e he => (hk.field Entity.isProxy (fun _ => rfl) e).trans he,
    hk.field Entity.entityType fun _ => rfl, hk.next, hk.proxies⟩

theorem setProxy (h : ZstHierarchy) (e : EntityId) : SameProxies h (h.setProxy e) := by
  refine ⟨fun d hd => ?_, fun d => ?_, rfl, rfl⟩
  · unfold ZstHierarchy.setProxy
    rw [modify_entities]
    split
    · rfl
    · exact hd
  · unfold ZstHierarchy.setProxy
    rw [modify_entities]
    split
    · rename_i hde
      rw [hde]
    · rfl

theorem refl (h : ZstHierarchy) : SameProxies h h :=
  of_standing (.refl h)

theorem getPerformers_eq (hk : SameProxies h k) : getPerformers k = getPerformers h := by
  simp only [getPerformers, hk.proxies, hk.entityType]

theorem removeFromParent (h : ZstHierarchy) (e : EntityId) :
    TreeEdit h (removeFromParent stageOverrides h e) := by
  unfold ZstHierarchy.removeFromParent
  split
  · exact TreeEdit.removeChild TreeEdit.stage_activation h _ e
  · exact .refl h

theorem removeProxyEntity (h : ZstHierarchy) (e : EntityId) :
    SameProxies h (h.removeProxyEntity stageOverrides e) := by
  unfold ZstHierarchy.removeProxyEntity
  split
  · refine (of_treeEdit (removeFromParent h e)).trans (of_standing ?_)
    exact (Standing.defersLeaving _ _).trans (Standing.foldl Standing.enqueueDeactivation _ _)
  · exact .refl h

theorem updateProxyEntity (h : ZstHierarchy) (e : EntityId) (buffer : EntityBuffer) :
    SameProxies h (h.updateProxyEntity stageOverrides e buffer) := by
  obtain ⟨k, hk, hupdate⟩ := updateProxyEntity_cases stageOverrides h e buffer
  have hcreatables : SameProxies h k := by
    rcases hk with rfl | ⟨-, -, rfl⟩
    · exact .refl k
    · refine .trans (of_treeEdit ?_) (of_standing (Standing.synchronisableHasEvent _ e))
      exact .of_modify h e _ fun _ => rfl
  rcases hupdate with hupdate | ⟨-, -, hupdate⟩
  · rwa [hupdate]
  · have hname := of_treeEdit
      (TreeEdit.setName TreeEdit.stage_activation (fun h _ _ => .refl h) k e buffer.uri.last)
    have hrenamed := hcreatables.trans hname
    rw [hupdate]
    exact ⟨hrenamed.isProxy, hrenamed.entityType, hrenamed.next, hrenamed.proxies⟩

end SameProxies

/-- The stage owns its proxies, each of them once. -/
structure Owned (h : ZstHierarchy) : Prop where
  nodup : h.proxies.Nodup
  allocated : ∀ e ∈ h.proxies, e < h.next
  proxy : ∀ e ∈ h.proxies, (h.entities e).isProxy = true

namespace Owned

variable {h k : ZstHierarchy}

theorem same (owned : Owned h) (hk : SameProxies h k) : Owned k := by
  refine ⟨by rw [hk.proxies]; exact owned.nodup, fun e he => ?_, fun e he => ?_⟩
  · rw [hk.proxies] at he
    rw [hk.next]
    exact owned.allocated e he
  · rw [hk.proxies] at he
    rw [hk.isProxy]
    exact owned.proxy e he

theorem standing (owned : Owned h) (hk : Standing h k) : Owned k :=
  owned.same (.of_standing hk)

theorem announce (owned : Owned h) {e : EntityId} (hnew : e ∉ h.proxies) (hnext : e < h.next)
    (hproxy : (h.entities e).isProxy = true) : Owned (h.announce e) := by
  have hmarked : SameProxies h ((h.getChildEntities e).foldl (fun h c =>
      (h.setProxy c).setActivationStatus c .activated) h) := by
    refine List.foldlRecOn (motive := SameProxies h) _ _ (.refl h) fun k hk c _ => ?_
    exact (hk.trans (.setProxy k c)).trans (.of_standing (Standing.setActivationStatus _ c _))
  unfold ZstHierarchy.announce
  generalize (h.getChildEntities e).foldl (fun h c =>
    (h.setProxy c).setActivationStatus c .activated) h = k at hmarked ⊢
  have hk := owned.same hmarked
  refine ⟨?_, fun d hd => ?_, fun d hd => ?_⟩
  · refine List.nodup_append.mpr ⟨hk.nodup, List.nodup_singleton e, ?_⟩
    rintro d hd c hc rfl
    rw [List.mem_singleton.mp hc, hmarked.proxies] at hd
    exact hnew hd
  · rcases List.mem_append.mp hd with hd | hd
    · exact hk.allocated d hd
    · rw [List.mem_singleton.mp hd]
      exact hmarked.next ▸ hnext
  · rcases List.mem_append.mp hd with hd | hd
    · exact hk.proxy d hd
    · rw [List.mem_singleton.mp hd]
      exact hmarked.isProxy e hproxy

/-- One more proxy, below whatever parent. -/
theorem addProxyEntity (owned : Owned h) {x : Entity}
    (hrun : ZstHierarchy.addProxyEntity stageOverrides h x = .ok k) : Owned k := by
  have hcases := addProxyEntity_cases stageOverrides h x
  simp only at hcases
  rw [hrun] at hcases
  have hfresh : h.next ∉ h.proxies := fun hmem => Nat.lt_irrefl _ (owned.allocated _ hmem)
  have halloc : Owned ((h.alloc x).1.setProxy h.next) := by
    refine ⟨owned.nodup, fun e he => Nat.lt_succ_of_lt (owned.allocated e he), fun e he => ?_⟩
    have hne : e ≠ h.next := fun heq => hfresh (heq ▸ he)
    simp only [ZstHierarchy.setProxy, alloc, modify_entities, hne, if_false,
      Function.update_of_ne hne]
    exact owned.proxy e he
  have hproxy : (((h.alloc x).1.setProxy h.next).entities h.next).isProxy = true := by
    simp [ZstHierarchy.setProxy]
  have hfinish : ∀ l, TreeEdit ((h.alloc x).1.setProxy h.next) l →
      Owned ((l.registerEntity h.next).announce h.next) := by
    intro l hl
    have hedit := SameProxies.of_treeEdit (hl.trans (TreeEdit.registerEntity l h.next))
    refine (halloc.same hedit).announce ?_ ?_ (hedit.isProxy _ hproxy)
    · rw [hedit.proxies]
      exact hfresh
    · rw [hedit.next]
      exact Nat.lt_succ_self h.next
  split at hcases
  · split at hcases
    · obtain rfl := Except.ok.inj hcases
      exact hfinish _ (TreeEdit.addChild TreeEdit.stage_activation _ _ _ true)
    · cases hcases
  · obtain rfl := Except.ok.inj hcases
    exact hfinish _ (.refl _)

theorem forgets (owned : Owned h) (path : ZstURI) : Owned (h.removeEntityFromLookup path) :=
  ⟨owned.nodup, owned.allocated, owned.proxy⟩

theorem buries (owned : Owned h) (e : EntityId) : Owned (h.bury e) := by
  refine ⟨owned.nodup.erase e, fun d hd => ?_, fun d hd => ?_⟩
  · exact owned.allocated d (List.mem_of_mem_erase hd)
  · have hproxy := owned.proxy d (List.mem_of_mem_erase hd)
    unfold bury
    by_cases hde : d = e
    · subst hde
      simpa using hproxy
    · simpa [hde] using hproxy

theorem subscribe (owned : Owned h) (output input : EntityId) :
    Owned (ZstStageSession.subscribe h output input) := by
  refine owned.same ⟨fun d hd => ?_, fun d => ?_, rfl, rfl⟩
  · unfold ZstStageSession.subscribe
    rw [modify_entities]
    split
    · rename_i hdo
      rw [← hdo]
      exact hd
    · exact hd
  · unfold ZstStageSession.subscribe
    rw [modify_entities]
    split
    · rename_i hdo
      rw [hdo]
      rfl
    · rfl

end Owned

/-- Every step of the stage keeps the proxies in order. -/
theorem Owned.step {s t : ZstSession} {event : StageEvent} (owned : Owned s.hierarchy)
    (hrun : ZstStage.step s event = .ok t) : Owned t.hierarchy := by
  cases step_shift hrun with
  | stands hk => exact owned.standing hk
  | dequeues events _ hk =>
    have hpopped : Owned { s.hierarchy with hierarchyEvents := events } :=
      ⟨owned.nodup, owned.allocated, owned.proxy⟩
    exact hpopped.standing hk
  | connects _ _ output input _ _ _ _ _ _ hk => exact (owned.subscribe output input).standing hk
  | removes l hl hk =>
    refine Owned.standing ?_ hk
    exact List.foldlRecOn (motive := Owned) _ _ (owned.standing hl) fun k hk e _ =>
      hk.same (.removeProxyEntity k e)
  | renames _ buffer _ proxy _ _ _ hk =>
    exact (owned.same (.updateProxyEntity s.hierarchy proxy buffer)).standing hk
  | joins _ _ _ _ _ _ _ hadd hk => exact (owned.addProxyEntity hadd).standing hk
  | creates _ _ _ _ _ _ _ hadd hk => exact (owned.addProxyEntity hadd).standing hk
  | forgets path hk => exact (owned.forgets path).standing hk
  | buries e _ hk => exact (owned.buries e).standing hk

theorem owned_opened : Owned opened.hierarchy :=
  ⟨List.nodup_nil, by simp [opened, ofList], by simp [opened, ofList]⟩

/-! ## Steps that move nobody -/

/-- The step renames nobody and takes nobody from a parent, and who joins has a
path. -/
def KeepsPlaces (s : ZstSession) : StageEvent → Prop
  | .receive msg =>
    match msg.content with
    | .clientJoinRequest performer _ => performer.uri ≠ []
    | .clientLeaveRequest _ _ =>
      ∀ e ∈ getClientFromEndpointUUID s.hierarchy msg.originEndpointUUID,
        s.hierarchy.parent e = none
    | .entityUpdateRequest _ originalPath => s.hierarchy.findEntity originalPath = none
    | .entityDestroyRequest path =>
      ∀ e ∈ s.hierarchy.findEntity path, s.hierarchy.parent e = none
    | _ => True
  | .heartbeatTimer => ∀ e ∈ (checkHeartbeats s.hierarchy).2, s.hierarchy.parent e = none
  | _ => True

instance (s : ZstSession) : ∀ event, Decidable (KeepsPlaces s event)
  | .receive ⟨content, _, endpoint⟩ =>
    match content with
    | .clientJoinRequest performer _ => inferInstanceAs (Decidable (performer.uri ≠ []))
    | .clientLeaveRequest _ _ =>
      inferInstanceAs (Decidable (∀ e ∈ getClientFromEndpointUUID s.hierarchy endpoint, _))
    | .entityUpdateRequest _ originalPath =>
      inferInstanceAs (Decidable (s.hierarchy.findEntity originalPath = none))
    | .entityDestroyRequest path =>
      inferInstanceAs (Decidable (∀ e ∈ s.hierarchy.findEntity path, _))
    | .signalMessage _ | .clientGraphHandshakeListen _ _ | .clientGraphHandshakeStart _ _
    | .clientGraphHandshakeStop _ | .entityCreateRequest _ | .entityObserveRequest _
    | .entityTakeOwnershipRequest _ _ | .factoryCreateEntityRequest _ _
    | .factoryCreateEntityAck _ | .cableCreateRequest _ | .cableDestroyRequest _
    | .serverStatusMessage => inferInstanceAs (Decidable True)
  | .heartbeatTimer => inferInstanceAs (Decidable (∀ e ∈ (checkHeartbeats s.hierarchy).2, _))
  | .respond _ _ | .hierarchyEvent | .synchronisableEvent | .cleanup | .forgetDead
  | .cableEvents => inferInstanceAs (Decidable True)

/-- What such a step comes to. -/
inductive Change (h : ZstHierarchy) (event : StageEvent) (k : ZstHierarchy) : Prop
  | stands (hk : Standing h k)
  | dequeues (events : List HierarchyEvent) (hevent : event = .hierarchyEvent)
      (hk : Standing { h with hierarchyEvents := events } k)
  | connects (message : Nat) (response : Option Content) (output input : EntityId)
      (follow : ConnectAction) (hevent : event = .respond message response)
      (hcallback : callback h message = some (.clientsConnected output input follow))
      (hok : verifySignal response .ok = true) (hout : h.live output = true)
      (hin : h.live input = true) (hk : Standing (subscribe h output input) k)
  | joins (msg : ZstStageMessage) (performer : EntityBuffer) (address : String)
      (l : ZstHierarchy) (hevent : event = .receive msg)
      (hcontent : msg.content = .clientJoinRequest performer address)
      (hfind : h.findEntity performer.uri = none)
      (hadd : addProxyEntity stageOverrides h
        (Entity.performerStageProxy performer address msg.originEndpointUUID) = .ok l)
      (hk : Standing l k)
  | creates (msg : ZstStageMessage) (buffer : EntityBuffer) (l : ZstHierarchy)
      (hevent : event = .receive msg) (hcontent : msg.content = .entityCreateRequest buffer)
      (hfind : h.findEntity buffer.uri = none) (huri : buffer.uri ≠ [])
      (hadd : addProxyEntity stageOverrides h (Entity.unpack buffer) = .ok l)
      (hk : Standing l k)
  | forgets (path : ZstURI) (hk : Standing (h.removeEntityFromLookup path) k)
  | buries (e : EntityId) (he : e ∈ h.proxies) (hk : Standing (h.bury e) k)

section Changes

variable {s t : ZstSession}

/-- Whoever leaves in such a step stands below nobody. -/
theorem KeepsPlaces.parent_eq_none {event : StageEvent} (hsettled : KeepsPlaces s event)
    {e : EntityId}
    (he : e ∈ leavers s.hierarchy event) : s.hierarchy.parent e = none := by
  cases event with
  | receive msg =>
    unfold KeepsPlaces at hsettled
    cases hcontent : msg.content with
    | clientLeaveRequest | entityDestroyRequest =>
      simp only [leavers, hcontent, Option.mem_toList] at he
      simp only [hcontent] at hsettled
      exact hsettled e he
    | _ => simp [leavers, hcontent] at he
  | heartbeatTimer => exact hsettled e he
  | _ => simp [leavers] at he

/-- A step moves nobody but who arrives, and who is deleted. -/
theorem step_change {event : StageEvent} (hsettled : KeepsPlaces s event)
    (hrun : step s event = .ok t) : Change s.hierarchy event t.hierarchy := by
  cases step_shift hrun with
  | stands hk => exact .stands hk
  | dequeues events hevent hk => exact .dequeues events hevent hk
  | connects message response output input follow hevent hcallback hok hout hin hk =>
    exact .connects message response output input follow hevent hcallback hok hout hin hk
  | removes l hl hk =>
    refine .stands ((hl.trans ?_).trans hk)
    refine List.foldlRecOn (motive := Standing l) _ _ (.refl l) fun k hk e he =>
      hk.trans (Standing.removeProxyEntity ?_)
    rw [hk.parent_eq, hl.parent_eq]
    exact hsettled.parent_eq_none he
  | renames msg _ originalPath proxy hevent hcontent hfind _ =>
    subst hevent
    simp only [KeepsPlaces, hcontent] at hsettled
    rw [hsettled] at hfind
    cases hfind
  | joins msg performer address l hevent hcontent hfind hadd hk =>
    exact .joins msg performer address l hevent hcontent hfind hadd hk
  | creates msg buffer l hevent hcontent hfind huri hadd hk =>
    exact .creates msg buffer l hevent hcontent hfind huri hadd hk
  | forgets path hk => exact .forgets path hk
  | buries e he hk => exact .buries e he hk

end Changes

/-- The stage finds its entities by their paths, and owns what is not deleted. -/
structure FindsOwned (h : ZstHierarchy) : Prop where
  root : h.root = none
  keyed : Keyed h
  owned : Owned h
  live : ∀ e, h.live e = true ↔ e ∈ h.proxies

namespace FindsOwned

variable {h k : ZstHierarchy}

theorem findEntity_eq (sound : FindsOwned h) (path : ZstURI) :
    h.findEntity path = h.lookup path := by
  unfold findEntity
  rw [sound.root]

theorem standing (sound : FindsOwned h) (hk : Standing h k) : FindsOwned k := by
  refine ⟨hk.root.trans sound.root, ⟨fun q e hq => ?_, fun q e hq => ?_, ?_⟩,
    sound.owned.standing hk, fun e => ?_⟩
  · rw [hk.field Entity.uri fun _ => rfl]
    exact sound.keyed.uri q e (hk.findEntity_eq q ▸ hq)
  · rw [hk.next]
    exact sound.keyed.allocated q e (hk.findEntity_eq q ▸ hq)
  · rw [hk.findEntity_eq]
    exact sound.keyed.nowhere
  · rw [hk.live, hk.proxies]
    exact sound.live e

theorem dequeues (sound : FindsOwned h) (events : List HierarchyEvent) :
    FindsOwned { h with hierarchyEvents := events } :=
  ⟨sound.root, ⟨sound.keyed.uri, sound.keyed.allocated, sound.keyed.nowhere⟩,
    ⟨sound.owned.nodup, sound.owned.allocated, sound.owned.proxy⟩, sound.live⟩

theorem subscribe_uri (h : ZstHierarchy) (output input e : EntityId) :
    ((subscribe h output input).entities e).uri = (h.entities e).uri := by
  unfold subscribe
  rw [modify_entities]
  split
  · rename_i heq
    rw [heq]
    rfl
  · rfl

theorem subscribe (sound : FindsOwned h) (output input : EntityId) :
    FindsOwned (ZstStageSession.subscribe h output input) := by
  have hfind : ∀ q, (ZstStageSession.subscribe h output input).findEntity q =
      h.findEntity q := fun q => by
    have hroot : (ZstStageSession.subscribe h output input).root = none := sound.root
    simp only [findEntity, hroot, sound.root]
    rfl
  refine ⟨sound.root, ⟨fun q e hq => ?_, fun q e hq => ?_, ?_⟩,
    sound.owned.subscribe output input, sound.live⟩
  · rw [subscribe_uri]
    exact sound.keyed.uri q e (hfind q ▸ hq)
  · exact sound.keyed.allocated q e (hfind q ▸ hq)
  · rw [hfind]
    exact sound.keyed.nowhere

theorem forgets (sound : FindsOwned h) (path : ZstURI) : FindsOwned
    (h.removeEntityFromLookup path) := by
  have hfind : ∀ {q e}, (h.removeEntityFromLookup path).findEntity q = some e →
      h.findEntity q = some e := by
    intro q e hq
    rw [sound.findEntity_eq]
    unfold findEntity removeEntityFromLookup at hq
    simp only [sound.root] at hq
    by_cases hqp : q = path
    · rw [hqp, Function.update_self] at hq
      cases hq
    · rwa [Function.update_of_ne hqp] at hq
  refine ⟨sound.root, ⟨fun q e hq => ?_, fun q e hq => ?_, ?_⟩,
    ⟨sound.owned.nodup, sound.owned.allocated, sound.owned.proxy⟩, sound.live⟩
  · exact sound.keyed.uri q e (hfind hq)
  · exact sound.keyed.allocated q e (hfind hq)
  · cases hnowhere : (h.removeEntityFromLookup path).findEntity [] with
    | none => rfl
    | some e =>
      have hfound := hfind hnowhere
      rw [sound.keyed.nowhere] at hfound
      cases hfound

theorem bury_entities (h : ZstHierarchy) (e d : EntityId) :
    (h.bury e).entities d = if d = e then { h.entities e with children := [] }
      else h.entities d := by
  simp [bury, Function.update_apply]

theorem buries (sound : FindsOwned h) (e : EntityId) : FindsOwned (h.bury e) := by
  have hforgotten := sound.forgets (h.entities e).uri
  have huri : ∀ d, ((h.bury e).entities d).uri = (h.entities d).uri := fun d => by
    rw [bury_entities]
    split
    · rename_i hde
      rw [hde]
    · rfl
  have hfind : ∀ q, (h.bury e).findEntity q =
      (h.removeEntityFromLookup (h.entities e).uri).findEntity q := fun q => by
    simp only [findEntity, bury, removeEntityFromLookup, sound.root]
  refine ⟨sound.root, ⟨fun q d hq => ?_, fun q d hq => ?_, ?_⟩,
    ⟨sound.owned.nodup.erase e, fun d hd => ?_, fun d hd => ?_⟩, fun d => ?_⟩
  · rw [huri]
    exact hforgotten.keyed.uri q d (hfind q ▸ hq)
  · exact hforgotten.keyed.allocated q d (hfind q ▸ hq)
  · rw [hfind]
    exact hforgotten.keyed.nowhere
  · exact sound.owned.allocated d (List.mem_of_mem_erase hd)
  · have hproxy := sound.owned.proxy d (List.mem_of_mem_erase hd)
    rw [bury_entities]
    split
    · rename_i hde
      rw [hde] at hproxy
      exact hproxy
    · exact hproxy
  · simp only [bury, Function.update_apply, sound.owned.nodup.mem_erase_iff]
    split
    · rename_i hde
      simp [hde]
    · rename_i hde
      simp [hde, sound.live d]

/-- Who arrives under a new path has it to itself. -/
theorem arrive (sound : FindsOwned h) {x : Entity} (unplaced : Unplaced x) (huri : x.uri ≠ [])
    (hnew : h.findEntity x.uri = none) {l : ZstHierarchy}
    (hadd : ZstHierarchy.addProxyEntity stageOverrides h x = .ok l) :
    l = h.arrive x ∧ FindsOwned l := by
  have howned := sound.owned.addProxyEntity hadd
  obtain rfl := eq_arrive_of_ok (sound.keyed.above _) unplaced hadd
  refine ⟨rfl, sound.root, sound.keyed.arrive hnew huri, howned, fun e => ?_⟩
  simp only [ZstHierarchy.arrive, Function.update_apply, List.mem_append, List.mem_singleton]
  split
  · rename_i heq
    simp [heq]
  · rename_i hne
    simp [hne, sound.live e]

theorem change {event : StageEvent} (sound : FindsOwned h)
    (hsettled : ∀ msg performer address, event = .receive msg →
      msg.content = .clientJoinRequest performer address → performer.uri ≠ [])
    (hchange : Change h event k) : FindsOwned k := by
  cases hchange with
  | stands hk => exact sound.standing hk
  | dequeues events _ hk => exact (sound.dequeues events).standing hk
  | connects _ _ output input _ _ _ _ _ _ hk => exact (sound.subscribe output input).standing hk
  | joins msg performer address l hevent hcontent hfind hadd hk =>
    refine ((sound.arrive (unplaced_performerStageProxy _ _ _) ?_ hfind hadd).2).standing hk
    exact hsettled msg performer address hevent hcontent
  | creates _ buffer l _ _ hfind huri hadd hk =>
    exact ((sound.arrive (unplaced_unpack buffer) huri hfind hadd).2).standing hk
  | forgets path hk => exact (sound.forgets path).standing hk
  | buries e _ hk => exact (sound.buries e).standing hk

/-- The stage stays sound while nobody is renamed. -/
theorem step {s t : ZstSession} {event : StageEvent} (sound : FindsOwned s.hierarchy)
    (hsettled : KeepsPlaces s event) (hrun : ZstStage.step s event = .ok t) :
    FindsOwned t.hierarchy := by
  refine sound.change (fun msg performer address hevent hcontent => ?_)
    (step_change hsettled hrun)
  subst hevent
  simp only [KeepsPlaces, hcontent] at hsettled
  exact hsettled

end FindsOwned

theorem sound_opened : FindsOwned opened.hierarchy :=
  ⟨rfl, ⟨by simp [opened, ofList, findEntity], by simp [opened, ofList, findEntity], rfl⟩,
    owned_opened, by simp [opened, ofList]⟩

end ZstStage

end Showtime
