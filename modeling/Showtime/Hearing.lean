import Showtime.Draining
import Showtime.StageRun
/-!
# What leaves the tree as it is

Cables, ownership, handshakes, heartbeats and arrivals that are announced: none
of the handlers behind them brings an entity, moves one, or tells one to leave.
-/

namespace Showtime.Draining

open ZstHierarchy ZstStageHierarchy ZstStageSession ZstStage

variable {h k : ZstHierarchy}

namespace Heard

theorem broadcast (h : ZstHierarchy) (content : Content) (excluded : Option EntityId) :
    Heard h (ZstStageHierarchy.broadcast h content excluded) := by
  rw [ZstStageHierarchy.broadcast_eq]
  exact .sends h _

theorem whisperTo (h : ZstHierarchy) (performer : EntityId) (content : Content)
    (msgID : Option ZstMsgID) (action : Option ResponseAction) :
    Heard h (ZstStageHierarchy.whisperTo h performer content msgID action) := by
  rw [ZstStageHierarchy.whisperTo_eq]
  exact .sends h _

theorem respond (h : ZstHierarchy) (msg : ZstStageMessage) (response : Signal) :
    Heard h (ZstStageHierarchy.respond h msg response) := by
  rw [ZstStageHierarchy.respond_eq]
  exact .sends h _

/-! ## Cables -/

theorem unplug (s : ZstSession) (address : ZstCableAddress) :
    Heard s.hierarchy (s.unplug address).hierarchy :=
  ZstSession.unplug_rule (P := fun t => Heard s.hierarchy t.hierarchy) address
    (fun t e ht => ht.trans (.modify t.hierarchy e
      (fun x => { x with cables := x.cables.erase address }) fun _ => rfl)) (.refl s.hierarchy)

theorem destroyCable (s : ZstSession) (c : CableId) :
    Heard s.hierarchy (ZstStageSession.destroyCable s c).hierarchy := by
  unfold ZstStageSession.destroyCable
  rw [ZstSession.destroyCableComplete_eq, ZstSession.enqueueCableDeactivation_hierarchy]
  refine .trans ?_ (unplug _ _)
  exact broadcast s.hierarchy _ none

theorem destroyCables (cables : List CableId) (s : ZstSession) :
    Heard s.hierarchy (cables.foldl ZstStageSession.destroyCable s).hierarchy :=
  List.foldlRecOn (motive := fun t => Heard s.hierarchy t.hierarchy) _ _ (.refl s.hierarchy)
    fun t ht c _ => ht.trans (destroyCable t c)

theorem plugAddCable (s : ZstSession) (e : EntityId) (address : ZstCableAddress) :
    Heard s.hierarchy (s.plugAddCable e address).hierarchy :=
  .modify s.hierarchy e
    (fun x => { x with cables := if address ∈ x.cables then x.cables else x.cables ++ [address] })
    fun _ => rfl

theorem createCable (s : ZstSession) (input output : EntityId) :
    Heard s.hierarchy (s.createCable input output).1.hierarchy := by
  unfold ZstSession.createCable
  dsimp only
  split
  · split
    · exact .refl _
    · rw [ZstSession.enqueueCableActivation_hierarchy]
      exact .refl _
  · refine .trans ?_ (plugAddCable _ output _)
    refine .trans ?_ (plugAddCable _ input _)
    exact .refl _

theorem plugged (s : ZstSession) (input output : EntityId) :
    Heard s.hierarchy (ConnectReplies.plugged s input output).hierarchy := by
  refine .trans ?_ (createCable _ input output)
  unfold ConnectReplies.makeRoom
  split
  · exact destroyCables _ s
  · exact .refl _

/-! ## Handlers of the session -/

section Session

variable {s t : ZstSession}

theorem connectClients (s : ZstSession) (output input : EntityId) (action : ConnectAction) :
    Heard s.hierarchy (ZstStageSession.connectClients s output input action).hierarchy := by
  rw [connectClients_eq]
  exact .sends _ _

theorem cableConnectFinished {cable : CableId} {sender : EntityId} {id : ZstMsgID}
    {signal : Signal} (hrun : ZstStageSession.cableConnectFinished s cable sender id signal = .ok t) :
    Heard s.hierarchy t.hierarchy := by
  obtain ⟨told, htold, -, rfl⟩ := cableConnectFinished_succeeded hrun
  refine .trans ?_ (whisperTo told sender _ _ _)
  rcases htold with ⟨-, -, rfl⟩ | ⟨-, rfl⟩
  · exact broadcast s.hierarchy _ none
  · exact .refl _

theorem onConnected {action : ConnectAction} {response : Option Content}
    (hrun : ZstStageSession.onConnected s action response = .ok t) :
    Heard s.hierarchy t.hierarchy := by
  cases action with
  | none =>
    obtain rfl := Except.ok.inj hrun
    exact .refl _
  | cable cable sender id => exact cableConnectFinished hrun
  | observe sender id =>
    obtain ⟨sender, -, hreply⟩ := Library.bind_ok.mp hrun
    obtain rfl := Except.ok.inj hreply
    exact whisperTo s.hierarchy sender _ _ _

/-- The response to a request of the stage. -/
theorem onRecvResponse {action : ResponseAction} {response : Option Content}
    (hrun : ZstStageSession.onRecvResponse s action response = .ok t) :
    Heard s.hierarchy t.hierarchy := by
  cases action with
  | factoryEntityCreated sender path id =>
    obtain ⟨k, hfactory, hrun⟩ := Library.bind_ok.mp hrun
    obtain rfl := Except.ok.inj hrun
    unfold factoryEntityCreated at hfactory
    obtain ⟨performer, -, hfactory⟩ := Library.bind_ok.mp hfactory
    obtain rfl := Except.ok.inj hfactory
    dsimp only
    split
    · exact whisperTo _ _ _ _ _
    · exact (whisperTo _ _ _ _ _).trans (whisperTo _ _ _ _ _)
  | clientsConnected output input follow =>
    by_cases hok : verifySignal response .ok = true
    · obtain ⟨-, -, hfollow⟩ := clientsConnected_succeeded hok hrun
      refine .trans ?_ (onConnected hfollow)
      rw [completeClientConnection_eq]
      refine .trans ?_ (.sends (ZstStageSession.subscribe s.hierarchy output input) _)
      exact .modify s.hierarchy output _ fun _ => rfl
    · unfold ZstStageSession.onRecvResponse clientsConnected at hrun
      dsimp only at hrun
      rw [if_neg hok] at hrun
      obtain rfl := Except.ok.inj hrun
      exact .refl _
  | _ =>
    obtain rfl := Except.ok.inj hrun
    exact .refl _

theorem synchroniseClientGraphHandler (s : ZstSession) (sender : EntityId) :
    Heard s.hierarchy (ZstStageSession.synchroniseClientGraphHandler s sender).1.hierarchy :=
  .trans (foldl (fun h _ => whisperTo h sender _ _ _) _ _)
    (foldl (fun h _ => whisperTo h sender _ _ _) _ _)

theorem createCableHandler {msg : ZstStageMessage} {path : ZstCableAddress} {sender : EntityId}
    {response : Signal}
    (hrun : ZstStageSession.createCableHandler s msg path sender = .ok (t, response)) :
    Heard s.hierarchy t.hierarchy := by
  by_cases hplugs : s.findCable path = none ∧ (s.findInputPlug path.inputURI).isSome ∧
      (s.findOutputPlug path.outputURI).isSome
  · obtain ⟨hcable, hinput, houtput⟩ := hplugs
    obtain ⟨input, hinput⟩ := Option.isSome_iff_exists.mp hinput
    obtain ⟨output, houtput⟩ := Option.isSome_iff_exists.mp houtput
    rw [ConnectReplies.createCableHandler_found s msg path sender input output hcable hinput
      houtput] at hrun
    refine (plugged s input output).trans ?_
    unfold ConnectReplies.connectPlugs at hrun
    dsimp only at hrun
    obtain ⟨inputFirst, -, hrun⟩ := Library.bind_ok.mp hrun
    obtain ⟨outputFirst, -, hrun⟩ := Library.bind_ok.mp hrun
    obtain ⟨outputPerf, -, hrun⟩ := Library.bind_ok.mp hrun
    obtain ⟨inputPerf, -, hrun⟩ := Library.bind_ok.mp hrun
    split at hrun
    · obtain ⟨u, hfinished, hrun⟩ := Library.bind_ok.mp hrun
      obtain ⟨rfl, -⟩ := Prod.mk.inj (Except.ok.inj hrun)
      exact cableConnectFinished hfinished
    · obtain ⟨rfl, -⟩ := Prod.mk.inj (Except.ok.inj hrun)
      exact connectClients _ _ _ _
  · have hsame : t = s := by
      cases hcable : s.findCable path with
      | some cable =>
        unfold ZstStageSession.createCableHandler at hrun
        rw [hcable] at hrun
        exact (Prod.mk.inj (Except.ok.inj hrun)).1.symm
      | none =>
        have hmissing : s.findInputPlug path.inputURI = none ∨
            s.findOutputPlug path.outputURI = none := by
          by_contra hboth
          obtain ⟨hinput, houtput⟩ := not_or.mp hboth
          exact hplugs ⟨hcable, Option.isSome_iff_ne_none.mpr hinput,
            Option.isSome_iff_ne_none.mpr houtput⟩
        rw [ConnectReplies.createCableHandler_refused s msg path sender hcable hmissing] at hrun
        exact (Prod.mk.inj (Except.ok.inj hrun)).1.symm
    rw [hsame]
    exact .refl _

theorem observeEntityHandler {msg : ZstStageMessage} {path : ZstURI} {sender : EntityId}
    {response : Signal}
    (hrun : ZstStageSession.observeEntityHandler s msg path sender = .ok (t, response)) :
    Heard s.hierarchy t.hierarchy := by
  by_cases hpath : path = []
  · unfold ZstStageSession.observeEntityHandler firstSegment at hrun
    rw [if_pos hpath] at hrun
    cases hrun
  rw [ConnectReplies.observeEntityHandler_eq s msg path sender hpath] at hrun
  split at hrun
  · obtain ⟨rfl, -⟩ := Prod.mk.inj (Except.ok.inj hrun)
    exact .refl _
  · split at hrun
    · obtain ⟨rfl, -⟩ := Prod.mk.inj (Except.ok.inj hrun)
      exact .refl _
    · split at hrun
      · obtain ⟨rfl, -⟩ := Prod.mk.inj (Except.ok.inj hrun)
        exact .refl _
      · obtain ⟨rfl, -⟩ := Prod.mk.inj (Except.ok.inj hrun)
        exact connectClients _ _ _ _

theorem setOwner (s : ZstSession) (e : EntityId) (owner : ZstURI) :
    Heard s.hierarchy
      (onHierarchy s fun h => h.modify e fun x => ZstStageSession.setOwner x owner).hierarchy := by
  refine .modify s.hierarchy e (fun x => ZstStageSession.setOwner x owner) fun x => ?_
  unfold ZstStageSession.setOwner
  split <;> rfl

theorem aquireEntityOwnershipHandler {path newOwner : ZstURI} {response : Signal}
    (hrun : ZstStageSession.aquireEntityOwnershipHandler s path newOwner = .ok (t, response)) :
    Heard s.hierarchy t.hierarchy := by
  unfold ZstStageSession.aquireEntityOwnershipHandler at hrun
  split at hrun
  · obtain ⟨rfl, -⟩ := Prod.mk.inj (Except.ok.inj hrun)
    exact .refl _
  · rename_i entity hentity
    dsimp only at hrun
    split at hrun
    · obtain ⟨receivers, -, hrun⟩ := Library.bind_ok.mp hrun
      obtain ⟨rfl, -⟩ := Prod.mk.inj (Except.ok.inj hrun)
      exact (setOwner s entity []).trans (broadcast _ _ none)
    · split at hrun
      · obtain ⟨rfl, -⟩ := Prod.mk.inj (Except.ok.inj hrun)
        exact .refl _
      · rename_i owner howner
        obtain ⟨receivers, -, hrun⟩ := Library.bind_ok.mp hrun
        obtain ⟨rfl, -⟩ := Prod.mk.inj (Except.ok.inj hrun)
        refine (setOwner s entity (s.hierarchy.entities owner).uri).trans ?_
        rw [foldl_connectClients_eq]
        exact (sends _ _).trans (broadcast _ _ none)

/-- No handler of the session brings anybody, or moves anybody. -/
theorem onReceiveMsg {msg : ZstStageMessage}
    (hrun : ZstStageSession.onReceiveMsg s msg = .ok t) : Heard s.hierarchy t.hierarchy := by
  unfold ZstStageSession.onReceiveMsg at hrun
  split at hrun
  · obtain rfl := Except.ok.inj hrun
    exact .refl _
  · rename_i sender hsender
    obtain ⟨⟨u, response⟩, hdispatch, hrun⟩ := Library.bind_ok.mp hrun
    obtain rfl := Except.ok.inj hrun
    refine .trans ?_ (respond u.hierarchy msg response)
    unfold ZstStageSession.dispatch at hdispatch
    split at hdispatch
    · obtain rfl := congrArg Prod.fst (Except.ok.inj hdispatch)
      unfold ZstStageSession.signalHandler
      split
      · exact synchroniseClientGraphHandler s sender
      · exact .refl _
    · exact createCableHandler hdispatch
    · obtain rfl := congrArg Prod.fst (Except.ok.inj hdispatch)
      unfold ZstStageSession.destroyCableHandler
      split
      · exact destroyCable s _
      · exact .refl _
    · exact observeEntityHandler hdispatch
    · exact aquireEntityOwnershipHandler hdispatch
    · obtain ⟨rfl, -⟩ := Prod.mk.inj (Except.ok.inj hdispatch)
      exact .refl _

end Session

/-! ## Handlers of the hierarchy -/

theorem hierarchyDispatch {msg : ZstStageMessage} {sender : Option EntityId} {response : Signal}
    (hcalm : EntityPreserving msg.content)
    (hrun : ZstStageHierarchy.dispatch h msg sender = .ok (k, response)) : Heard h k := by
  unfold ZstStageHierarchy.dispatch at hrun
  split at hrun
  case h_1 signal hcontent =>
    obtain rfl : (ZstStageHierarchy.signalHandler h signal sender).1 = k :=
      congrArg Prod.fst (Except.ok.inj hrun)
    unfold ZstStageHierarchy.signalHandler
    cases sender with
    | none => exact .refl h
    | some sender =>
      dsimp only
      split
      · exact .modify h sender (fun x => { x with heartbeatActive := true, missedHeartbeats := 0 })
          fun _ => rfl
      · exact .refl h
  case h_5 creatable name hcontent =>
    unfold factoryCreateEntityHandler at hrun
    dsimp only at hrun
    split at hrun
    · obtain ⟨rfl, -⟩ := Prod.mk.inj (Except.ok.inj hrun)
      exact .refl h
    · obtain ⟨first, -, hrun⟩ := Library.bind_ok.mp hrun
      split at hrun
      · obtain ⟨rfl, -⟩ := Prod.mk.inj (Except.ok.inj hrun)
        exact .refl h
      · obtain ⟨rfl, -⟩ := Prod.mk.inj (Except.ok.inj hrun)
        exact whisperTo h _ _ _ _
  case h_8 =>
    obtain ⟨rfl, -⟩ := Prod.mk.inj (Except.ok.inj hrun)
    exact .refl h
  all_goals
    rename_i hcontent
    rw [hcontent] at hcalm
    exact hcalm.elim

/-- A calm message. -/
theorem receive {s t : ZstSession} {msg : ZstStageMessage} (hcalm : EntityPreserving msg.content)
    (hrun : ZstStageSession.receive s msg = .ok t) : Heard s.hierarchy t.hierarchy := by
  obtain ⟨u, hsession, hrun⟩ := Library.bind_ok.mp hrun
  obtain ⟨k, hhierarchy, hrun⟩ := Library.bind_ok.mp hrun
  obtain rfl := Except.ok.inj hrun
  unfold ZstStageHierarchy.onReceiveMsg at hhierarchy
  obtain ⟨⟨l, response⟩, hdispatch, hrespond⟩ := Library.bind_ok.mp hhierarchy
  obtain rfl := Except.ok.inj hrespond
  exact ((onReceiveMsg hsession).trans (hierarchyDispatch hcalm hdispatch)).trans
    (respond l msg response)

/-- The first loop of the timer only counts heartbeats. -/
theorem checkHeartbeats (h : ZstHierarchy) : Heard h (ZstStage.checkHeartbeats h).1 := by
  unfold ZstStage.checkHeartbeats
  refine List.foldlRecOn (motive := fun (state : ZstHierarchy × List EntityId) =>
    Heard h state.1) _ _ (.refl h) fun state hstate e _ => hstate.trans ?_
  refine .modify state.1 e checkHeartbeat fun x => ?_
  unfold checkHeartbeat
  split <;> rfl

/-! ## The event loop -/

theorem onEntityArriving (h : ZstHierarchy) (e : EntityId) :
    Heard h (ZstStageSession.onEntityArriving h e) := by
  unfold ZstStageSession.onEntityArriving
  dsimp only
  split
  · exact .refl h
  · exact broadcast h _ _

theorem registerEntity (s : ZstSession) (e : EntityId) :
    Heard s.hierarchy (s.registerEntity e).hierarchy :=
  List.foldlRecOn (motive := Heard s.hierarchy) _ _ (.refl s.hierarchy) fun _ hk c _ =>
    hk.trans (.modify _ c _ fun _ => rfl)

/-- What the session does with an event of the hierarchy. -/
theorem processHierarchyEvent {s t : ZstSession} {event : HierarchyEvent}
    (hrun : ZstStageSession.processHierarchyEvent s event = .ok t) :
    Heard s.hierarchy t.hierarchy := by
  cases event with
  | entityArriving e | performerArriving e =>
    obtain ⟨e, -, hrun⟩ := Library.bind_ok.mp hrun
    obtain rfl := Except.ok.inj hrun
    exact (onEntityArriving s.hierarchy e).trans (registerEntity
      (ZstStageSession.onHierarchy s fun h => ZstStageSession.onEntityArriving h e) e)
  | factoryArriving e =>
    obtain ⟨e, -, hrun⟩ := Library.bind_ok.mp hrun
    obtain rfl := Except.ok.inj hrun
    exact onEntityArriving s.hierarchy e
  | entityLeaving path | performerLeaving path =>
    obtain rfl := Except.ok.inj hrun
    unfold ZstStageSession.disconnectCables
    split
    · exact .refl _
    · exact destroyCables _ s
  | factoryLeaving path | entityUpdated e =>
    obtain rfl := Except.ok.inj hrun
    exact .refl _

end Heard

/-! ## The tree -/

namespace Heard

variable (hk : Heard h k)

include hk

theorem uri (d : EntityId) : (k.entities d).uri = (h.entities d).uri :=
  hk.field Entity.uri (fun _ => rfl) d

theorem inTree_iff (d : EntityId) : k.InTree d ↔ h.InTree d := by
  unfold InTree
  rw [hk.lookup, hk.uri]

theorem hasChild_eq : k.HasChild = h.HasChild := by
  funext p c
  simp only [HasChild, hk.lookup, hk.field Entity.children fun _ => rfl]

theorem below_eq : k.Below = h.Below := by
  unfold Below
  rw [hk.hasChild_eq]

theorem parent_eq (e : EntityId) : k.parent e = h.parent e := by
  simp only [ZstHierarchy.parent, findEntity, hk.root, hk.lookup, hk.uri,
    hk.field Entity.parentAddress fun _ => rfl, hk.field Entity.registered fun _ => rfl]

theorem registeredTree (tree : RegisteredTree h) : RegisteredTree k :=
  tree.transfer hk.root hk.lookup (fun e _ => congrFun hk.live e) (fun e _ => hk.uri e)
    (fun e _ => hk.field Entity.parentAddress (fun _ => rfl) e)
    (fun e _ => hk.field Entity.children (fun _ => rfl) e)
    (fun e _ => hk.field Entity.registered (fun _ => rfl) e)
    (fun e _ => hk.field Entity.isComponent (fun _ => rfl) e)

end Heard

/-! ## Steps of the stage -/

/-- The step lets nobody come, move or leave, except for those who have been told
to leave before. -/
def MovesNobody (s : ZstSession) : StageEvent → Prop
  | .receive msg => EntityPreserving msg.content
  | .heartbeatTimer => (ZstStage.checkHeartbeats s.hierarchy).2 = []
  | .respond _ _ | .hierarchyEvent | .synchronisableEvent | .cleanup | .forgetDead
  | .cableEvents => True

section Steps

variable {s t : ZstSession} {e : EntityId}

theorem drain_step {event : StageEvent} (hcalm : MovesNobody s event)
    (hrun : step s event = .ok t) : Drain stageOverrides s.hierarchy t.hierarchy := by
  cases event with
  | receive msg => exact .event _ (.receive hcalm hrun)
  | respond message response =>
    simp only [ZstStage.step] at hrun
    split at hrun
    · exact .event _ (.onRecvResponse hrun)
    · obtain rfl := Except.ok.inj hrun
      exact .event _ (.refl _)
  | heartbeatTimer =>
    obtain rfl := Except.ok.inj hrun
    have hheard := Heard.checkHeartbeats s.hierarchy
    unfold onHierarchy stageHeartbeatTimer
    unfold MovesNobody at hcalm
    dsimp only at hcalm ⊢
    rw [hcalm]
    exact .event _ hheard
  | hierarchyEvent =>
    simp only [ZstStage.step] at hrun
    split at hrun
    · obtain rfl := Except.ok.inj hrun
      exact .event _ (.refl _)
    · have hheard := Heard.processHierarchyEvent hrun
      exact .event _ ⟨hheard.entities, hheard.live, hheard.next, hheard.lookup, hheard.proxies,
        hheard.root, hheard.deadIDs, hheard.synchronisableEvents, hheard.cleanupOps⟩
  | synchronisableEvent =>
    obtain rfl := Except.ok.inj hrun
    exact .item
  | cleanup =>
    obtain rfl := Except.ok.inj hrun
    exact .cleanup
  | forgetDead =>
    obtain rfl := Except.ok.inj hrun
    exact .forgetDead
  | cableEvents =>
    obtain rfl := Except.ok.inj hrun
    exact .event _ (by rw [Standing.cableEvents_hierarchy]; exact .refl _)

theorem drains_run {events : List StageEvent} (hcalm : Library.Along step MovesNobody s events)
    (hrun : Library.run step s events = .ok t) :
    Relation.ReflTransGen (Drain stageOverrides) s.hierarchy t.hierarchy := by
  induction events generalizing s with
  | nil =>
    obtain rfl := Except.ok.inj hrun
    exact .refl
  | cons event events ih =>
    obtain ⟨u, hstep, hrest⟩ := Library.run_cons_ok.mp hrun
    exact .head (drain_step hcalm.1 hstep) (ih (hcalm.2 u hstep) hrest)

/-- A step that removes one entity notes heartbeats, removes it, and sends. -/
theorem heard_of_leavers {event : StageEvent} (hleavers : leavers s.hierarchy event = [e])
    (hrun : step s event = .ok t) :
    ∃ h, Heard s.hierarchy h ∧ Heard (h.removeProxyEntity stageOverrides e) t.hierarchy := by
  cases event with
  | receive msg =>
    refine ⟨s.hierarchy, .refl _, ?_⟩
    have hcalm : ¬ EntityPreserving msg.content := by
      intro hcalm
      cases hcontent : msg.content with
      | clientLeaveRequest | entityDestroyRequest =>
        rw [hcontent] at hcalm
        exact hcalm.elim
      | _ =>
        simp only [leavers, hcontent] at hleavers
        cases hleavers
    obtain ⟨k, response, hdispatch, rfl⟩ := receive_not_calm hcalm hrun
    refine .trans ?_ (Heard.respond k msg response)
    unfold ZstStageHierarchy.dispatch at hdispatch
    cases hcontent : msg.content with
    | clientLeaveRequest path reason =>
      simp only [leavers, hcontent] at hdispatch hleavers
      unfold ZstStageHierarchy.clientLeavingHandler at hdispatch
      obtain ⟨performer, hperformer, hdispatch⟩ := Library.bind_ok.mp hdispatch
      obtain ⟨rfl, -⟩ := Prod.mk.inj (Except.ok.inj hdispatch)
      rw [deref_ok hperformer] at hleavers
      obtain rfl := (List.cons.inj hleavers).1
      exact Heard.broadcast _ _ none
    | entityDestroyRequest path =>
      simp only [leavers, hcontent] at hdispatch hleavers
      obtain rfl := congrArg Prod.fst (Except.ok.inj hdispatch)
      unfold ZstStageHierarchy.destroyEntityHandler
      cases hfind : s.hierarchy.findEntity path with
      | none =>
        rw [hfind] at hleavers
        cases hleavers
      | some d =>
        rw [hfind] at hleavers
        obtain rfl := (List.cons.inj hleavers).1
        exact Heard.broadcast _ _ _
    | _ =>
      simp only [leavers, hcontent] at hleavers
      cases hleavers
  | heartbeatTimer =>
    obtain rfl := Except.ok.inj hrun
    refine ⟨(checkHeartbeats s.hierarchy).1, .checkHeartbeats s.hierarchy, ?_⟩
    unfold onHierarchy stageHeartbeatTimer
    unfold leavers at hleavers
    dsimp only at hleavers ⊢
    rw [hleavers]
    exact .refl _
  | _ => cases hleavers

end Steps

end Showtime.Draining
