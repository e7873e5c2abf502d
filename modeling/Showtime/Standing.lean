import Showtime.ConnectReplies
import Showtime.Library.Run
/-!
# Steps that leave the tree alone

Most handlers of the stage change nothing about who is where: they send
messages, plug cables, note heartbeats or owners, and let entities leave later.
-/

namespace Showtime

open ZstHierarchy ZstStageHierarchy ZstStageSession

namespace ZstHierarchy

/-- An entity without the data that changes while it keeps its place. -/
def lasting (x : Entity) : Entity :=
  { x with
    currentOwner := []
    sessionAdaptor := false
    syncStatus := .deactivated
    synchronisableEvents := []
    heartbeatActive := false
    missedHeartbeats := 0
    cables := []
    canFire := false }

/-- The event tells that somebody leaves. -/
def IsLeaving : HierarchyEvent → Prop
  | .entityLeaving _ | .factoryLeaving _ | .performerLeaving _ => True
  | _ => False

/-- The second hierarchy has the same entities in the same places. Some more
may be about to leave, and messages may have been sent. -/
structure Standing (h k : ZstHierarchy) : Prop where
  entities : ∀ e, lasting (k.entities e) = lasting (h.entities e)
  live : k.live = h.live
  next : k.next = h.next
  lookup : k.lookup = h.lookup
  proxies : k.proxies = h.proxies
  root : k.root = h.root
  hierarchyEvents : ∃ leaving, k.hierarchyEvents = h.hierarchyEvents ++ leaving ∧
    ∀ event ∈ leaving, IsLeaving event
  sent : h.sent <+: k.sent

/-- The message neither brings nor moves nor removes anybody. -/
def EntityPreserving : Content → Prop
  | .clientJoinRequest _ _ | .clientLeaveRequest _ _ | .entityCreateRequest _
  | .entityUpdateRequest _ _ | .entityDestroyRequest _ => False
  | _ => True

namespace Standing

variable {h k l : ZstHierarchy}

theorem refl (h : ZstHierarchy) : Standing h h :=
  ⟨fun _ => rfl, rfl, rfl, rfl, rfl, rfl, ⟨[], by simp, by simp⟩, List.prefix_refl _⟩

theorem trans (hk : Standing h k) (kl : Standing k l) : Standing h l := by
  obtain ⟨first, hfirst, hfirstLeaving⟩ := hk.hierarchyEvents
  obtain ⟨second, hsecond, hsecondLeaving⟩ := kl.hierarchyEvents
  refine ⟨fun e => (kl.entities e).trans (hk.entities e), kl.live.trans hk.live,
    kl.next.trans hk.next, kl.lookup.trans hk.lookup, kl.proxies.trans hk.proxies,
    kl.root.trans hk.root, ⟨first ++ second, ?_, fun event hevent => ?_⟩, hk.sent.trans kl.sent⟩
  · rw [hsecond, hfirst, List.append_assoc]
  · rcases List.mem_append.mp hevent with hevent | hevent
    · exact hfirstLeaving event hevent
    · exact hsecondLeaving event hevent

theorem field {β : Type} (hk : Standing h k) (f : Entity → β) (hf : ∀ x, f (lasting x) = f x)
    (e : EntityId) : f (k.entities e) = f (h.entities e) := by
  rw [← hf, hk.entities e, hf]

theorem modify (h : ZstHierarchy) (e : EntityId) (f : Entity → Entity)
    (hf : ∀ x, lasting (f x) = lasting x) : Standing h (h.modify e f) := by
  refine ⟨fun d => ?_, rfl, rfl, rfl, rfl, rfl, ⟨[], by simp, by simp⟩, List.prefix_refl _⟩
  rw [modify_entities]
  split
  · rename_i hde
    rw [hf, hde]
  · rfl

theorem foldl {α : Type} {f : ZstHierarchy → α → ZstHierarchy} (hf : ∀ h a, Standing h (f h a))
    (items : List α) (h : ZstHierarchy) : Standing h (items.foldl f h) := by
  induction items generalizing h with
  | nil => exact .refl h
  | cons a items ih => exact (hf h a).trans (ih (f h a))

theorem sends (h : ZstHierarchy) (messages : List Outgoing) :
    Standing h { h with sent := h.sent ++ messages } :=
  ⟨fun _ => rfl, rfl, rfl, rfl, rfl, rfl, ⟨[], by simp, by simp⟩, List.prefix_append _ _⟩

theorem findEntity_eq (hk : Standing h k) (path : ZstURI) :
    k.findEntity path = h.findEntity path := by
  simp only [findEntity, hk.root, hk.lookup, hk.field Entity.uri fun _ => rfl]

theorem parent_eq (hk : Standing h k) (e : EntityId) : k.parent e = h.parent e := by
  simp only [parent, hk.field Entity.parentAddress fun _ => rfl,
    hk.field Entity.registered fun _ => rfl, hk.findEntity_eq]

theorem getPerformers_eq (hk : Standing h k) : getPerformers k = getPerformers h := by
  simp only [getPerformers, hk.proxies, hk.field Entity.entityType fun _ => rfl]

theorem getClientFromEndpointUUID_eq (hk : Standing h k) (endpoint : Endpoint) :
    getClientFromEndpointUUID k endpoint = getClientFromEndpointUUID h endpoint := by
  simp only [getClientFromEndpointUUID, hk.getPerformers_eq,
    hk.field Entity.stageProxy fun _ => rfl]

theorem sameShape (hk : Standing h k) : SameShape h k :=
  ⟨hk.next, hk.findEntity_eq, hk.field Entity.registered fun _ => rfl,
    hk.field Entity.isComponent fun _ => rfl, hk.field Entity.children fun _ => rfl⟩

theorem getChildEntities_eq (hk : Standing h k) (e : EntityId) :
    k.getChildEntities e = h.getChildEntities e :=
  hk.sameShape.getChildEntities_eq e

theorem whisperTo (h : ZstHierarchy) (performer : EntityId) (content : Content)
    (msgID : Option ZstMsgID) (action : Option ResponseAction) :
    Standing h (ZstStageHierarchy.whisperTo h performer content msgID action) := by
  rw [whisperTo_eq]
  exact .sends h _

theorem broadcast (h : ZstHierarchy) (content : Content) (excluded : Option EntityId) :
    Standing h (ZstStageHierarchy.broadcast h content excluded) := by
  rw [broadcast_eq]
  exact .sends h _

theorem respond (h : ZstHierarchy) (msg : ZstStageMessage) (response : Signal) :
    Standing h (ZstStageHierarchy.respond h msg response) := by
  rw [respond_eq]
  exact .sends h _

theorem synchronisableHasEvent (h : ZstHierarchy) (e : EntityId) :
    Standing h (h.synchronisableHasEvent e) := by
  unfold ZstHierarchy.synchronisableHasEvent
  split
  · exact ⟨fun _ => rfl, rfl, rfl, rfl, rfl, rfl, ⟨[], by simp, by simp⟩, List.prefix_refl _⟩
  · exact .refl h

theorem setActivationStatus (h : ZstHierarchy) (e : EntityId) (status : ZstSyncStatus) :
    Standing h (h.setActivationStatus e status) :=
  .modify h e _ fun _ => rfl

theorem enqueueDeactivation (h : ZstHierarchy) (e : EntityId) :
    Standing h (h.enqueueDeactivation e) := by
  unfold ZstHierarchy.enqueueDeactivation
  split
  · refine .trans ?_ (synchronisableHasEvent _ e)
    refine (setActivationStatus h e .deactivationQueued).trans ?_
    exact .modify _ e _ fun _ => rfl
  · exact .refl h

theorem deactivateEntityBase (h : ZstHierarchy) (e : EntityId) :
    Standing h (h.deactivateEntityBase e) := by
  unfold ZstHierarchy.deactivateEntityBase
  split
  · exact .refl h
  · exact setActivationStatus h e _

theorem isLeaving_of_mem {x : Entity} {event : HierarchyEvent} (hevent : event ∈ leavingEvent x) :
    IsLeaving event := by
  unfold leavingEvent at hevent
  cases hproxy : x.isProxy with
  | false => simp [hproxy] at hevent
  | true =>
    rw [hproxy, if_pos rfl] at hevent
    cases htype : x.entityType
    all_goals simp only [htype, List.mem_singleton, List.not_mem_nil] at hevent
    all_goals rw [hevent]; trivial

theorem defersLeaving (h : ZstHierarchy) (x : Entity) :
    Standing h { h with hierarchyEvents := h.hierarchyEvents ++ leavingEvent x } :=
  ⟨fun _ => rfl, rfl, rfl, rfl, rfl, rfl, ⟨leavingEvent x, rfl, fun _ => isLeaving_of_mem⟩,
    List.prefix_refl _⟩

/-- An entity whose parent is not found is removed where it stands. -/
theorem removeProxyEntity {h : ZstHierarchy} {e : EntityId} (hparent : h.parent e = none) :
    Standing h (h.removeProxyEntity stageOverrides e) := by
  unfold ZstHierarchy.removeProxyEntity
  split
  · have hremove : h.removeFromParent stageOverrides e = h := by
      unfold removeFromParent
      rw [hparent]
    unfold destroyEntityComplete
    simp only [hremove]
    exact (defersLeaving h _).trans (foldl enqueueDeactivation _ _)
  · exact .refl h

/-! ## Cables -/

section Cables

theorem plugAddCable (s : ZstSession) (e : EntityId) (address : ZstCableAddress) :
    Standing s.hierarchy (s.plugAddCable e address).hierarchy :=
  .modify s.hierarchy e
    (fun x => { x with cables := if address ∈ x.cables then x.cables else x.cables ++ [address] })
    fun _ => rfl

theorem plugRemoveCable (s : ZstSession) (e : EntityId) (address : ZstCableAddress) :
    Standing s.hierarchy (s.plugRemoveCable e address).hierarchy :=
  .modify s.hierarchy e (fun x => { x with cables := x.cables.erase address }) fun _ => rfl

theorem destroyCableComplete (s : ZstSession) (c : CableId) :
    Standing s.hierarchy (s.destroyCableComplete c).hierarchy := by
  unfold ZstSession.destroyCableComplete
  simp only
  generalize (s.cableObjects c).address = address
  rw [ZstSession.enqueueCableDeactivation_hierarchy]
  cases s.findInputPlug address.inputURI with
  | none =>
    simp only
    split
    · exact plugRemoveCable s _ address
    · exact .refl _
  | some input =>
    have hinput := plugRemoveCable s input address
    simp only
    split
    · exact hinput.trans (plugRemoveCable _ _ address)
    · exact hinput

theorem destroyCable (s : ZstSession) (c : CableId) :
    Standing s.hierarchy (ZstStageSession.destroyCable s c).hierarchy := by
  refine .trans ?_ (destroyCableComplete _ c)
  exact broadcast s.hierarchy _ none

theorem destroyCables (cables : List CableId) (s : ZstSession) :
    Standing s.hierarchy (cables.foldl ZstStageSession.destroyCable s).hierarchy := by
  induction cables generalizing s with
  | nil => exact .refl _
  | cons c cables ih => exact (destroyCable s c).trans (ih _)

theorem createCable (s : ZstSession) (input output : EntityId) :
    Standing s.hierarchy (s.createCable input output).1.hierarchy := by
  unfold ZstSession.createCable
  simp only
  split
  · split
    · exact .refl _
    · rw [ZstSession.enqueueCableActivation_hierarchy]
      exact .refl _
  · refine .trans ?_ (plugAddCable _ output _)
    refine .trans ?_ (plugAddCable _ input _)
    exact .refl _

theorem cableEvents_hierarchy (s : ZstSession) :
    s.processCableItems.reapCables.hierarchy = s.hierarchy := by
  have hevent : ∀ (s : ZstSession) (c : CableId) (event : SynchronisableEvent),
      (s.processCableEvent c event).hierarchy = s.hierarchy := by
    intro s c event
    cases event <;> rfl
  have hitem : ∀ (s : ZstSession) (c : CableId),
      (s.processCableItem c).hierarchy = s.hierarchy := by
    intro s c
    exact List.foldlRecOn (motive := fun (t : ZstSession) => t.hierarchy = s.hierarchy) _ _ rfl
      fun t ht event _ => (hevent t c event).trans ht
  exact List.foldlRecOn (motive := fun (t : ZstSession) => t.hierarchy = s.hierarchy) _ _ rfl
    fun t ht c _ => (hitem t c).trans ht

end Cables

/-! ## Handlers of the session -/

section Session

variable {s t : ZstSession}

theorem connectClients (s : ZstSession) (output input : EntityId) (action : ConnectAction) :
    Standing s.hierarchy (ZstStageSession.connectClients s output input action).hierarchy := by
  rw [connectClients_eq]
  exact .sends _ _

theorem cableConnectFinished {cable : CableId} {sender : EntityId} {id : ZstMsgID}
    {signal : Signal} (hrun : ZstStageSession.cableConnectFinished s cable sender id signal = .ok t) :
    Standing s.hierarchy t.hierarchy := by
  obtain ⟨told, htold, -, rfl⟩ := cableConnectFinished_succeeded hrun
  refine .trans ?_ (whisperTo told sender _ _ _)
  rcases htold with ⟨-, -, rfl⟩ | ⟨-, rfl⟩
  · exact broadcast s.hierarchy _ none
  · exact .refl _

theorem onConnected {action : ConnectAction} {response : Option Content}
    (hrun : ZstStageSession.onConnected s action response = .ok t) :
    Standing s.hierarchy t.hierarchy := by
  cases action with
  | none =>
    obtain rfl := Except.ok.inj hrun
    exact .refl _
  | cable cable sender id => exact cableConnectFinished hrun
  | observe sender id =>
    unfold ZstStageSession.onConnected at hrun
    obtain ⟨sender, -, hreply⟩ := Library.bind_ok.mp hrun
    obtain rfl := Except.ok.inj hreply
    exact whisperTo s.hierarchy sender _ _ _

theorem synchroniseClientGraphHandler (s : ZstSession) (sender : EntityId) :
    Standing s.hierarchy (ZstStageSession.synchroniseClientGraphHandler s sender).1.hierarchy := by
  unfold ZstStageSession.synchroniseClientGraphHandler
  simp only
  refine .trans ?_ (foldl (fun h c => whisperTo h sender _ _ _) _ _)
  exact foldl (fun h c => whisperTo h sender _ _ _) _ _

theorem createCableHandler {msg : ZstStageMessage} {path : ZstCableAddress} {sender : EntityId}
    {response : Signal}
    (hrun : ZstStageSession.createCableHandler s msg path sender = .ok (t, response)) :
    Standing s.hierarchy t.hierarchy := by
  cases hcable : s.findCable path with
  | some cable =>
    unfold ZstStageSession.createCableHandler at hrun
    rw [hcable] at hrun
    obtain ⟨rfl, -⟩ := Prod.mk.inj (Except.ok.inj hrun)
    exact .refl _
  | none =>
    cases hinput : s.findInputPlug path.inputURI with
    | none =>
      rw [ConnectReplies.createCableHandler_refused s msg path sender hcable (Or.inl hinput)] at hrun
      obtain ⟨rfl, -⟩ := Prod.mk.inj (Except.ok.inj hrun)
      exact .refl _
    | some input =>
      cases houtput : s.findOutputPlug path.outputURI with
      | none =>
        rw [ConnectReplies.createCableHandler_refused s msg path sender hcable
          (Or.inr houtput)] at hrun
        obtain ⟨rfl, -⟩ := Prod.mk.inj (Except.ok.inj hrun)
        exact .refl _
      | some output =>
        rw [ConnectReplies.createCableHandler_found s msg path sender input output hcable hinput
          houtput] at hrun
        have hplugged : Standing s.hierarchy
            (ConnectReplies.plugged s input output).hierarchy := by
          refine .trans ?_ (createCable _ input output)
          unfold ConnectReplies.makeRoom
          split
          · exact destroyCables _ s
          · exact .refl _
        unfold ConnectReplies.connectPlugs at hrun
        dsimp only at hrun
        obtain ⟨inputFirst, -, hrun⟩ := Library.bind_ok.mp hrun
        obtain ⟨outputFirst, -, hrun⟩ := Library.bind_ok.mp hrun
        obtain ⟨outputPerf, -, hrun⟩ := Library.bind_ok.mp hrun
        obtain ⟨inputPerf, -, hrun⟩ := Library.bind_ok.mp hrun
        split at hrun
        · obtain ⟨u, hfinished, hrun⟩ := Library.bind_ok.mp hrun
          obtain ⟨rfl, -⟩ := Prod.mk.inj (Except.ok.inj hrun)
          exact hplugged.trans (cableConnectFinished hfinished)
        · obtain ⟨rfl, -⟩ := Prod.mk.inj (Except.ok.inj hrun)
          exact hplugged.trans (connectClients _ _ _ _)

theorem observeEntityHandler {msg : ZstStageMessage} {path : ZstURI} {sender : EntityId}
    {response : Signal}
    (hrun : ZstStageSession.observeEntityHandler s msg path sender = .ok (t, response)) :
    Standing s.hierarchy t.hierarchy := by
  by_cases hpath : path = []
  · unfold ZstStageSession.observeEntityHandler firstSegment at hrun
    rw [if_pos hpath] at hrun
    cases hrun
  rw [ConnectReplies.observeEntityHandler_eq s msg path sender hpath] at hrun
  split at hrun
  · obtain ⟨rfl, -⟩ := Prod.mk.inj (Except.ok.inj hrun)
    exact .refl _
  · split at hrun
    · obtain ⟨rfl, -⟩ := Prod.mk.inj (Except.ok.inj hrun)
      exact .refl _
    · split at hrun
      · obtain ⟨rfl, -⟩ := Prod.mk.inj (Except.ok.inj hrun)
        exact .refl _
      · obtain ⟨rfl, -⟩ := Prod.mk.inj (Except.ok.inj hrun)
        exact connectClients _ _ _ _

theorem setOwner (s : ZstSession) (e : EntityId) (owner : ZstURI) :
    Standing s.hierarchy
      (onHierarchy s fun h => h.modify e fun x => ZstStageSession.setOwner x owner).hierarchy := by
  refine modify s.hierarchy e (fun x => ZstStageSession.setOwner x owner) fun x => ?_
  unfold ZstStageSession.setOwner
  split <;> rfl

theorem aquireEntityOwnershipHandler {path newOwner : ZstURI} {response : Signal}
    (hrun : ZstStageSession.aquireEntityOwnershipHandler s path newOwner = .ok (t, response)) :
    Standing s.hierarchy t.hierarchy := by
  unfold ZstStageSession.aquireEntityOwnershipHandler at hrun
  split at hrun
  · obtain ⟨rfl, -⟩ := Prod.mk.inj (Except.ok.inj hrun)
    exact .refl _
  · rename_i entity hentity
    dsimp only at hrun
    split at hrun
    · obtain ⟨receivers, -, hrun⟩ := Library.bind_ok.mp hrun
      obtain ⟨rfl, -⟩ := Prod.mk.inj (Except.ok.inj hrun)
      exact (setOwner s entity []).trans (broadcast _ _ none)
    · split at hrun
      · obtain ⟨rfl, -⟩ := Prod.mk.inj (Except.ok.inj hrun)
        exact .refl _
      · rename_i owner howner
        obtain ⟨receivers, -, hrun⟩ := Library.bind_ok.mp hrun
        obtain ⟨rfl, -⟩ := Prod.mk.inj (Except.ok.inj hrun)
        refine (setOwner s entity (s.hierarchy.entities owner).uri).trans ?_
        rw [foldl_connectClients_eq]
        exact (sends _ _).trans (broadcast _ _ none)

theorem signalHandler (s : ZstSession) (signal : Signal) (sender : EntityId) :
    Standing s.hierarchy (ZstStageSession.signalHandler s signal sender).1.hierarchy := by
  unfold ZstStageSession.signalHandler
  split
  · exact synchroniseClientGraphHandler s sender
  · exact .refl _

theorem destroyCableHandler (s : ZstSession) (path : ZstCableAddress) :
    Standing s.hierarchy (ZstStageSession.destroyCableHandler s path).1.hierarchy := by
  unfold ZstStageSession.destroyCableHandler
  split
  · exact destroyCable s _
  · exact .refl _

/-- No handler of the session moves anybody. -/
theorem sessionDispatch {msg : ZstStageMessage} {sender : EntityId} {response : Signal}
    (hrun : ZstStageSession.dispatch s msg sender = .ok (t, response)) :
    Standing s.hierarchy t.hierarchy := by
  unfold ZstStageSession.dispatch at hrun
  split at hrun
  · obtain rfl : (ZstStageSession.signalHandler s _ sender).1 = t :=
      congrArg Prod.fst (Except.ok.inj hrun)
    exact signalHandler s _ sender
  · exact createCableHandler hrun
  · obtain rfl : (ZstStageSession.destroyCableHandler s _).1 = t :=
      congrArg Prod.fst (Except.ok.inj hrun)
    exact destroyCableHandler s _
  · exact observeEntityHandler hrun
  · exact aquireEntityOwnershipHandler hrun
  · obtain ⟨rfl, -⟩ := Prod.mk.inj (Except.ok.inj hrun)
    exact .refl _

theorem onReceiveMsg {msg : ZstStageMessage}
    (hrun : ZstStageSession.onReceiveMsg s msg = .ok t) : Standing s.hierarchy t.hierarchy := by
  unfold ZstStageSession.onReceiveMsg at hrun
  split at hrun
  · obtain rfl := Except.ok.inj hrun
    exact .refl _
  · obtain ⟨⟨u, response⟩, hdispatch, hrun⟩ := Library.bind_ok.mp hrun
    obtain rfl := Except.ok.inj hrun
    exact (sessionDispatch hdispatch).trans (respond u.hierarchy msg response)

end Session

/-! ## Handlers of the hierarchy -/

theorem hierarchyDispatch {h k : ZstHierarchy} {msg : ZstStageMessage} {sender : Option EntityId}
    {response : Signal} (hcalm : EntityPreserving msg.content)
    (hrun : ZstStageHierarchy.dispatch h msg sender = .ok (k, response)) : Standing h k := by
  unfold ZstStageHierarchy.dispatch at hrun
  split at hrun
  case h_1 signal hcontent =>
    obtain rfl : (ZstStageHierarchy.signalHandler h signal sender).1 = k :=
      congrArg Prod.fst (Except.ok.inj hrun)
    unfold ZstStageHierarchy.signalHandler
    cases sender with
    | none => exact .refl h
    | some sender =>
      simp only
      split
      · exact modify h sender (fun x => { x with heartbeatActive := true, missedHeartbeats := 0 })
          fun _ => rfl
      · exact .refl h
  case h_5 creatable name hcontent =>
    unfold factoryCreateEntityHandler at hrun
    dsimp only at hrun
    split at hrun
    · obtain ⟨rfl, -⟩ := Prod.mk.inj (Except.ok.inj hrun)
      exact .refl h
    · obtain ⟨first, -, hrun⟩ := Library.bind_ok.mp hrun
      split at hrun
      · obtain ⟨rfl, -⟩ := Prod.mk.inj (Except.ok.inj hrun)
        exact .refl h
      · obtain ⟨rfl, -⟩ := Prod.mk.inj (Except.ok.inj hrun)
        exact whisperTo h _ _ _ _
  case h_8 =>
    obtain ⟨rfl, -⟩ := Prod.mk.inj (Except.ok.inj hrun)
    exact .refl h
  all_goals
    rename_i hcontent
    rw [hcontent] at hcalm
    exact hcalm.elim

/-! ## The event loop -/

theorem onEntityArriving (h : ZstHierarchy) (e : EntityId) :
    Standing h (ZstStageSession.onEntityArriving h e) := by
  unfold ZstStageSession.onEntityArriving
  simp only
  split
  · exact .refl h
  · exact broadcast h _ _

theorem registerEntity (s : ZstSession) (e : EntityId) :
    Standing s.hierarchy (s.registerEntity e).hierarchy :=
  foldl (fun h c => modify h c (fun x => { x with sessionAdaptor := true }) fun _ => rfl) _ _

theorem processHierarchyEvent {s t : ZstSession} {event : HierarchyEvent}
    (hrun : ZstStageSession.processHierarchyEvent s event = .ok t) :
    Standing s.hierarchy t.hierarchy := by
  have hleaving : ∀ path, Standing s.hierarchy
      (disconnectCables s (s.hierarchy.findEntity path)).hierarchy := by
    intro path
    unfold disconnectCables
    split
    · exact .refl _
    · exact destroyCables _ s
  cases event with
  | entityArriving e | performerArriving e =>
    obtain ⟨e, -, hrun⟩ := Library.bind_ok.mp hrun
    obtain rfl := Except.ok.inj hrun
    exact (onEntityArriving s.hierarchy e).trans
      (registerEntity (onHierarchy s fun h => ZstStageSession.onEntityArriving h e) e)
  | factoryArriving e =>
    obtain ⟨e, -, hrun⟩ := Library.bind_ok.mp hrun
    obtain rfl := Except.ok.inj hrun
    exact onEntityArriving s.hierarchy e
  | entityLeaving path | performerLeaving path =>
    obtain rfl := Except.ok.inj hrun
    exact hleaving path
  | factoryLeaving path | entityUpdated e =>
    obtain rfl := Except.ok.inj hrun
    exact .refl _

theorem processEvent (h : ZstHierarchy) (e : EntityId) (event : SynchronisableEvent) :
    Standing h (ZstHierarchy.processEvent stageOverrides h e event) := by
  cases event with
  | activated =>
    refine (setActivationStatus h e .activated).trans (modify _ e _ fun x => ?_)
    unfold onActivation
    split <;> rfl
  | deactivated =>
    refine (setActivationStatus h e .deactivated).trans (modify _ e _ fun x => ?_)
    unfold onDeactivation
    split <;> rfl
  | destroyed =>
    have hcleanup : ∀ k : ZstHierarchy,
        Standing k { k with cleanupOps := k.cleanupOps ++ [e] } := fun k =>
      ⟨fun _ => rfl, rfl, rfl, rfl, rfl, rfl, ⟨[], by simp, by simp⟩, List.prefix_refl _⟩
    unfold ZstHierarchy.processEvent onSynchronisableDestroyed
    simp only [Bool.false_eq_true, if_false]
    refine .trans ?_ (setActivationStatus _ e .destroyed)
    split
    · exact (deactivateEntityBase h e).trans (hcleanup _)
    · exact hcleanup h
  | updated => exact .refl h

theorem processOwnEvents (fuel : Nat) (h : ZstHierarchy) (e : EntityId) :
    Standing h (ZstHierarchy.processOwnEvents stageOverrides fuel h e) := by
  refine processOwnEvents_rule stageOverrides (P := Standing h) ?_ fuel (.refl h)
  intro k event rest hk _
  have hpop : Standing k (k.modify e fun x => { x with synchronisableEvents := rest }) :=
    modify k e _ fun _ => rfl
  exact (hk.trans hpop).trans (processEvent _ e event)

theorem processItems (fuel : Nat) (h : ZstHierarchy) :
    Standing h (ZstHierarchy.processItems stageOverrides fuel h) := by
  refine processItems_rule stageOverrides (P := Standing h) ?_ fuel (.refl h)
  intro k e rest hk _
  have hpop : ∀ freed, Standing k { k with synchronisableEvents := rest, freedAccess := freed } :=
    fun _ => ⟨fun _ => rfl, rfl, rfl, rfl, rfl, rfl, ⟨[], by simp, by simp⟩, List.prefix_refl _⟩
  unfold ZstHierarchy.processItem
  split
  · exact hk.trans (hpop k.freedAccess)
  · exact (hk.trans (hpop _)).trans (processOwnEvents _ _ e)

end Standing

/-! ## The reaper -/

/-- An entity that is deleted: nobody finds or owns it, and it has no children. -/
def bury (h : ZstHierarchy) (e : EntityId) : ZstHierarchy :=
  { h with
    entities := Function.update h.entities e { h.entities e with children := [] }
    live := Function.update h.live e false
    lookup := Function.update h.lookup (h.entities e).uri none
    proxies := h.proxies.erase e }

section Reaper

variable {h k : ZstHierarchy}

theorem Standing.withLive (hk : Standing h k) (live : EntityId → Bool) :
    Standing { h with live } { k with live } :=
  { hk with live := rfl }

theorem Standing.childless (hk : Standing h k) (e : EntityId) :
    Standing (h.modify e fun x => { x with children := [] })
      (k.modify e fun x => { x with children := [] }) := by
  refine { hk with entities := fun d => ?_ }
  rw [modify_entities, modify_entities]
  split
  · exact congrArg (fun x : Entity => { x with children := [] }) (hk.entities e)
  · exact hk.entities d

theorem destroyComponent_standing (h : ZstHierarchy) (e : EntityId) :
    Standing (h.modify e fun x => { x with children := [] })
      (destroyComponent stageOverrides h e) := by
  unfold destroyComponent
  refine Standing.childless (Standing.foldl (fun h c => ?_) _ _) e
  split
  · exact Standing.deactivateEntityBase h c
  · exact .refl h

/-- The destructor of an entity whose path is not found any more. -/
theorem destroyEntityBase_standing (h : ZstHierarchy) (e : EntityId)
    (hlookup : h.lookup (h.entities e).uri = none) :
    Standing { h with live := Function.update h.live e false }
      (destroyEntityBase stageOverrides h e) := by
  unfold destroyEntityBase
  have hbefore : Standing h (if (h.entities e).syncStatus ≠ .destroyed ∧
      (h.entities e).registered then onSynchronisableDestroyed stageOverrides h e true else h) := by
    split
    · have hbase : Standing h (if (h.entities e).isActivated ∨
          (h.entities e).syncStatus = .destroyed then
          stageOverrides.deactivateEntity h e .publish else h) := by
        split
        · exact Standing.deactivateEntityBase h e
        · exact .refl h
      unfold onSynchronisableDestroyed
      simp only [if_true]
      generalize (if (h.entities e).isActivated ∨ (h.entities e).syncStatus = .destroyed then
        stageOverrides.deactivateEntity h e .publish else h) = k at hbase ⊢
      have huri : (k.entities e).uri = (h.entities e).uri := hbase.field Entity.uri (fun _ => rfl) e
      have hsame : Function.update k.lookup (k.entities e).uri none = k.lookup := by
        rw [hbase.lookup, huri, ← hlookup, Function.update_eq_self]
      unfold removeEntityFromLookup
      refine { hbase with lookup := ?_ }
      exact hsame.trans hbase.lookup
    · exact .refl h
  simp only
  have hlive := hbefore.live
  generalize (if (h.entities e).syncStatus ≠ .destroyed ∧ (h.entities e).registered then
    onSynchronisableDestroyed stageOverrides h e true else h) = k at hbefore hlive ⊢
  rw [hlive]
  exact hbefore.withLive _

/-- A cleanup callback does nothing for a dead id, takes an entity out of the
table, and deletes it if it is owned. -/
theorem cleanup_cases (h : ZstHierarchy) (e : EntityId) :
    let k := cleanup stageOverrides h e
    Standing h k ∨ Standing (h.removeEntityFromLookup (h.entities e).uri) k ∨
      e ∈ h.proxies ∧ Standing (h.bury e) k := by
  intro k
  by_cases hdead : e ∈ h.deadIDs
  · left
    have hk : k = h := if_pos hdead
    rw [hk]
    exact .refl h
  · have hfreed : ∀ l : ZstHierarchy, ∀ freed, Standing l { l with freedAccess := freed } :=
      fun l freed => ⟨fun _ => rfl, rfl, rfl, rfl, rfl, rfl, ⟨[], by simp, by simp⟩,
        List.prefix_refl _⟩
    right
    by_cases howned : (h.entities e).isProxy ∧ e ∈ h.proxies
    · right
      refine ⟨howned.2, ?_⟩
      let l : ZstHierarchy :=
        { h with
          freedAccess := h.freedAccess || !h.live e
          lookup := Function.update h.lookup (h.entities e).uri none
          proxies := h.proxies.erase e }
      have hk : k = deleteEntity stageOverrides l e := by
        simp only [k, cleanup, if_neg hdead]
        exact if_pos howned
      rw [hk]
      unfold deleteEntity
      have hcomponent := destroyComponent_standing l e
      refine .trans ?_ (destroyEntityBase_standing _ e ?_)
      · rw [hcomponent.live]
        refine .trans ?_ (hcomponent.withLive _)
        exact ⟨fun _ => rfl, rfl, rfl, rfl, rfl, rfl, ⟨[], (List.append_nil _).symm, by simp⟩,
          List.prefix_refl _⟩
      · rw [hcomponent.lookup, hcomponent.field Entity.uri fun _ => rfl, modify_entities_self]
        exact Function.update_self ..
    · left
      have hk : k = { h with freedAccess := h.freedAccess || !h.live e }.removeEntityFromLookup
          (h.entities e).uri := by
        simp only [k, cleanup, if_neg hdead]
        exact if_neg howned
      rw [hk]
      exact hfreed (h.removeEntityFromLookup (h.entities e).uri) _

end Reaper
end ZstHierarchy
end Showtime
