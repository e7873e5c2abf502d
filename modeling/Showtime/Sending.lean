import Showtime.StageRun
import Showtime.UnknownSender
/-!
# What the stage sends

For every handler and every drain of the stage, the kind of messages that it
sends. The log of what was sent only grows.
-/

namespace Showtime.Sending

open ZstHierarchy ZstStageHierarchy ZstStageSession ZstStage

/-- The second hierarchy has sent more messages, all of them allowed. -/
def Sends (allowed : Outgoing → Prop) (h k : ZstHierarchy) : Prop :=
  ∃ messages, (∀ m ∈ messages, allowed m) ∧ k.sent = h.sent ++ messages

/-- The messages of the hierarchy: signals, entities, and requests to factories. -/
def Hierarchical (m : Outgoing) : Prop :=
  match m.content with
  | .signalMessage _ | .clientLeaveRequest _ _ | .entityCreateRequest _ | .entityUpdateRequest _ _
  | .entityDestroyRequest _ | .factoryCreateEntityRequest _ _ | .factoryCreateEntityAck _ => True
  | _ => False

namespace Sends

variable {allowed more : Outgoing → Prop} {h k l : ZstHierarchy}

theorem silent (hsent : k.sent = h.sent) : Sends allowed h k :=
  ⟨[], by simp, by simp [hsent]⟩

theorem refl (h : ZstHierarchy) : Sends allowed h h :=
  silent rfl

theorem trans (hk : Sends allowed h k) (kl : Sends allowed k l) : Sends allowed h l := by
  obtain ⟨first, hfirst, hksent⟩ := hk
  obtain ⟨second, hsecond, hlsent⟩ := kl
  refine ⟨first ++ second, fun m hm => ?_, by rw [hlsent, hksent, List.append_assoc]⟩
  rcases List.mem_append.mp hm with hm | hm
  · exact hfirst m hm
  · exact hsecond m hm

theorem mono (hallowed : ∀ m, allowed m → more m) (hk : Sends allowed h k) : Sends more h k := by
  obtain ⟨messages, hmessages, hsent⟩ := hk
  exact ⟨messages, fun m hm => hallowed m (hmessages m hm), hsent⟩

theorem foldl {α : Type} {f : ZstSession → α → ZstSession}
    (hf : ∀ s a, Sends allowed s.hierarchy (f s a).hierarchy) (items : List α) (s : ZstSession) :
    Sends allowed s.hierarchy (items.foldl f s).hierarchy := by
  induction items generalizing s with
  | nil => exact .refl _
  | cons a items ih => exact (hf s a).trans (ih (f s a))

theorem whisperTo (h : ZstHierarchy) (performer : EntityId) (content : Content)
    (msgID : Option ZstMsgID) (action : Option ResponseAction) :
    Sends (fun m => m.content = content) h
      (ZstStageHierarchy.whisperTo h performer content msgID action) := by
  rw [whisperTo_eq]
  exact ⟨_, fun m hm => whisperMessages_content hm, rfl⟩

theorem broadcast (h : ZstHierarchy) (content : Content) (excluded : Option EntityId) :
    Sends (fun m => m.content = content) h
      (ZstStageHierarchy.broadcast h content excluded) := by
  rw [broadcast_eq]
  exact ⟨_, fun m hm => broadcastMessages_content hm, rfl⟩

theorem respond (h : ZstHierarchy) (msg : ZstStageMessage) (response : Signal) :
    Sends Hierarchical h (ZstStageHierarchy.respond h msg response) := by
  rw [respond_eq]
  refine ⟨_, fun m hm => ?_, rfl⟩
  unfold responseMessages at hm
  split at hm
  · cases hm
  · rw [List.mem_singleton.mp hm]
    trivial

end Sends

/-! ## Steps that send nothing -/

/-- The second hierarchy has told nobody anything, neither by messages nor by events. -/
structure Mute (h k : ZstHierarchy) : Prop where
  sent : k.sent = h.sent
  hierarchyEvents : k.hierarchyEvents = h.hierarchyEvents

namespace Mute

variable {h k l : ZstHierarchy}

theorem refl (h : ZstHierarchy) : Mute h h :=
  ⟨rfl, rfl⟩

theorem trans (hk : Mute h k) (kl : Mute k l) : Mute h l :=
  ⟨kl.sent.trans hk.sent, kl.hierarchyEvents.trans hk.hierarchyEvents⟩

theorem modify (h : ZstHierarchy) (e : EntityId) (f : Entity → Entity) : Mute h (h.modify e f) :=
  ⟨rfl, rfl⟩

theorem deactivateEntityBase (h : ZstHierarchy) (e : EntityId) :
    Mute h (h.deactivateEntityBase e) := by
  unfold ZstHierarchy.deactivateEntityBase
  split
  · exact .refl h
  · exact .modify h e _

theorem onSynchronisableDestroyed (h : ZstHierarchy) (e : EntityId) (alreadyRemoved : Bool) :
    Mute h (onSynchronisableDestroyed stageOverrides h e alreadyRemoved) := by
  have hbase : Mute h (if (h.entities e).isActivated ∨ (h.entities e).syncStatus = .destroyed then
      stageOverrides.deactivateEntity h e (if alreadyRemoved then .publish else .syncReply)
      else h) := by
    split
    · exact deactivateEntityBase h e
    · exact .refl h
  unfold ZstHierarchy.onSynchronisableDestroyed
  cases alreadyRemoved
  · exact ⟨hbase.sent, hbase.hierarchyEvents⟩
  · exact ⟨hbase.sent, hbase.hierarchyEvents⟩

theorem processEvent (h : ZstHierarchy) (e : EntityId) (event : SynchronisableEvent) :
    Mute h (processEvent stageOverrides h e event) := by
  cases event with
  | activated | deactivated | updated => exact ⟨rfl, rfl⟩
  | destroyed => exact onSynchronisableDestroyed h e false

theorem processItem (h : ZstHierarchy) (e : EntityId) :
    Mute h (processItem stageOverrides h e) := by
  unfold ZstHierarchy.processItem
  split
  · exact .refl h
  · refine processOwnEvents_rule stageOverrides (P := Mute h) (fun k event rest hk _ => ?_) _
      ⟨rfl, rfl⟩
    exact (hk.trans (.modify k e _)).trans (processEvent _ e event)

theorem processItems (fuel : Nat) (h : ZstHierarchy) :
    Mute h (processItems stageOverrides fuel h) :=
  processItems_rule stageOverrides (P := Mute h) (fun k e rest hk _ =>
    (Mute.trans hk (l := { k with synchronisableEvents := rest }) ⟨rfl, rfl⟩).trans
      (processItem _ e)) fuel (.refl h)

theorem destroyComponent (h : ZstHierarchy) (e : EntityId) :
    Mute h (destroyComponent stageOverrides h e) := by
  unfold ZstHierarchy.destroyComponent
  refine .trans ?_ (.modify _ e _)
  refine List.foldlRecOn (motive := Mute h) _ _ (.refl h) fun k hk c _ => ?_
  split
  · exact hk.trans (deactivateEntityBase k c)
  · exact hk

theorem deleteEntity (h : ZstHierarchy) (e : EntityId) :
    Mute h (deleteEntity stageOverrides h e) := by
  unfold ZstHierarchy.deleteEntity destroyEntityBase
  refine (destroyComponent h e).trans ?_
  dsimp only
  split
  · have hdestroyed := onSynchronisableDestroyed
      (ZstHierarchy.destroyComponent stageOverrides h e) e true
    exact ⟨hdestroyed.sent, hdestroyed.hierarchyEvents⟩
  · exact ⟨rfl, rfl⟩

theorem reapAll (fuel : Nat) (h : ZstHierarchy) : Mute h (reapAll stageOverrides fuel h) := by
  refine reapAll_rule stageOverrides (P := Mute h) (fun k e rest hk _ => ?_) fuel (.refl h)
  unfold cleanup
  split
  · exact ⟨hk.sent, hk.hierarchyEvents⟩
  · simp only
    split
    · refine .trans ?_ (deleteEntity _ e)
      exact ⟨hk.sent, hk.hierarchyEvents⟩
    · exact ⟨hk.sent, hk.hierarchyEvents⟩

/-- The session only marks the entities that it registers. -/
theorem registerEntity (s : ZstSession) (e : EntityId) :
    Mute s.hierarchy (s.registerEntity e).hierarchy :=
  List.foldlRecOn (motive := Mute s.hierarchy) _ _ (.refl _) fun k hk c _ =>
    hk.trans (.modify k c _)

theorem destroyCableComplete (s : ZstSession) (c : CableId) :
    Mute s.hierarchy (s.destroyCableComplete c).hierarchy := by
  unfold ZstSession.destroyCableComplete
  simp only
  rw [ZstSession.enqueueCableDeactivation_hierarchy]
  generalize (s.cableObjects c).address = address
  cases s.findInputPlug address.inputURI with
  | none =>
    simp only
    split <;> exact ⟨rfl, rfl⟩
  | some input =>
    simp only
    split <;> exact ⟨rfl, rfl⟩

theorem createCable (s : ZstSession) (input output : EntityId) :
    Mute s.hierarchy (s.createCable input output).1.hierarchy := by
  unfold ZstSession.createCable
  simp only
  split
  · split
    · exact .refl _
    · rw [ZstSession.enqueueCableActivation_hierarchy]
      exact .refl _
  · exact ⟨rfl, rfl⟩

end Mute

theorem stageHeartbeatTimer_sent (h : ZstHierarchy) : (stageHeartbeatTimer h).sent = h.sent := by
  have hchecked : (checkHeartbeats h).1.sent = h.sent :=
    List.foldlRecOn (motive := fun (state : ZstHierarchy × List EntityId) =>
      state.1.sent = h.sent) _ _ rfl fun state hstate e _ => hstate
  unfold stageHeartbeatTimer
  refine List.foldlRecOn (motive := fun (k : ZstHierarchy) => k.sent = h.sent) _ _ hchecked
    fun k hk e _ => ?_
  exact (UnknownSender.SameAudience.removeProxyEntity k e).sent.trans hk

/-! ## Handlers of the hierarchy -/

section Hierarchy

variable {h k : ZstHierarchy}

theorem clientLeavingHandler_hierarchical {reason : ClientLeaveReason} {sender : Option EntityId}
    {response : Signal} (hrun : clientLeavingHandler h reason sender = .ok (k, response)) :
    Sends Hierarchical h k := by
  unfold clientLeavingHandler at hrun
  obtain ⟨sender, -, hrun⟩ := Library.bind_ok.mp hrun
  obtain ⟨rfl, -⟩ := Prod.mk.inj (Except.ok.inj hrun)
  refine .trans (.silent (UnknownSender.SameAudience.removeProxyEntity h sender).sent) ?_
  exact (Sends.broadcast _ _ none).mono fun m hm => by
    rw [Hierarchical, hm]
    trivial

theorem destroyEntityHandler_hierarchical (h : ZstHierarchy) (path : ZstURI)
    (sender : Option EntityId) : Sends Hierarchical h (destroyEntityHandler h path sender).1 := by
  unfold destroyEntityHandler
  split
  · exact .refl h
  · rename_i e hfind
    refine .trans (.silent (UnknownSender.SameAudience.removeProxyEntity h e).sent) ?_
    exact (Sends.broadcast _ _ sender).mono fun m hm => by
      rw [Hierarchical, hm]
      trivial

theorem updateEntityHandler_hierarchical {buffer : EntityBuffer} {originalPath : ZstURI}
    {sender : Option EntityId} {response : Signal}
    (hrun : updateEntityHandler h buffer originalPath sender = .ok (k, response)) :
    Sends Hierarchical h k := by
  unfold updateEntityHandler at hrun
  obtain ⟨field, -, hrun⟩ := Library.bind_ok.mp hrun
  dsimp only at hrun
  split at hrun
  · obtain ⟨rfl, -⟩ := Prod.mk.inj (Except.ok.inj hrun)
    exact .refl h
  · rename_i proxy hfind
    obtain ⟨rfl, -⟩ := Prod.mk.inj (Except.ok.inj hrun)
    refine .trans (.silent (UnknownSender.SameAudience.updateProxyEntity h proxy field).sent) ?_
    exact (Sends.broadcast _ _ sender).mono fun m hm => by
      rw [Hierarchical, hm]
      trivial

theorem factoryCreateEntityHandler_hierarchical {msg : ZstStageMessage} {creatable : ZstURI}
    {name : String} {sender : Option EntityId} {response : Signal}
    (hrun : factoryCreateEntityHandler h msg creatable name sender = .ok (k, response)) :
    Sends Hierarchical h k := by
  unfold factoryCreateEntityHandler at hrun
  dsimp only at hrun
  split at hrun
  · obtain ⟨rfl, -⟩ := Prod.mk.inj (Except.ok.inj hrun)
    exact .refl h
  · obtain ⟨first, -, hrun⟩ := Library.bind_ok.mp hrun
    split at hrun
    · obtain ⟨rfl, -⟩ := Prod.mk.inj (Except.ok.inj hrun)
      exact .refl h
    · obtain ⟨rfl, -⟩ := Prod.mk.inj (Except.ok.inj hrun)
      exact (Sends.whisperTo h _ _ _ _).mono fun m hm => by
        rw [Hierarchical, hm]
        trivial

theorem signalHandler_sent (h : ZstHierarchy) (signal : Signal) (sender : Option EntityId) :
    (ZstStageHierarchy.signalHandler h signal sender).1.sent = h.sent := by
  unfold ZstStageHierarchy.signalHandler
  split
  · rfl
  · split <;> rfl

theorem announce_sent (h : ZstHierarchy) (e : EntityId) : (h.announce e).sent = h.sent :=
  List.foldlRecOn (motive := fun (k : ZstHierarchy) => k.sent = h.sent) _ _ rfl
    fun _ hk _ _ => hk

/-- `add_proxy_entity` sends nothing. -/
theorem addProxyEntity_sent {x : Entity} (hadd : addProxyEntity stageOverrides h x = .ok k) :
    k.sent = h.sent := by
  have hcases := addProxyEntity_cases stageOverrides h x
  simp only at hcases
  rw [hadd] at hcases
  split at hcases
  · split at hcases
    · obtain rfl := Except.ok.inj hcases
      rw [announce_sent, (TreeEdit.registerEntity _ _).sent,
        (TreeEdit.addChild TreeEdit.stage_activation _ _ _ _).sent]
      rfl
    · cases hcases
  · obtain rfl := Except.ok.inj hcases
    exact announce_sent _ _

/-- The handlers of the hierarchy send nothing about cables, handshakes or owners. -/
theorem hierarchyDispatch_hierarchical {msg : ZstStageMessage}
    {sender : Option EntityId} {response : Signal}
    (hrun : ZstStageHierarchy.dispatch h msg sender = .ok (k, response)) :
    Sends Hierarchical h k := by
  unfold ZstStageHierarchy.dispatch at hrun
  split at hrun
  · obtain rfl : (ZstStageHierarchy.signalHandler h _ sender).1 = k :=
      congrArg Prod.fst (Except.ok.inj hrun)
    exact .silent (signalHandler_sent h _ sender)
  · rcases createClientHandler_ok hrun with rfl | ⟨-, hadd⟩
    · exact .refl _
    · exact .silent (addProxyEntity_sent hadd)
  · exact clientLeavingHandler_hierarchical hrun
  · rcases createEntityHandler_ok hrun with rfl | ⟨x, hx, hadd⟩
    · exact .refl _
    · exact .silent (addProxyEntity_sent hadd)
  · exact factoryCreateEntityHandler_hierarchical hrun
  · exact updateEntityHandler_hierarchical hrun
  · obtain rfl : (destroyEntityHandler h _ sender).1 = k :=
      congrArg Prod.fst (Except.ok.inj hrun)
    exact destroyEntityHandler_hierarchical h _ sender
  · obtain ⟨rfl, -⟩ := Prod.mk.inj (Except.ok.inj hrun)
    exact .refl _

theorem hierarchyReceive_hierarchical {msg : ZstStageMessage}
    (hrun : ZstStageHierarchy.onReceiveMsg h msg = .ok k) : Sends Hierarchical h k := by
  unfold ZstStageHierarchy.onReceiveMsg at hrun
  obtain ⟨⟨l, response⟩, hdispatch, hrespond⟩ := Library.bind_ok.mp hrun
  obtain rfl := Except.ok.inj hrespond
  exact (hierarchyDispatch_hierarchical hdispatch).trans (.respond l msg response)

end Hierarchy

/-! ## Handlers of the session -/

section Session

variable {s t : ZstSession} {msg : ZstStageMessage} {sender : EntityId} {response : Signal}

theorem destroyCable_sends (s : ZstSession) (c : CableId) :
    Sends (fun m => m.content = .cableDestroyRequest (s.cableObjects c).address) s.hierarchy
      (destroyCable s c).hierarchy := by
  refine .trans ?_ (.silent (Mute.destroyCableComplete _ c).sent)
  exact Sends.broadcast s.hierarchy _ none

/-- The cable that is created, or found, is one between the plugs. -/
theorem createCable_address (s : ZstSession) (input output : EntityId) :
    ((s.createCable input output).1.cableObjects (s.createCable input output).2).address =
      ⟨(s.hierarchy.entities input).uri, (s.hierarchy.entities output).uri⟩ := by
  unfold ZstSession.createCable
  simp only
  split
  · rename_i c hfind
    have haddress := List.find?_some hfind
    simp only [decide_eq_true_eq] at haddress
    split
    · exact haddress
    · unfold ZstSession.enqueueCableActivation
      split
      · simp [ZstSession.modifyCable, haddress]
      · exact haddress
  · simp [ZstSession.plugAddCable]

/-- One of the checks of `create_cable_handler` fails. -/
def Refused (s : ZstSession) (path : ZstCableAddress) : Prop :=
  (s.findCable path).isSome = true ∨ s.findInputPlug path.inputURI = none ∨
    s.findOutputPlug path.outputURI = none

instance (s : ZstSession) (path : ZstCableAddress) : Decidable (Refused s path) :=
  inferInstanceAs (Decidable (_ ∨ _))

theorem createCableHandler_of_refused (s : ZstSession) (msg : ZstStageMessage)
    (path : ZstCableAddress) (sender : EntityId) (hrefused : Refused s path) :
    ∃ signal, signal ≠ .ok ∧ signal ≠ .empty ∧
      createCableHandler s msg path sender = .ok (s, signal) := by
  cases hcable : s.findCable path with
  | some cable =>
    refine ⟨.errStageBadCableConnectRequest, by decide, by decide, ?_⟩
    unfold createCableHandler
    rw [hcable]
    rfl
  | none =>
    refine ⟨.errCablePlugsNotFound, by decide, by decide, ?_⟩
    have hplugs : s.findInputPlug path.inputURI = none ∨
        s.findOutputPlug path.outputURI = none := by
      simpa [Refused, hcable] using hrefused
    exact ConnectReplies.createCableHandler_refused s msg path sender hcable hplugs

/-- A cable request is refused and changes nothing, or it connects the
performers of the plugs. -/
theorem createCableHandler_ok {path : ZstCableAddress}
    (hrun : createCableHandler s msg path sender = .ok (t, response)) :
    Refused s path ∧ t = s ∨
      response = .empty ∧ ∃ input output p q, s.findCable path = none ∧
      s.findInputPlug path.inputURI = some input ∧ s.findOutputPlug path.outputURI = some output ∧
      ConnectReplies.performerOf s.hierarchy output = some p ∧
      ConnectReplies.performerOf s.hierarchy input = some q ∧
      if (s.hierarchy.entities p).uri = (s.hierarchy.entities q).uri then
        cableConnectFinished (ConnectReplies.plugged s input output)
          (ConnectReplies.requestedCable s input output) sender msg.id .ok = .ok t
      else t = connectClients (ConnectReplies.plugged s input output) p q
        (.cable (ConnectReplies.requestedCable s input output) sender msg.id) := by
  by_cases hrefused : Refused s path
  · obtain ⟨signal, -, -, hanswer⟩ := createCableHandler_of_refused s msg path sender hrefused
    rw [hanswer] at hrun
    obtain ⟨rfl, -⟩ := Prod.mk.inj (Except.ok.inj hrun)
    exact Or.inl ⟨hrefused, rfl⟩
  obtain ⟨hfree, hplugs⟩ := not_or.mp hrefused
  obtain ⟨hin, hout⟩ := not_or.mp hplugs
  have hcable : s.findCable path = none := Option.not_isSome_iff_eq_none.mp hfree
  obtain ⟨input, hinput⟩ := Option.ne_none_iff_exists'.mp hin
  obtain ⟨output, houtput⟩ := Option.ne_none_iff_exists'.mp hout
  rw [ConnectReplies.createCableHandler_found s msg path sender input output hcable hinput
    houtput] at hrun
  have hconnect := ConnectReplies.connectPlugs_eq s msg input output sender
  cases hp : ConnectReplies.performerOf s.hierarchy output with
  | none =>
    rw [hp] at hconnect
    obtain ⟨fault, hconnect⟩ := hconnect
    rw [hconnect] at hrun
    cases hrun
  | some p =>
    cases hq : ConnectReplies.performerOf s.hierarchy input with
    | none =>
      rw [hp, hq] at hconnect
      obtain ⟨fault, hconnect⟩ := hconnect
      rw [hconnect] at hrun
      cases hrun
    | some q =>
      rw [hp, hq] at hconnect
      rw [hconnect] at hrun
      dsimp only at hrun
      split at hrun
      · rename_i huri
        obtain ⟨u, hfinished, hrun⟩ := Library.bind_ok.mp hrun
        obtain ⟨rfl, rfl⟩ := Prod.mk.inj (Except.ok.inj hrun)
        refine Or.inr ⟨rfl, input, output, p, q, hcable, hinput, houtput, hp, hq, ?_⟩
        rw [if_pos huri]
        exact hfinished
      · rename_i huri
        obtain ⟨rfl, rfl⟩ := Prod.mk.inj (Except.ok.inj hrun)
        refine Or.inr ⟨rfl, input, output, p, q, hcable, hinput, houtput, hp, hq, ?_⟩
        rw [if_neg huri]

end Session

/-! ## The event loop -/

theorem onEntityArriving_hierarchical (h : ZstHierarchy) (e : EntityId) :
    Sends Hierarchical h (onEntityArriving h e) := by
  unfold onEntityArriving
  simp only
  split
  · exact .refl h
  · exact (Sends.broadcast h _ _).mono fun m hm => by
      rw [Hierarchical, hm]
      trivial

theorem factoryEntityCreated_hierarchical {h k : ZstHierarchy} {sender : Option EntityId}
    {factoryPath : ZstURI} {id : ZstMsgID} {response : Option Content}
    (hrun : factoryEntityCreated h sender factoryPath id response = .ok k) :
    Sends Hierarchical h k := by
  unfold factoryEntityCreated at hrun
  obtain ⟨performer, -, hrun⟩ := Library.bind_ok.mp hrun
  obtain rfl := Except.ok.inj hrun
  have hack : ∀ l : ZstHierarchy, Sends Hierarchical l
      (whisperTo l performer (.factoryCreateEntityAck factoryPath) (some id) none) := fun l =>
    (Sends.whisperTo l _ _ _ _).mono fun m hm => by
      rw [Hierarchical, hm]
      trivial
  split
  · exact hack h
  · refine .trans ?_ (hack _)
    exact (Sends.whisperTo h _ _ _ _).mono fun m hm => by
      rw [Hierarchical, hm]
      trivial

/-! ## The log -/

/-- No step takes back what was sent. -/
theorem step_sent {s t : ZstSession} {event : StageEvent} (hrun : step s event = .ok t) :
    s.hierarchy.sent <+: t.hierarchy.sent := by
  cases step_shift hrun with
  | stands hk => exact hk.sent
  | dequeues events _ hk => exact hk.sent
  | connects _ _ output input _ _ _ _ _ _ hk => exact hk.sent
  | removes l hl hk =>
    have hremoved := UnknownSender.SameAudience.foldl
      UnknownSender.SameAudience.removeProxyEntity (leavers s.hierarchy event) l
    have hsent := hk.sent
    rw [hremoved.sent] at hsent
    exact hl.sent.trans hsent
  | renames _ buffer _ proxy _ _ _ hk =>
    have hsent := hk.sent
    rwa [(UnknownSender.SameAudience.updateProxyEntity s.hierarchy proxy buffer).sent] at hsent
  | joins _ _ _ _ _ _ _ hadd hk => exact addProxyEntity_sent hadd ▸ hk.sent
  | creates _ _ _ _ _ _ _ hadd hk => exact addProxyEntity_sent hadd ▸ hk.sent
  | forgets path hk => exact hk.sent
  | buries e _ hk => exact hk.sent

theorem run_sent {s t : ZstSession} {events : List StageEvent}
    (hrun : Library.run step s events = .ok t) : s.hierarchy.sent <+: t.hierarchy.sent :=
  Library.run_history (fun _ u => s.hierarchy.sent <+: u.hierarchy.sent)
    (fun _ _ _ _ hu hstep => hu.trans (step_sent hstep)) (List.prefix_refl _) hrun

/-- A callback that waits goes on waiting. -/
theorem callback_of_prefix {h k : ZstHierarchy} (hsent : h.sent <+: k.sent) {message : Nat}
    {action : ResponseAction} (hcallback : callback h message = some action) :
    callback k message = some action := by
  unfold callback at hcallback ⊢
  obtain ⟨m, hm, haction⟩ := Option.bind_eq_some_iff.mp hcallback
  obtain ⟨more, hmore⟩ := hsent
  rw [← hmore, List.getElem?_append_left (List.getElem?_eq_some_iff.mp hm).1, hm]
  exact haction

end Showtime.Sending
