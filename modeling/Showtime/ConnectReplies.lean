import Showtime.StageSession
/-!
# Replies to connect requests

A cable request and an observe request are answered by a return value, by a
callback that runs at once, or by the callback of a peer handshake. This module
follows every one of these paths from the request to the signals that the
requester gets for it.
-/

namespace Showtime.ConnectReplies

open ZstHierarchy ZstStageHierarchy ZstStageSession

/-! ## What plugging and unplugging leaves alone -/

/-- A message that is no signal and that nobody waits for. -/
def IsAnnouncement (m : Outgoing) : Prop :=
  m.onRecvResponse = none ∧ ∀ signal, m.content ≠ .signalMessage signal

def uncabled (x : Entity) : Entity :=
  { x with cables := [] }

/-- The second session differs from the first in its cables, in the cables of
its plugs and in some messages about cables. -/
structure Replugged (s t : ZstSession) : Prop where
  entities : ∀ e, uncabled (t.hierarchy.entities e) = uncabled (s.hierarchy.entities e)
  lookup : t.hierarchy.lookup = s.hierarchy.lookup
  live : t.hierarchy.live = s.hierarchy.live
  root : t.hierarchy.root = s.hierarchy.root
  proxies : t.hierarchy.proxies = s.hierarchy.proxies
  sent : ∃ messages, (∀ m ∈ messages, IsAnnouncement m) ∧
    t.hierarchy.sent = s.hierarchy.sent ++ messages

/-- Both sessions find the same cables. -/
structure SameCables (s t : ZstSession) : Prop where
  cables : t.cables = s.cables
  nextCable : t.nextCable = s.nextCable
  address : ∀ c, (t.cableObjects c).address = (s.cableObjects c).address

theorem SameCables.refl (s : ZstSession) : SameCables s s :=
  ⟨rfl, rfl, fun _ => rfl⟩

theorem SameCables.trans {s t u : ZstSession} (hst : SameCables s t) (htu : SameCables t u) :
    SameCables s u :=
  ⟨htu.cables.trans hst.cables, htu.nextCable.trans hst.nextCable,
    fun c => (htu.address c).trans (hst.address c)⟩

theorem SameCables.findCable {s t : ZstSession} (hst : SameCables s t)
    (address : ZstCableAddress) : t.findCable address = s.findCable address := by
  simp only [ZstSession.findCable, hst.cables, hst.address]

namespace Replugged

variable {s t u : ZstSession}

theorem refl (s : ZstSession) : Replugged s s :=
  ⟨fun _ => rfl, rfl, rfl, rfl, rfl, [], by simp, by simp⟩

theorem trans (hst : Replugged s t) (htu : Replugged t u) : Replugged s u := by
  obtain ⟨first, hfirst, hsent⟩ := hst.sent
  obtain ⟨second, hsecond, hsent'⟩ := htu.sent
  refine ⟨fun e => (htu.entities e).trans (hst.entities e), htu.lookup.trans hst.lookup,
    htu.live.trans hst.live, htu.root.trans hst.root, htu.proxies.trans hst.proxies,
    first ++ second, ?_, by rw [hsent', hsent, List.append_assoc]⟩
  intro m hm
  rcases List.mem_append.mp hm with hm | hm
  · exact hfirst m hm
  · exact hsecond m hm

theorem of_modifyPlug (s : ZstSession) (e : EntityId) (f : Entity → Entity)
    (hf : ∀ x, uncabled (f x) = uncabled x) : Replugged s (s.modifyPlug e f) := by
  refine ⟨fun d => ?_, rfl, rfl, rfl, rfl, [], by simp, by simp⟩
  rw [ZstSession.modifyPlug_hierarchy, modify_entities]
  split
  · rename_i hde
    rw [hf, hde]
  · rfl

theorem of_hierarchy_eq (h : t.hierarchy = s.hierarchy) : Replugged s t :=
  ⟨fun e => by rw [h], by rw [h], by rw [h], by rw [h], by rw [h], [], by simp, by simp [h]⟩

theorem of_sends (s : ZstSession) (messages : List Outgoing)
    (hquiet : ∀ m ∈ messages, IsAnnouncement m) :
    Replugged s (onHierarchy s fun h => { h with sent := h.sent ++ messages }) :=
  ⟨fun _ => rfl, rfl, rfl, rfl, rfl, messages, hquiet, rfl⟩

theorem field {β : Type} (hst : Replugged s t) (f : Entity → β) (hf : ∀ x, f (uncabled x) = f x)
    (e : EntityId) : f (t.hierarchy.entities e) = f (s.hierarchy.entities e) := by
  rw [← hf, hst.entities e, hf]

theorem findStageProxy (hst : Replugged s t) (path : ZstURI) :
    ZstStageHierarchy.findStageProxy t.hierarchy path =
      ZstStageHierarchy.findStageProxy s.hierarchy path := by
  have hfind : t.hierarchy.findEntity path = s.hierarchy.findEntity path := by
    simp only [findEntity, hst.root, hst.lookup, hst.field Entity.uri fun _ => rfl]
  simp only [ZstStageHierarchy.findStageProxy, hfind,
    hst.field Entity.stageProxy fun _ => rfl]

theorem deref (hst : Replugged s t) (e : Option EntityId) :
    t.hierarchy.deref e = s.hierarchy.deref e := by
  cases e with
  | none => rfl
  | some e => simp only [ZstHierarchy.deref, hst.live]

end Replugged

/-! ## Unplugging and plugging -/

theorem quiet_of_broadcast {h : ZstHierarchy} {content : Content} {excluded : Option EntityId}
    (hcontent : ∀ signal, content ≠ .signalMessage signal) {m : Outgoing}
    (hm : m ∈ broadcastMessages h content excluded) : IsAnnouncement m := by
  obtain ⟨e, -, he⟩ := List.mem_flatMap.mp hm
  split at he
  · simp at he
  · cases hproxy : (h.entities e).stageProxy with
    | none => simp [whisperMessages, hproxy] at he
    | some proxy =>
      simp only [whisperMessages, hproxy, Option.map_some, Option.toList_some,
        List.mem_singleton] at he
      rw [he]
      exact ⟨rfl, hcontent⟩

theorem replugged_broadcast (s : ZstSession) (content : Content)
    (hcontent : ∀ signal, content ≠ .signalMessage signal) :
    Replugged s (onHierarchy s fun h => broadcast h content none) := by
  simp only [broadcast_eq]
  exact .of_sends s _ fun m hm => quiet_of_broadcast hcontent hm

theorem replugged_plugRemoveCable (s : ZstSession) (e : EntityId) (address : ZstCableAddress) :
    Replugged s (s.plugRemoveCable e address) :=
  .of_modifyPlug s e _ fun _ => rfl

theorem replugged_plugAddCable (s : ZstSession) (e : EntityId) (address : ZstCableAddress) :
    Replugged s (s.plugAddCable e address) :=
  .of_modifyPlug s e _ fun _ => rfl

theorem enqueueCableDeactivation_keeps (s : ZstSession) (c : CableId) :
    Replugged s (s.enqueueCableDeactivation c) ∧ SameCables s (s.enqueueCableDeactivation c) := by
  unfold ZstSession.enqueueCableDeactivation
  split
  · refine ⟨.of_hierarchy_eq rfl, rfl, rfl, fun d => ?_⟩
    by_cases hdc : d = c
    · rw [hdc]
      simp [ZstSession.modifyCable]
    · simp [ZstSession.modifyCable, hdc]
  · exact ⟨.refl s, .refl s⟩

theorem plugRemoveCable_keeps (s : ZstSession) (e : EntityId) (address : ZstCableAddress) :
    Replugged s (s.plugRemoveCable e address) ∧ SameCables s (s.plugRemoveCable e address) :=
  ⟨replugged_plugRemoveCable s e address, rfl, rfl, fun _ => rfl⟩

theorem destroyCableComplete_keeps (s : ZstSession) (c : CableId) :
    Replugged s (s.destroyCableComplete c) ∧ SameCables s (s.destroyCableComplete c) := by
  have hqueue : ∀ {u : ZstSession}, Replugged s u ∧ SameCables s u →
      Replugged s (u.enqueueCableDeactivation c) ∧
        SameCables s (u.enqueueCableDeactivation c) := fun {u} hu =>
    ⟨hu.1.trans (enqueueCableDeactivation_keeps u c).1,
      hu.2.trans (enqueueCableDeactivation_keeps u c).2⟩
  unfold ZstSession.destroyCableComplete
  simp only
  generalize (s.cableObjects c).address = address
  cases s.findInputPlug address.inputURI with
  | none =>
    simp only
    split
    · exact hqueue (plugRemoveCable_keeps s _ address)
    · exact hqueue ⟨.refl s, .refl s⟩
  | some input =>
    obtain ⟨hplugs, hcables⟩ := plugRemoveCable_keeps s input address
    simp only
    split
    · obtain ⟨hplugs', hcables'⟩ := plugRemoveCable_keeps (s.plugRemoveCable input address) _ address
      exact hqueue ⟨hplugs.trans hplugs', hcables.trans hcables'⟩
    · exact hqueue ⟨hplugs, hcables⟩

theorem destroyCable_keeps (s : ZstSession) (c : CableId) :
    Replugged s (destroyCable s c) ∧ SameCables s (destroyCable s c) := by
  have hbroadcast := replugged_broadcast s (.cableDestroyRequest (s.cableObjects c).address)
    (fun _ => by simp)
  obtain ⟨hplugs, hcables⟩ := destroyCableComplete_keeps (onHierarchy s fun h =>
    broadcast h (.cableDestroyRequest (s.cableObjects c).address)) c
  refine ⟨hbroadcast.trans hplugs, ?_⟩
  exact ⟨hcables.cables, hcables.nextCable, hcables.address⟩

theorem destroyCables_keeps (cables : List CableId) (s : ZstSession) :
    Replugged s (cables.foldl destroyCable s) ∧ SameCables s (cables.foldl destroyCable s) := by
  induction cables generalizing s with
  | nil => exact ⟨.refl s, .refl s⟩
  | cons c cables ih =>
    obtain ⟨hplugs, hcables⟩ := destroyCable_keeps s c
    obtain ⟨hplugs', hcables'⟩ := ih (destroyCable s c)
    exact ⟨hplugs.trans hplugs', hcables.trans hcables'⟩

/-- The cable that `create_cable` returns. -/
def requestedCable (s : ZstSession) (input output : EntityId) : CableId :=
  (s.findCable ⟨(s.hierarchy.entities input).uri, (s.hierarchy.entities output).uri⟩).getD
    s.nextCable

theorem enqueueCableActivation_keeps (s : ZstSession) (c : CableId) :
    Replugged s (s.enqueueCableActivation c) ∧ (s.enqueueCableActivation c).cables = s.cables := by
  unfold ZstSession.enqueueCableActivation
  split
  · exact ⟨.of_hierarchy_eq rfl, rfl⟩
  · exact ⟨.refl s, rfl⟩

/-- The requested cable is there afterwards. -/
theorem createCable_keeps (s : ZstSession) (input output : EntityId) :
    Replugged s (s.createCable input output).1 ∧
      (s.createCable input output).2 = requestedCable s input output ∧
      requestedCable s input output ∈ (s.createCable input output).1.cables := by
  unfold ZstSession.createCable requestedCable
  simp only
  generalize (⟨(s.hierarchy.entities input).uri, (s.hierarchy.entities output).uri⟩ :
    ZstCableAddress) = address
  cases hfind : s.findCable address with
  | some c =>
    have hmem : c ∈ s.cables := List.mem_of_find?_eq_some hfind
    obtain ⟨hqueue, hcables⟩ := enqueueCableActivation_keeps s c
    simp only [Option.getD_some]
    split
    · exact ⟨.refl s, trivial, hmem⟩
    · exact ⟨hqueue, trivial, hcables ▸ hmem⟩
  | none =>
    simp only [Option.getD_none]
    refine ⟨?_, trivial, ?_⟩
    · refine .trans ?_ (replugged_plugAddCable _ output address)
      refine .trans ?_ (replugged_plugAddCable _ input address)
      exact .of_hierarchy_eq rfl
    · simp [ZstSession.plugAddCable]

/-- A full input plug gives up its cables. -/
def makeRoom (s : ZstSession) (input : EntityId) : ZstSession :=
  if (s.hierarchy.entities input).cables.length ≥
      (s.hierarchy.entities input).maxConnectedCablesSize then
    (s.getChildCables input).foldl destroyCable s
  else s

theorem makeRoom_keeps (s : ZstSession) (input : EntityId) :
    Replugged s (makeRoom s input) ∧ SameCables s (makeRoom s input) := by
  unfold makeRoom
  split
  · exact destroyCables_keeps _ s
  · exact ⟨.refl s, .refl s⟩

/-- The session once the requested cable is plugged in. -/
def plugged (s : ZstSession) (input output : EntityId) : ZstSession :=
  ((makeRoom s input).createCable input output).1

theorem plugged_keeps (s : ZstSession) (input output : EntityId) :
    Replugged s (plugged s input output) ∧
      ((makeRoom s input).createCable input output).2 = requestedCable s input output ∧
      requestedCable s input output ∈ (plugged s input output).cables := by
  obtain ⟨hroom, hcables⟩ := makeRoom_keeps s input
  obtain ⟨hcreate, hcable, hmem⟩ := createCable_keeps (makeRoom s input) input output
  have hsame : requestedCable (makeRoom s input) input output =
      requestedCable s input output := by
    simp only [requestedCable, hcables.findCable, hcables.nextCable,
      hroom.field Entity.uri fun _ => rfl]
  rw [hsame] at hcable hmem
  exact ⟨hroom.trans hcreate, hcable, hmem⟩

/-! ## The course of a request -/

/-- The performer that a plug belongs to, if it can be reached. -/
def performerOf (h : ZstHierarchy) (e : EntityId) : Option EntityId :=
  if (h.entities e).uri = [] then none
  else (findStageProxy h (h.entities e).uri.first).filter fun p => h.live p

/-- What the checks of the two handlers make of a request. -/
inductive Course
  /-- A check fails. -/
  | refused
  /-- A performer cannot be reached: an exception or a null pointer. -/
  | lost
  /-- The performers to be connected, and the callback for it. -/
  | peers (output input : EntityId) (action : ConnectAction)
  deriving DecidableEq, Repr

def course (s : ZstSession) (msg : ZstStageMessage) (sender : EntityId) : Course :=
  match msg.content with
  | .cableCreateRequest path =>
    if (s.findCable path).isSome then .refused
    else match s.findInputPlug path.inputURI, s.findOutputPlug path.outputURI with
      | some input, some output =>
        match performerOf s.hierarchy output, performerOf s.hierarchy input with
        | some p, some q => .peers p q (.cable (requestedCable s input output) sender msg.id)
        | _, _ => .lost
      | _, _ => .refused
  | .entityObserveRequest path =>
    if path = [] then .lost
    else match findStageProxy s.hierarchy path.first with
      | none => .refused
      | some observed =>
        if sender = observed then .refused
        else if (s.hierarchy.entities observed).hasConnectedSubscriber
            (s.hierarchy.entities sender) then .refused
        else .peers observed sender (.observe sender msg.id)
  | _ => .lost

/-- The rest of `create_cable_handler` once both plugs are found. -/
def connectPlugs (s : ZstSession) (msg : ZstStageMessage) (input output sender : EntityId) :
    Except Fault (ZstSession × Signal) := do
  let u := plugged s input output
  let cable := ((makeRoom s input).createCable input output).2
  let h := u.hierarchy
  let inputPerf := findStageProxy h (← firstSegment (h.entities input).uri)
  let outputPerf := findStageProxy h (← firstSegment (h.entities output).uri)
  let outputPerf ← h.deref outputPerf
  let inputPerf ← h.deref inputPerf
  if (h.entities outputPerf).uri = (h.entities inputPerf).uri then
    let s ← cableConnectFinished u cable sender msg.id .ok
    return (s, .empty)
  return (connectClients u outputPerf inputPerf (.cable cable sender msg.id), .empty)

theorem createCableHandler_found (s : ZstSession) (msg : ZstStageMessage)
    (path : ZstCableAddress) (sender input output : EntityId) (hfree : s.findCable path = none)
    (hinput : s.findInputPlug path.inputURI = some input)
    (houtput : s.findOutputPlug path.outputURI = some output) :
    createCableHandler s msg path sender = connectPlugs s msg input output sender := by
  unfold createCableHandler
  rw [hfree, hinput, houtput]
  rfl

theorem createCableHandler_refused (s : ZstSession) (msg : ZstStageMessage)
    (path : ZstCableAddress) (sender : EntityId) (hfree : s.findCable path = none)
    (hplugs : s.findInputPlug path.inputURI = none ∨ s.findOutputPlug path.outputURI = none) :
    createCableHandler s msg path sender = .ok (s, .errCablePlugsNotFound) := by
  unfold createCableHandler
  rw [hfree]
  rcases hplugs with hinput | houtput
  · rw [hinput]
    rfl
  · rw [houtput]
    cases s.findInputPlug path.inputURI <;> rfl

/-- `deref` succeeds on what is there and alive. -/
theorem deref_filter (h : ZstHierarchy) (e : Option EntityId) :
    match e.filter fun e => h.live e with
    | some d => h.deref e = .ok d
    | none => ∃ fault, h.deref e = .error fault := by
  cases e with
  | none => exact ⟨.nullPointer, rfl⟩
  | some e =>
    by_cases hlive : h.live e = true
    · simp [Option.filter, hlive, deref]
    · simp [Option.filter, hlive, deref]

/-- Both performers are reached, or the handler does not get to its end. -/
theorem connectPlugs_eq (s : ZstSession) (msg : ZstStageMessage) (input output sender : EntityId) :
    match performerOf s.hierarchy output, performerOf s.hierarchy input with
    | some p, some q =>
      connectPlugs s msg input output sender =
        let u := plugged s input output
        let cable := requestedCable s input output
        if (s.hierarchy.entities p).uri = (s.hierarchy.entities q).uri then do
          let s ← cableConnectFinished u cable sender msg.id .ok
          return (s, .empty)
        else .ok (connectClients u p q (.cable cable sender msg.id), .empty)
    | _, _ => ∃ fault, connectPlugs s msg input output sender = .error fault := by
  obtain ⟨hkeeps, hcable, -⟩ := plugged_keeps s input output
  unfold connectPlugs performerOf
  simp only [hcable, hkeeps.field Entity.uri fun _ => rfl, hkeeps.findStageProxy, hkeeps.deref,
    firstSegment]
  by_cases hinput : (s.hierarchy.entities input).uri = []
  · simp only [if_pos hinput]
    split
    · contradiction
    · exact ⟨.exception, rfl⟩
  by_cases houtput : (s.hierarchy.entities output).uri = []
  · simp only [if_pos houtput, if_neg hinput]
    exact ⟨.exception, rfl⟩
  simp only [if_neg hinput, if_neg houtput]
  have hp := deref_filter s.hierarchy
    (findStageProxy s.hierarchy (s.hierarchy.entities output).uri.first)
  have hq := deref_filter s.hierarchy
    (findStageProxy s.hierarchy (s.hierarchy.entities input).uri.first)
  cases hpeer : (findStageProxy s.hierarchy (s.hierarchy.entities output).uri.first).filter
      fun e => s.hierarchy.live e with
  | none =>
    rw [hpeer] at hp
    obtain ⟨fault, hp⟩ := hp
    exact ⟨fault, by simp only [bind, Except.bind, hp]⟩
  | some p =>
    rw [hpeer] at hp
    cases hpeer' : (findStageProxy s.hierarchy (s.hierarchy.entities input).uri.first).filter
        fun e => s.hierarchy.live e with
    | none =>
      rw [hpeer'] at hq
      obtain ⟨fault, hq⟩ := hq
      exact ⟨fault, by simp only [bind, Except.bind, hp, hq]⟩
    | some q =>
      rw [hpeer'] at hq
      simp only [bind, Except.bind, hp, hq]
      rfl

/-- What the handlers do for peers that passed the checks. -/
def connectPeers (u : ZstSession) (output input : EntityId) (action : ConnectAction) :
    Except Fault ZstSession :=
  match action with
  | .cable cable sender id =>
    if (u.hierarchy.entities output).uri = (u.hierarchy.entities input).uri then
      cableConnectFinished u cable sender id .ok
    else .ok (connectClients u output input action)
  | _ => .ok (connectClients u output input action)

/-- The callback replies to a request of this sender. -/
def RepliesTo (action : ConnectAction) (sender : EntityId) (id : ZstMsgID) : Prop :=
  (∃ cable, action = .cable cable sender id) ∨ action = .observe sender id

/-- The cable that a callback captured is there. -/
def CableThere (s : ZstSession) (action : ConnectAction) : Prop :=
  ∀ cable sender id, action = .cable cable sender id → cable ∈ s.cables

/-- The outcome of a handler that is on course. -/
def OnCourse (s : ZstSession) (msg : ZstStageMessage) (sender : EntityId) : Course → Prop
  | .refused => ∃ signal, signal ≠ .ok ∧ signal ≠ .empty ∧ ZstStageSession.dispatch s msg sender = .ok (s, signal)
  | .lost => ∃ fault, ZstStageSession.dispatch s msg sender = .error fault
  | .peers output input action =>
    ∃ u, Replugged s u ∧ CableThere u action ∧ RepliesTo action sender msg.id ∧
      (s.hierarchy.entities output).stageProxy.isSome ∧
      (s.hierarchy.entities input).stageProxy.isSome ∧
      ZstStageSession.dispatch s msg sender = (connectPeers u output input action).map fun t => (t, .empty)

theorem performerOf_isSome {h : ZstHierarchy} {e p : EntityId} (hp : performerOf h e = some p) :
    (h.entities p).stageProxy.isSome := by
  unfold performerOf at hp
  split at hp
  · contradiction
  · rw [Option.filter_eq_some_iff] at hp
    exact (Option.filter_eq_some_iff.mp hp.1).2

theorem cable_onCourse (s : ZstSession) (msg : ZstStageMessage) (sender : EntityId)
    {path : ZstCableAddress} (hcontent : msg.content = .cableCreateRequest path) :
    OnCourse s msg sender (course s msg sender) := by
  have hdispatch : ZstStageSession.dispatch s msg sender = createCableHandler s msg path sender := by
    simp only [ZstStageSession.dispatch, hcontent]
  unfold course
  simp only [hcontent]
  cases hcable : s.findCable path with
  | some c =>
    refine ⟨.errStageBadCableConnectRequest, by decide, by decide, ?_⟩
    rw [hdispatch, createCableHandler, hcable]
    rfl
  | none =>
    simp only [Option.isSome_none, Bool.false_eq_true, if_false]
    cases hinput : s.findInputPlug path.inputURI with
    | none =>
      refine ⟨.errCablePlugsNotFound, by decide, by decide, ?_⟩
      rw [hdispatch, createCableHandler_refused s msg path sender hcable (Or.inl hinput)]
    | some input =>
      cases houtput : s.findOutputPlug path.outputURI with
      | none =>
        refine ⟨.errCablePlugsNotFound, by decide, by decide, ?_⟩
        rw [hdispatch, createCableHandler_refused s msg path sender hcable (Or.inr houtput)]
      | some output =>
        have hfound := createCableHandler_found s msg path sender input output hcable hinput houtput
        have hconnect := connectPlugs_eq s msg input output sender
        simp only
        cases hp : performerOf s.hierarchy output with
        | none =>
          rw [hp] at hconnect
          obtain ⟨fault, hconnect⟩ := hconnect
          exact ⟨fault, by rw [hdispatch, hfound, hconnect]⟩
        | some p =>
          cases hq : performerOf s.hierarchy input with
          | none =>
            rw [hp, hq] at hconnect
            obtain ⟨fault, hconnect⟩ := hconnect
            exact ⟨fault, by rw [hdispatch, hfound, hconnect]⟩
          | some q =>
            rw [hp, hq] at hconnect
            obtain ⟨hkeeps, -, hmem⟩ := plugged_keeps s input output
            refine ⟨plugged s input output, hkeeps, ?_, Or.inl ⟨_, rfl⟩, performerOf_isSome hp,
              performerOf_isSome hq, ?_⟩
            · intro cable _ _ haction
              cases haction
              exact hmem
            · rw [hdispatch, hfound, hconnect]
              simp only [connectPeers, hkeeps.field Entity.uri fun _ => rfl]
              split
              · cases cableConnectFinished (plugged s input output) _ sender msg.id .ok <;> rfl
              · rfl

theorem observeEntityHandler_eq (s : ZstSession) (msg : ZstStageMessage) (path : ZstURI)
    (sender : EntityId) (hpath : path ≠ []) :
    observeEntityHandler s msg path sender =
      match findStageProxy s.hierarchy path.first with
      | none => .ok (s, .errStagePerformerNotFound)
      | some observed =>
        if sender = observed then .ok (s, .errStagePerformerAlreadyConnected)
        else if (s.hierarchy.entities observed).hasConnectedSubscriber
            (s.hierarchy.entities sender) then .ok (s, .errStagePerformerAlreadyConnected)
        else .ok (connectClients s observed sender (.observe sender msg.id), .empty) := by
  unfold observeEntityHandler firstSegment
  rw [if_neg hpath]
  rfl

theorem observe_onCourse (s : ZstSession) (msg : ZstStageMessage) (sender : EntityId)
    (hsender : (s.hierarchy.entities sender).stageProxy.isSome)
    {path : ZstURI} (hcontent : msg.content = .entityObserveRequest path) :
    OnCourse s msg sender (course s msg sender) := by
  have hdispatch : ZstStageSession.dispatch s msg sender =
      observeEntityHandler s msg path sender := by
    simp only [ZstStageSession.dispatch, hcontent]
  unfold course
  simp only [hcontent]
  by_cases hpath : path = []
  · rw [if_pos hpath]
    refine ⟨.exception, ?_⟩
    rw [hdispatch]
    unfold observeEntityHandler firstSegment
    rw [if_pos hpath]
    rfl
  have hhandler := observeEntityHandler_eq s msg path sender hpath
  rw [if_neg hpath]
  cases hobserved : findStageProxy s.hierarchy path.first with
  | none =>
    refine ⟨.errStagePerformerNotFound, by decide, by decide, ?_⟩
    rw [hdispatch, hhandler, hobserved]
  | some observed =>
    rw [hobserved] at hhandler
    by_cases hself : sender = observed
    · simp only [if_pos hself] at hhandler ⊢
      exact ⟨.errStagePerformerAlreadyConnected, by decide, by decide, hdispatch.trans hhandler⟩
    · simp only [if_neg hself] at hhandler ⊢
      split
      · rename_i hconnected
        rw [if_pos hconnected] at hhandler
        exact ⟨.errStagePerformerAlreadyConnected, by decide, by decide, hdispatch.trans hhandler⟩
      · rename_i hfresh
        rw [if_neg hfresh] at hhandler
        refine ⟨s, .refl s, ?_, Or.inr rfl, ?_, hsender, hdispatch.trans hhandler⟩
        · intro cable _ _ haction
          cases haction
        · exact (Option.filter_eq_some_iff.mp hobserved).2

/-! ## What the requester hears -/

/-- The signals among some messages that reply to a request. -/
def replies (msg : ZstStageMessage) (messages : List Outgoing) : List Signal :=
  messages.filterMap fun m =>
    match m.content with
    | .signalMessage signal =>
      if m.target = msg.originEndpointUUID ∧ m.msgID = some msg.id then some signal else none
    | _ => none

/-- The callbacks that wait for a response to some messages. -/
def callbacks (messages : List Outgoing) : List ResponseAction :=
  messages.filterMap Outgoing.onRecvResponse

/-- Whether the connection that a request asks for stands, once a handshake has
brought its response. -/
def ConnectionStands (s : ZstSession) (msg : ZstStageMessage) (sender : EntityId)
    (response : Option Content) : Prop :=
  match course s msg sender with
  | .refused | .lost => False
  | .peers output input _ =>
    (s.hierarchy.entities output).uri = (s.hierarchy.entities input).uri ∨
      (s.hierarchy.entities output).hasConnectedSubscriber (s.hierarchy.entities input) ∨
      getSignal response = .ok

/-- The requester gets one signal for its request, from the handler or from the
callbacks that run later: OK if the connection stands, an error otherwise. -/
def AnsweredOnce (s : ZstSession) (msg : ZstStageMessage) (sender : EntityId)
    (response : Option Content) (later : ZstSession) : Prop :=
  ∃ t new u more signal,
    receive s msg = .ok t ∧ t.hierarchy.sent = s.hierarchy.sent ++ new ∧
    (callbacks new).foldlM (fun s callback => onRecvResponse s callback response) later = .ok u ∧
    u.hierarchy.sent = later.hierarchy.sent ++ more ∧
    replies msg (new ++ more) = [signal] ∧
    (signal = .ok ↔ ConnectionStands s msg sender response) ∧ signal ≠ .empty

/-- The performer is at the endpoint that a message came from. -/
def IsAt (s : ZstSession) (e : EntityId) (endpoint : Endpoint) : Prop :=
  (s.hierarchy.entities e).stageProxy.any fun proxy => proxy.originEndpointUUID = endpoint

/-- A check fails; or the peers are one performer and a cable was asked for; or
they are not connected yet, the handshake succeeds, and the objects that its
callback captured are there when it does. -/
def Answerable (s : ZstSession) (msg : ZstStageMessage) (sender : EntityId)
    (response : Option Content) (later : ZstSession) : Prop :=
  match course s msg sender with
  | .refused => True
  | .lost => False
  | .peers output input action =>
    if (s.hierarchy.entities output).uri = (s.hierarchy.entities input).uri then
      ∃ cable, action = .cable cable sender msg.id
    else
      ¬ (s.hierarchy.entities output).hasConnectedSubscriber (s.hierarchy.entities input) ∧
        getSignal response = .ok ∧
        later.hierarchy.live output ∧ later.hierarchy.live input ∧
        CableThere later action ∧
        later.hierarchy.live sender ∧ IsAt later sender msg.originEndpointUUID

theorem replies_append (msg : ZstStageMessage) (first second : List Outgoing) :
    replies msg (first ++ second) = replies msg first ++ replies msg second :=
  List.filterMap_append

theorem replies_quiet (msg : ZstStageMessage) {messages : List Outgoing}
    (hquiet : ∀ m ∈ messages, IsAnnouncement m) : replies msg messages = [] := by
  refine List.filterMap_eq_nil_iff.mpr fun m hm => ?_
  have hsignal := (hquiet m hm).2
  cases hcontent : m.content with
  | signalMessage signal => exact absurd hcontent (hsignal signal)
  | _ => rfl

theorem callbacks_quiet {messages : List Outgoing} (hquiet : ∀ m ∈ messages, IsAnnouncement m) :
    callbacks messages = [] :=
  List.filterMap_eq_nil_iff.mpr fun m hm => (hquiet m hm).1

theorem callbacks_append (first second : List Outgoing) :
    callbacks (first ++ second) = callbacks first ++ callbacks second :=
  List.filterMap_append

/-- A whispered signal is a reply if the performer is where the request came from. -/
theorem replies_whisper (s : ZstSession) (msg : ZstStageMessage) (sender : EntityId)
    (signal : Signal) :
    (IsAt s sender msg.originEndpointUUID →
      replies msg (whisperMessages s.hierarchy sender (.signalMessage signal) (some msg.id) none) =
        [signal]) ∧
    (¬ IsAt s sender msg.originEndpointUUID →
      replies msg (whisperMessages s.hierarchy sender (.signalMessage signal) (some msg.id) none) =
        []) := by
  unfold IsAt replies whisperMessages
  cases (s.hierarchy.entities sender).stageProxy with
  | none => simp
  | some proxy =>
    refine ⟨fun hat => ?_, fun hat => ?_⟩
    · simp_all
    · simp_all

/-! ## The callbacks -/

theorem cableConnectFinished_ok (v : ZstSession) (cable : CableId) (sender : EntityId)
    (id : ZstMsgID) (hcable : cable ∈ v.cables) (hlive : v.hierarchy.live sender = true) :
    ∃ w quiet, cableConnectFinished v cable sender id .ok = .ok w ∧
      (∀ m ∈ quiet, IsAnnouncement m) ∧
      w.hierarchy.sent = v.hierarchy.sent ++
        (quiet ++ whisperMessages v.hierarchy sender (.signalMessage .ok) (some id) none) := by
  have hrun : cableConnectFinished v cable sender id .ok =
      .ok (onHierarchy v fun h => replyWithSignal
        (broadcast h (.cableCreateRequest (v.cableObjects cable).address)) sender .ok id) := by
    unfold cableConnectFinished derefCable
    rw [if_pos rfl, if_pos hcable]
    simp only [broadcast_eq, onHierarchy, deref, hlive, bind, Except.bind, pure, Except.pure,
      if_true]
  refine ⟨_, broadcastMessages v.hierarchy (.cableCreateRequest (v.cableObjects cable).address),
    hrun, fun m hm => quiet_of_broadcast (fun _ => by simp) hm, ?_⟩
  simp only [onHierarchy, replyWithSignal, broadcast_eq, whisperTo_eq, List.append_assoc]
  rfl

theorem cableConnectFinished_error (v : ZstSession) (cable : CableId) (sender : EntityId)
    (id : ZstMsgID) (hgone : cable ∉ v.cables ∨ v.hierarchy.live sender = false) :
    ∃ fault, cableConnectFinished v cable sender id .ok = .error fault := by
  unfold cableConnectFinished derefCable
  rw [if_pos rfl]
  by_cases hcable : cable ∈ v.cables
  · have hlive := hgone.resolve_left (not_not_intro hcable)
    rw [if_pos hcable]
    refine ⟨.freedPointer, ?_⟩
    simp [broadcast_eq, onHierarchy, deref, hlive, bind, Except.bind, pure, Except.pure]
  · rw [if_neg hcable]
    exact ⟨.freedPointer, rfl⟩

/-- After an OK response the callback replies to the requester, if what it
captured is there. -/
theorem onConnected_ok (v : ZstSession) {action : ConnectAction} {sender : EntityId}
    {id : ZstMsgID} {response : Option Content} (hok : getSignal response = .ok)
    (haction : RepliesTo action sender id) (hcable : CableThere v action)
    (hlive : v.hierarchy.live sender = true) :
    ∃ w quiet, onConnected v action response = .ok w ∧ (∀ m ∈ quiet, IsAnnouncement m) ∧
      w.hierarchy.sent = v.hierarchy.sent ++
        (quiet ++ whisperMessages v.hierarchy sender (.signalMessage .ok) (some id) none) := by
  rcases haction with ⟨cable, rfl⟩ | rfl
  · have hmem := hcable cable sender id rfl
    simpa only [onConnected, hok] using cableConnectFinished_ok v cable sender id hmem hlive
  · refine ⟨onHierarchy v fun h => replyWithSignal h sender .ok id, [], ?_, by simp, ?_⟩
    · simp [onConnected, hok, deref, hlive, bind, Except.bind, pure, Except.pure]
    · simp only [onHierarchy, replyWithSignal, whisperTo_eq, List.nil_append]

theorem onConnected_error (v : ZstSession) {action : ConnectAction} {sender : EntityId}
    {id : ZstMsgID} {response : Option Content} (hok : getSignal response = .ok)
    (haction : RepliesTo action sender id)
    (hgone : ¬ (CableThere v action ∧ v.hierarchy.live sender = true)) :
    ∃ fault, onConnected v action response = .error fault := by
  rcases haction with ⟨cable, rfl⟩ | rfl
  · simp only [onConnected, hok]
    refine cableConnectFinished_error v cable sender id ?_
    by_contra hthere
    obtain ⟨hmem, hlive⟩ := not_or.mp hthere
    refine hgone ⟨fun c _ _ heq => ?_, Bool.eq_true_of_not_eq_false hlive⟩
    cases heq
    exact not_not.mp hmem
  · have hlive : v.hierarchy.live sender = false := by
      by_contra hthere
      exact hgone ⟨(fun _ _ _ heq => by cases heq), Bool.eq_true_of_not_eq_false hthere⟩
    exact ⟨.freedPointer, by simp [onConnected, deref, hlive, bind, Except.bind]⟩

/-- Subscribing changes neither what is alive nor where a performer is. -/
theorem subscribe_keeps (s : ZstSession) (output input e : EntityId) (endpoint : Endpoint) :
    IsAt (completeClientConnection s output input) e endpoint ↔ IsAt s e endpoint := by
  rw [completeClientConnection_eq]
  simp only [IsAt, onHierarchy, subscribe, modify_entities]
  split
  · rename_i heq
    simp only [heq, Entity.addSubscriber, Option.any_map]
  · exact Iff.rfl

theorem subscribe_live (s : ZstSession) (output input e : EntityId) :
    (completeClientConnection s output input).hierarchy.live e = s.hierarchy.live e := by
  rw [completeClientConnection_eq]
  rfl

theorem subscribe_sent (s : ZstSession) (output input : EntityId) :
    ∃ quiet, (∀ m ∈ quiet, IsAnnouncement m) ∧
      (completeClientConnection s output input).hierarchy.sent = s.hierarchy.sent ++ quiet := by
  rw [completeClientConnection_eq]
  refine ⟨_, fun m hm => ?_, rfl⟩
  unfold whisperMessages at hm
  cases hproxy : ((subscribe s.hierarchy output input).entities output).stageProxy with
  | none => simp [hproxy] at hm
  | some proxy =>
    simp only [hproxy, Option.map_some, Option.toList_some, List.mem_singleton] at hm
    rw [hm]
    exact ⟨rfl, fun _ => by simp⟩

theorem deref_some_of_live {h : ZstHierarchy} {e : EntityId} (hlive : h.live e = true) :
    h.deref (some e) = .ok e := by
  simp [deref, hlive]

theorem deref_some_of_freed {h : ZstHierarchy} {e : EntityId} (hfreed : ¬ h.live e = true) :
    h.deref (some e) = .error .freedPointer := by
  simp [deref, hfreed]

/-- The response to a handshake as the requester sees it. -/
theorem clientsConnected_answers_iff (later : ZstSession) (msg : ZstStageMessage)
    (output input sender : EntityId) (action : ConnectAction) (response : Option Content)
    (haction : RepliesTo action sender msg.id) (P : Signal → Prop) :
    (∃ u more signal, clientsConnected later output input action response = .ok u ∧
      u.hierarchy.sent = later.hierarchy.sent ++ more ∧ replies msg more = [signal] ∧ P signal) ↔
    (getSignal response = .ok ∧ later.hierarchy.live output ∧ later.hierarchy.live input ∧
      CableThere later action ∧ later.hierarchy.live sender ∧
      IsAt later sender msg.originEndpointUUID) ∧ P .ok := by
  by_cases hok : getSignal response = .ok
  swap
  · -- any other response ends here, without a word to the requester
    refine iff_of_false ?_ fun hcond => hok hcond.1.1
    rintro ⟨u, more, signal, hrun, hsent, hreplies, -⟩
    have hverify : ¬ verifySignal response .ok = true := mt (verifySignal_ok response).mp hok
    unfold clientsConnected at hrun
    rw [if_neg hverify] at hrun
    cases hrun
    rw [List.self_eq_append_right.mp hsent] at hreplies
    cases hreplies
  have hverify : verifySignal response .ok = true := (verifySignal_ok response).mpr hok
  unfold clientsConnected
  rw [if_pos hverify]
  by_cases houtput : later.hierarchy.live output = true
  swap
  · rw [deref_some_of_freed houtput]
    refine iff_of_false ?_ fun hcond => houtput hcond.1.2.1
    rintro ⟨u, more, signal, hrun, -⟩
    cases hrun
  by_cases hinput : later.hierarchy.live input = true
  swap
  · rw [deref_some_of_live houtput, deref_some_of_freed hinput]
    refine iff_of_false ?_ fun hcond => hinput hcond.1.2.2.1
    rintro ⟨u, more, signal, hrun, -⟩
    cases hrun
  rw [deref_some_of_live houtput, deref_some_of_live hinput]
  change (∃ u more signal,
    onConnected (completeClientConnection later output input) action response = .ok u ∧ _) ↔ _
  by_cases hthere : CableThere later action ∧
      (completeClientConnection later output input).hierarchy.live sender = true
  swap
  · refine iff_of_false ?_ fun hcond => hthere
      ⟨hcond.1.2.2.2.1, (subscribe_live later output input sender).trans hcond.1.2.2.2.2.1⟩
    rintro ⟨u, more, signal, hrun, -⟩
    obtain ⟨fault, herror⟩ := onConnected_error (completeClientConnection later output input) hok
      haction hthere
    rw [herror] at hrun
    cases hrun
  obtain ⟨w, quiet, hw, hquiet, hsentw⟩ :=
    onConnected_ok (completeClientConnection later output input) hok haction hthere.1 hthere.2
  obtain ⟨stop, hstop, hsent⟩ := subscribe_sent later output input
  have hat := subscribe_keeps later output input sender msg.originEndpointUUID
  obtain ⟨hreply, hlost⟩ := replies_whisper (completeClientConnection later output input) msg
    sender .ok
  rw [hsent, List.append_assoc] at hsentw
  constructor
  · rintro ⟨u, more, signal, hrun, hsentu, hreplies, hP⟩
    rw [hw] at hrun
    cases hrun
    rw [hsentw, List.append_cancel_left_eq] at hsentu
    rw [← hsentu, replies_append, replies_append, replies_quiet msg hstop,
      replies_quiet msg hquiet] at hreplies
    by_cases hendpoint : IsAt (completeClientConnection later output input) sender
        msg.originEndpointUUID
    · rw [hreply hendpoint] at hreplies
      cases hreplies
      have hlive := (subscribe_live later output input sender).symm.trans hthere.2
      exact ⟨⟨hok, houtput, hinput, hthere.1, hlive, hat.mp hendpoint⟩, hP⟩
    · rw [hlost hendpoint] at hreplies
      cases hreplies
  · rintro ⟨⟨-, -, -, -, -, hendpoint⟩, hP⟩
    refine ⟨w, _, .ok, hw, hsentw, ?_, hP⟩
    rw [replies_append, replies_append, replies_quiet msg hstop, replies_quiet msg hquiet,
      hreply (hat.mpr hendpoint)]
    rfl

/-! ## The handlers -/

/-- The requests that connect two clients. -/
def IsConnectRequest : Content → Prop
  | .cableCreateRequest _ | .entityObserveRequest _ => True
  | _ => False

/-- The hierarchy has nothing to do with these requests. -/
theorem hierarchyReceive_request {msg : ZstStageMessage} (hrequest : IsConnectRequest msg.content)
    (h : ZstHierarchy) : ZstStageHierarchy.onReceiveMsg h msg = .ok h := by
  unfold ZstStageHierarchy.onReceiveMsg ZstStageHierarchy.dispatch
  cases hcontent : msg.content with
  | cableCreateRequest path => rfl
  | entityObserveRequest path => rfl
  | _ =>
    rw [hcontent] at hrequest
    exact absurd hrequest not_false

/-- The session has all the work. -/
theorem receive_request (s : ZstSession) (msg : ZstStageMessage) (sender : EntityId)
    (hrequest : IsConnectRequest msg.content)
    (hsender : getClientFromEndpointUUID s.hierarchy msg.originEndpointUUID = some sender) :
    receive s msg = (ZstStageSession.dispatch s msg sender).map fun result =>
      onHierarchy result.1 fun h => respond h msg result.2 := by
  have hhierarchy := hierarchyReceive_request hrequest
  unfold receive ZstStageSession.onReceiveMsg
  rw [hsender]
  cases hdispatch : ZstStageSession.dispatch s msg sender with
  | error fault => simp only [hdispatch, bind, Except.bind, Except.map]
  | ok result =>
    simp only [hdispatch, hhierarchy, bind, Except.bind, Except.map, pure, Except.pure]

theorem request_onCourse (s : ZstSession) (msg : ZstStageMessage) (sender : EntityId)
    (hrequest : IsConnectRequest msg.content)
    (hproxy : (s.hierarchy.entities sender).stageProxy.isSome) :
    OnCourse s msg sender (course s msg sender) := by
  cases hcontent : msg.content with
  | cableCreateRequest path => exact cable_onCourse s msg sender hcontent
  | entityObserveRequest path => exact observe_onCourse s msg sender hproxy hcontent
  | _ =>
    rw [hcontent] at hrequest
    exact absurd hrequest not_false

/-- The sender of a message is at the endpoint that it came from. -/
theorem isAt_of_client {s : ZstSession} {endpoint : Endpoint} {sender : EntityId}
    (hsender : getClientFromEndpointUUID s.hierarchy endpoint = some sender) :
    IsAt s sender endpoint := by
  unfold getClientFromEndpointUUID at hsender
  have hat := List.find?_some hsender
  exact hat

theorem isSome_of_isAt {s : ZstSession} {e : EntityId} {endpoint : Endpoint}
    (hat : IsAt s e endpoint) : (s.hierarchy.entities e).stageProxy.isSome := by
  unfold IsAt at hat
  cases hproxy : (s.hierarchy.entities e).stageProxy with
  | none => simp [hproxy] at hat
  | some proxy => rfl

/-- A handler that leaves no callback behind is judged by its own messages. -/
theorem answeredOnce_of_done {s t : ZstSession} {msg : ZstStageMessage} {sender : EntityId}
    {response : Option Content} {later : ZstSession} {new : List Outgoing}
    (hreceive : receive s msg = .ok t) (hsent : t.hierarchy.sent = s.hierarchy.sent ++ new)
    (hcallbacks : callbacks new = []) :
    AnsweredOnce s msg sender response later ↔
      ∃ signal, replies msg new = [signal] ∧
        (signal = .ok ↔ ConnectionStands s msg sender response) ∧ signal ≠ .empty := by
  constructor
  · rintro ⟨t', new', u, more, signal, hreceive', hsent', hrun, hsentu, hreplies, hsignal⟩
    rw [hreceive] at hreceive'
    cases hreceive'
    rw [hsent, List.append_cancel_left_eq] at hsent'
    subst hsent'
    rw [hcallbacks] at hrun
    cases hrun
    rw [List.self_eq_append_right.mp hsentu, List.append_nil] at hreplies
    exact ⟨signal, hreplies, hsignal⟩
  · rintro ⟨signal, hreplies, hsignal⟩
    refine ⟨t, new, later, [], signal, hreceive, hsent, ?_, by simp, by simpa using hreplies,
      hsignal⟩
    rw [hcallbacks]
    rfl

/-- A handler that leaves one callback behind, and no reply, is judged by it. -/
theorem answeredOnce_of_waiting {s t : ZstSession} {msg : ZstStageMessage} {sender : EntityId}
    {response : Option Content} {later : ZstSession} {new : List Outgoing}
    (callback : ResponseAction) (hreceive : receive s msg = .ok t)
    (hsent : t.hierarchy.sent = s.hierarchy.sent ++ new) (hcallbacks : callbacks new = [callback])
    (hreplies : replies msg new = []) :
    AnsweredOnce s msg sender response later ↔
      ∃ u more signal, onRecvResponse later callback response = .ok u ∧
        u.hierarchy.sent = later.hierarchy.sent ++ more ∧ replies msg more = [signal] ∧
        ((signal = .ok ↔ ConnectionStands s msg sender response) ∧ signal ≠ .empty) := by
  have hfold : (callbacks new).foldlM (fun s callback => onRecvResponse s callback response) later
      = onRecvResponse later callback response := by
    rw [hcallbacks]
    exact bind_pure _
  constructor
  · rintro ⟨t', new', u, more, signal, hreceive', hsent', hrun, hsentu, hreplies', hsignal⟩
    rw [hreceive] at hreceive'
    cases hreceive'
    rw [hsent, List.append_cancel_left_eq] at hsent'
    subst hsent'
    rw [hfold] at hrun
    rw [replies_append, hreplies, List.nil_append] at hreplies'
    exact ⟨u, more, signal, hrun, hsentu, hreplies', hsignal⟩
  · rintro ⟨u, more, signal, hrun, hsentu, hreplies', hsignal⟩
    refine ⟨t, new, u, more, signal, hreceive, hsent, hfold.trans hrun, hsentu, ?_, hsignal⟩
    rw [replies_append, hreplies, List.nil_append, hreplies']

theorem not_answeredOnce_of_error {s : ZstSession} {msg : ZstStageMessage} {sender : EntityId}
    {response : Option Content} {later : ZstSession} {fault : Fault}
    (hreceive : receive s msg = .error fault) : ¬ AnsweredOnce s msg sender response later := by
  rintro ⟨t, new, u, more, signal, hreceive', -⟩
  rw [hreceive] at hreceive'
  cases hreceive'

/-- Connecting fresh peers leaves one callback behind. -/
theorem connectClients_fresh (u : ZstSession) (output input : EntityId) (action : ConnectAction)
    (houtput : (u.hierarchy.entities output).stageProxy.isSome)
    (hinput : (u.hierarchy.entities input).stageProxy.isSome)
    (hfresh : ¬ (u.hierarchy.entities output).hasConnectedSubscriber (u.hierarchy.entities input))
    (huri : (u.hierarchy.entities output).uri ≠ (u.hierarchy.entities input).uri) :
    ∃ handshake, (connectClients u output input action).hierarchy.sent =
        u.hierarchy.sent ++ handshake ∧
      callbacks handshake = [.clientsConnected output input action] ∧
      ∀ msg, replies msg handshake = [] := by
  obtain ⟨outputProxy, houtput⟩ := Option.isSome_iff_exists.mp houtput
  obtain ⟨inputProxy, hinput⟩ := Option.isSome_iff_exists.mp hinput
  unfold connectClients
  simp only [if_neg hfresh, if_neg huri, whisperTo_eq, onHierarchy, List.append_assoc,
    List.append_cancel_left_eq]
  refine ⟨_, rfl, ?_, fun msg => ?_⟩
  · simp [whisperMessages, houtput, hinput, callbacks]
  · simp [whisperMessages, houtput, hinput, replies]

theorem connectClients_idle (u : ZstSession) (output input : EntityId) (action : ConnectAction)
    (hidle : (u.hierarchy.entities output).hasConnectedSubscriber (u.hierarchy.entities input) ∨
      (u.hierarchy.entities output).uri = (u.hierarchy.entities input).uri) :
    connectClients u output input action = u := by
  unfold connectClients
  simp only
  split_ifs with hconnected huri
  · rfl
  · rfl
  · exact absurd hidle (not_or_intro hconnected huri)

theorem Replugged.hasConnectedSubscriber {s u : ZstSession} (hkeeps : Replugged s u)
    (output input : EntityId) :
    (u.hierarchy.entities output).hasConnectedSubscriber (u.hierarchy.entities input) =
      (s.hierarchy.entities output).hasConnectedSubscriber (s.hierarchy.entities input) := by
  simp only [Entity.hasConnectedSubscriber, hkeeps.field Entity.stageProxy fun _ => rfl,
    hkeeps.field Entity.uri fun _ => rfl]

theorem receive_of_dispatch {s t : ZstSession} {msg : ZstStageMessage} {sender : EntityId}
    {signal : Signal} (hrequest : IsConnectRequest msg.content)
    (hsender : getClientFromEndpointUUID s.hierarchy msg.originEndpointUUID = some sender)
    (hdispatch : ZstStageSession.dispatch s msg sender = .ok (t, signal)) :
    ∃ t', receive s msg = .ok t' ∧
      t'.hierarchy.sent = t.hierarchy.sent ++ responseMessages msg signal := by
  refine ⟨_, (receive_request s msg sender hrequest hsender).trans (by rw [hdispatch]; rfl), ?_⟩
  simp only [onHierarchy, respond_eq]

/-- A check that fails is answered at once, with an error. -/
theorem refused_answered {s : ZstSession} {msg : ZstStageMessage} {sender : EntityId}
    {response : Option Content} {later : ZstSession} {signal : Signal}
    (hrequest : IsConnectRequest msg.content)
    (hsender : getClientFromEndpointUUID s.hierarchy msg.originEndpointUUID = some sender)
    (hcourse : course s msg sender = .refused) (hok : signal ≠ .ok) (hempty : signal ≠ .empty)
    (hdispatch : ZstStageSession.dispatch s msg sender = .ok (s, signal)) :
    AnsweredOnce s msg sender response later := by
  obtain ⟨t, hreceive, hsent⟩ := receive_of_dispatch hrequest hsender hdispatch
  have hmessages : responseMessages msg signal =
      [{ target := msg.originEndpointUUID, content := .signalMessage signal
         msgID := some msg.id }] := by
    simp only [responseMessages, if_neg hempty]
  rw [hmessages] at hsent
  refine (answeredOnce_of_done hreceive hsent rfl).mpr ⟨signal, by simp [replies], ?_, hempty⟩
  refine iff_of_false hok ?_
  unfold ConnectionStands
  rw [hcourse]
  exact not_false

/-- A handler that sends nothing but quiet messages and gives no response is silent. -/
theorem silent_not_answered {s u : ZstSession} {msg : ZstStageMessage} {sender : EntityId}
    {response : Option Content} {later : ZstSession} {quiet : List Outgoing}
    (hrequest : IsConnectRequest msg.content)
    (hsender : getClientFromEndpointUUID s.hierarchy msg.originEndpointUUID = some sender)
    (hquiet : ∀ m ∈ quiet, IsAnnouncement m) (hsentu : u.hierarchy.sent = s.hierarchy.sent ++ quiet)
    (hdispatch : ZstStageSession.dispatch s msg sender = .ok (u, .empty)) :
    ¬ AnsweredOnce s msg sender response later := by
  obtain ⟨t, hreceive, hsent⟩ := receive_of_dispatch hrequest hsender hdispatch
  rw [responseMessages_empty, List.append_nil, hsentu] at hsent
  rw [answeredOnce_of_done hreceive hsent (callbacks_quiet hquiet)]
  rintro ⟨signal, hreplies, -⟩
  rw [replies_quiet msg hquiet] at hreplies
  cases hreplies

/-- A handler that whispers an OK to the requester answers a request whose connection
stands. -/
theorem whispered_answered {s u w : ZstSession} {msg : ZstStageMessage} {sender : EntityId}
    {response : Option Content} {later : ZstSession} {quiet : List Outgoing}
    (hrequest : IsConnectRequest msg.content)
    (hsender : getClientFromEndpointUUID s.hierarchy msg.originEndpointUUID = some sender)
    (hquiet : ∀ m ∈ quiet, IsAnnouncement m) (hat : IsAt u sender msg.originEndpointUUID)
    (hsentw : w.hierarchy.sent = s.hierarchy.sent ++ (quiet ++
      whisperMessages u.hierarchy sender (.signalMessage .ok) (some msg.id) none))
    (hdispatch : ZstStageSession.dispatch s msg sender = .ok (w, .empty))
    (hstands : ConnectionStands s msg sender response) :
    AnsweredOnce s msg sender response later := by
  obtain ⟨t, hreceive, hsent⟩ := receive_of_dispatch hrequest hsender hdispatch
  rw [responseMessages_empty, List.append_nil, hsentw] at hsent
  obtain ⟨hreply, -⟩ := replies_whisper u msg sender .ok
  refine (answeredOnce_of_done hreceive hsent ?_).mpr
    ⟨.ok, ?_, iff_of_true rfl hstands, by decide⟩
  · rw [callbacks_append, callbacks_quiet hquiet]
    unfold whisperMessages callbacks
    cases (u.hierarchy.entities sender).stageProxy <;> rfl
  · rw [replies_append, replies_quiet msg hquiet, hreply hat]
    rfl

/-- Exactly one reply reaches the requester if and only if the request is
answerable: a pair that is connected already and a handshake that fails are
passed over in silence. -/
theorem answeredOnce_iff (s : ZstSession) (msg : ZstStageMessage) (sender : EntityId)
    (response : Option Content) (later : ZstSession)
    (hrequest : IsConnectRequest msg.content)
    (hsender : getClientFromEndpointUUID s.hierarchy msg.originEndpointUUID = some sender)
    (hlive : s.hierarchy.live sender = true) :
    AnsweredOnce s msg sender response later ↔ Answerable s msg sender response later := by
  have hat := isAt_of_client hsender
  have hcourse := request_onCourse s msg sender hrequest (isSome_of_isAt hat)
  unfold Answerable
  cases hkind : course s msg sender with
  | refused =>
    rw [hkind] at hcourse
    obtain ⟨signal, hok, hempty, hdispatch⟩ := hcourse
    exact iff_of_true (refused_answered hrequest hsender hkind hok hempty hdispatch) trivial
  | lost =>
    rw [hkind] at hcourse
    obtain ⟨fault, hdispatch⟩ := hcourse
    have hreceive := receive_request s msg sender hrequest hsender
    rw [hdispatch] at hreceive
    exact iff_of_false (not_answeredOnce_of_error hreceive) not_false
  | peers output input action =>
    rw [hkind] at hcourse
    obtain ⟨u, hkeeps, hcable, haction, houtput, hinput, hdispatch⟩ := hcourse
    obtain ⟨quiet, hquiet, hsentu⟩ := hkeeps.sent
    have huri := hkeeps.field Entity.uri fun _ => rfl
    have hstands : ConnectionStands s msg sender response ↔
        (s.hierarchy.entities output).uri = (s.hierarchy.entities input).uri ∨
          (s.hierarchy.entities output).hasConnectedSubscriber (s.hierarchy.entities input) ∨
          getSignal response = .ok := by
      unfold ConnectionStands
      rw [hkind]
    by_cases hsame : (s.hierarchy.entities output).uri = (s.hierarchy.entities input).uri
    · simp only [if_pos hsame]
      rcases haction with ⟨cable, rfl⟩ | rfl
      · refine iff_of_true ?_ ⟨cable, rfl⟩
        have hliveu : u.hierarchy.live sender = true := by rw [hkeeps.live, hlive]
        obtain ⟨w, more, hw, hmore, hsentw⟩ := cableConnectFinished_ok u cable sender msg.id
          (hcable cable sender msg.id rfl) hliveu
        have hdispatchw : ZstStageSession.dispatch s msg sender = .ok (w, .empty) := by
          rw [hdispatch]
          simp only [connectPeers, huri, if_pos hsame, hw]
          rfl
        have hatu : IsAt u sender msg.originEndpointUUID := by
          unfold IsAt
          rw [hkeeps.field Entity.stageProxy fun _ => rfl]
          exact hat
        have hall : ∀ m ∈ quiet ++ more, IsAnnouncement m := fun m hm =>
          (List.mem_append.mp hm).elim (hquiet m) (hmore m)
        rw [hsentu, List.append_assoc, ← List.append_assoc quiet] at hsentw
        exact whispered_answered hrequest hsender hall hatu hsentw hdispatchw
          (hstands.mpr (Or.inl hsame))
      · refine iff_of_false (silent_not_answered hrequest hsender hquiet hsentu ?_)
          (by rintro ⟨cable, heq⟩; cases heq)
        rw [hdispatch]
        simp only [connectPeers, connectClients_idle u output input _
          (Or.inr (by rw [huri, huri, hsame]))]
        rfl
    · simp only [if_neg hsame]
      have hconnect : ZstStageSession.dispatch s msg sender =
          .ok (connectClients u output input action, .empty) := by
        rw [hdispatch]
        rcases haction with ⟨cable, rfl⟩ | rfl
        · simp only [connectPeers, huri, if_neg hsame]
          rfl
        · rfl
      by_cases hconnected : (s.hierarchy.entities output).hasConnectedSubscriber
          (s.hierarchy.entities input)
      · refine iff_of_false (silent_not_answered hrequest hsender hquiet hsentu ?_)
          fun hcond => hcond.1 hconnected
        rw [hconnect, connectClients_idle u output input action
          (Or.inl (by rw [hkeeps.hasConnectedSubscriber, hconnected]))]
      obtain ⟨handshake, hsenth, hcallbacks, hreplies⟩ := connectClients_fresh u output input action
        (by rw [hkeeps.field Entity.stageProxy fun _ => rfl]; exact houtput)
        (by rw [hkeeps.field Entity.stageProxy fun _ => rfl]; exact hinput)
        (by rw [hkeeps.hasConnectedSubscriber]; exact hconnected)
        (by rw [huri, huri]; exact hsame)
      obtain ⟨t, hreceive, hsent⟩ := receive_of_dispatch hrequest hsender hconnect
      rw [responseMessages_empty, List.append_nil, hsenth, hsentu, List.append_assoc] at hsent
      rw [answeredOnce_of_waiting (.clientsConnected output input action) hreceive hsent
        (by rw [callbacks_append, callbacks_quiet hquiet, hcallbacks]; rfl)
        (by rw [replies_append, replies_quiet msg hquiet, hreplies]; rfl)]
      refine (clientsConnected_answers_iff later msg output input sender action response haction
        fun signal => (signal = .ok ↔ ConnectionStands s msg sender response) ∧
          signal ≠ .empty).trans ?_
      constructor
      · rintro ⟨hcond, -⟩
        exact ⟨hconnected, hcond⟩
      · rintro ⟨-, hcond⟩
        refine ⟨hcond, iff_of_true rfl ?_, by decide⟩
        exact hstands.mpr (Or.inr (Or.inr hcond.1))

/-! ## Two clients -/

/-- The performers `ada` and `bob`, an output plug of hers and an input plug of
his; she publishes to the given peers already. -/
def twoClients (peers : List ZstURI) : ZstSession where
  hierarchy := ofList
    [ { entityType := .performer, uri := ["ada"], registered := true, isProxy := true
        syncStatus := .activated, children := [["ada", "out"]]
        stageProxy := some { originEndpointUUID := 1, connectedSubscriberPeers := peers } },
      { entityType := .performer, uri := ["bob"], registered := true, isProxy := true
        syncStatus := .activated, children := [["bob", "in"]]
        stageProxy := some { originEndpointUUID := 2 } },
      { entityType := .plug, uri := ["ada", "out"], parentAddress := ["ada"], registered := true
        isProxy := true, sessionAdaptor := true, syncStatus := .activated, direction := .outJack },
      { entityType := .plug, uri := ["bob", "in"], parentAddress := ["bob"], registered := true
        isProxy := true, sessionAdaptor := true, syncStatus := .activated, direction := .inJack } ]
  cableObjects _ := { address := ⟨[], []⟩, input := 0, output := 0 }

def bobRequest : ZstStageMessage :=
  ⟨.cableCreateRequest ⟨["bob", "in"], ["ada", "out"]⟩, 5, 2⟩

/-- The session that has created the cable and waits for the handshake. -/
def awaiting : ZstSession :=
  ((twoClients []).createCable 3 2).1

/-- Fresh peers and an OK response make one reply. -/
theorem answeredOnce_iff_handshake :
    AnsweredOnce (twoClients []) bobRequest 1 (some (.signalMessage .ok)) awaiting := by
  refine (answeredOnce_iff (twoClients []) bobRequest 1 (some (.signalMessage .ok)) awaiting
    trivial (by decide) (by decide)).mpr ?_
  have hcourse : course (twoClients []) bobRequest 1 = .peers 0 1 (.cable 0 1 5) := by decide
  unfold Answerable
  rw [hcourse]
  refine ⟨by decide, rfl, rfl, rfl, ?_, rfl, rfl⟩
  rintro cable sender id heq
  cases heq
  decide

/-- `bob` asks for a cable from `ada`, to whom he is subscribed, and hears nothing. -/
theorem connectedPeers_unanswered :
    ¬ AnsweredOnce (twoClients [["bob"]]) bobRequest 1 (some (.signalMessage .ok))
      (twoClients [["bob"]]) := by
  obtain ⟨t, hreceive, hsent, hcallbacks⟩ :
      ∃ t, receive (twoClients [["bob"]]) bobRequest = .ok t ∧
        t.hierarchy.sent = (twoClients [["bob"]]).hierarchy.sent ++ [] ∧
        callbacks [] = [] := ⟨_, rfl, rfl, rfl⟩
  rw [answeredOnce_of_done hreceive hsent hcallbacks]
  rintro ⟨signal, hreplies, -⟩
  cases hreplies

end Showtime.ConnectReplies
