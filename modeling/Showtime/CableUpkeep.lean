import Showtime.Keeping
import Showtime.RenamedCables
/-!
# The upkeep of cables

Cables come and go, entities arrive, are activated and counted, and the stage
answers messages. Each of these leaves the other cables in use where they are,
with the plugs that list them.
-/

namespace Showtime.RenamedCables

open ZstHierarchy ZstStageHierarchy ZstStageSession ZstStage Cabling CableSets Footprint Sending
open ConnectReplies (Replugged)

/-! ## What an entity keeps -/

/-- Every entity keeps this of itself. -/
def SameField {β : Type} (f : Entity → β) (h k : ZstHierarchy) : Prop :=
  ∀ e, f (k.entities e) = f (h.entities e)

namespace SameField

variable {β : Type} {f : Entity → β} {h k l : ZstHierarchy}

theorem refl (h : ZstHierarchy) : SameField f h h :=
  fun _ => rfl

theorem trans (hk : SameField f h k) (kl : SameField f k l) : SameField f h l :=
  fun e => (kl e).trans (hk e)

theorem modify (h : ZstHierarchy) (e : EntityId) (g : Entity → Entity)
    (hg : ∀ x, f (g x) = f x) : SameField f h (h.modify e g) := fun d => by
  rw [modify_entities]
  split
  · rename_i hde
    rw [hg, hde]
  · rfl

theorem foldl {α : Type} {g : ZstHierarchy → α → ZstHierarchy}
    (hg : ∀ h a, SameField f h (g h a)) (items : List α) (h : ZstHierarchy) :
    SameField f h (items.foldl g h) := by
  induction items generalizing h with
  | nil => exact .refl h
  | cons a items ih => exact (hg h a).trans (ih (g h a))

section Status

variable (hstatus : ∀ x status, f { x with syncStatus := status } = f x)

include hstatus

theorem setActivationStatus (h : ZstHierarchy) (e : EntityId) (status : ZstSyncStatus) :
    SameField f h (h.setActivationStatus e status) :=
  .modify h e _ fun x => hstatus x status

theorem deactivateEntityBase (h : ZstHierarchy) (e : EntityId) :
    SameField f h (h.deactivateEntityBase e) := by
  unfold ZstHierarchy.deactivateEntityBase
  split
  · exact .refl h
  · exact setActivationStatus hstatus h e _

theorem onSynchronisableDestroyed (h : ZstHierarchy) (e : EntityId) (alreadyRemoved : Bool) :
    SameField f h (ZstHierarchy.onSynchronisableDestroyed stageOverrides h e alreadyRemoved) := by
  have hbase : SameField f h (if (h.entities e).isActivated ∨ (h.entities e).syncStatus = .destroyed
      then stageOverrides.deactivateEntity h e
        (if alreadyRemoved then .publish else .syncReply) else h) := by
    split
    · exact deactivateEntityBase hstatus h e
    · exact .refl h
  unfold ZstHierarchy.onSynchronisableDestroyed
  dsimp only
  generalize (if (h.entities e).isActivated ∨ (h.entities e).syncStatus = .destroyed
    then stageOverrides.deactivateEntity h e
      (if alreadyRemoved then .publish else .syncReply) else h) = k at hbase ⊢
  split
  · exact hbase
  · exact hbase.trans
      (setActivationStatus hstatus { k with cleanupOps := k.cleanupOps ++ [e] } e _)

end Status

end SameField

/-- The events that wait are not touched by the one that is processed. -/
theorem processEvent_events (h : ZstHierarchy) (e : EntityId) (event : SynchronisableEvent) :
    SameField Entity.synchronisableEvents h (processEvent stageOverrides h e event) := by
  have hset : ∀ status, SameField Entity.synchronisableEvents h (h.setActivationStatus e status) :=
    SameField.setActivationStatus (fun _ _ => rfl) h e
  cases event with
  | activated =>
    refine (hset .activated).trans (.modify _ e onActivation fun x => ?_)
    unfold onActivation
    split <;> rfl
  | deactivated =>
    refine (hset .deactivated).trans (.modify _ e onDeactivation fun x => ?_)
    unfold onDeactivation
    split <;> rfl
  | destroyed => exact .onSynchronisableDestroyed (fun _ _ => rfl) h e false
  | updated => exact .refl h

/-! ## The sets of cables -/

namespace SameSets

variable {h k : ZstHierarchy}

theorem refl (h : ZstHierarchy) : SameSets h h :=
  fun _ => rfl

theorem trans {l : ZstHierarchy} (hk : SameSets h k) (kl : SameSets k l) : SameSets h l :=
  SameField.trans hk kl

theorem of_treeEdit (hk : TreeEdit h k) : SameSets h k :=
  hk.field Entity.cables fun _ => rfl

theorem synchronisableHasEvent (h : ZstHierarchy) (e : EntityId) :
    SameSets h (h.synchronisableHasEvent e) := by
  unfold ZstHierarchy.synchronisableHasEvent
  split
  · exact .refl h
  · exact .refl h

theorem enqueueDeactivation (h : ZstHierarchy) (e : EntityId) :
    SameSets h (h.enqueueDeactivation e) := by
  unfold ZstHierarchy.enqueueDeactivation
  split
  · refine .trans ?_ (synchronisableHasEvent _ e)
    refine SameField.trans (.setActivationStatus (fun _ _ => rfl) h e .deactivationQueued) ?_
    exact .modify _ e _ fun _ => rfl
  · exact .refl h

theorem removeProxyEntity (h : ZstHierarchy) (e : EntityId) :
    SameSets h (h.removeProxyEntity stageOverrides e) := by
  unfold ZstHierarchy.removeProxyEntity
  split
  · refine (of_treeEdit (SameProxies.removeFromParent h e)).trans ?_
    exact SameField.foldl enqueueDeactivation _ _
  · exact .refl h

theorem updateProxyEntity (h : ZstHierarchy) (e : EntityId) (buffer : EntityBuffer) :
    SameSets h (h.updateProxyEntity stageOverrides e buffer) := by
  obtain ⟨k, hk, hupdate⟩ := updateProxyEntity_cases stageOverrides h e buffer
  have hcreatables : SameSets h k := by
    rcases hk with rfl | ⟨-, -, rfl⟩
    · exact .refl k
    · have hmodified : SameSets h
          (h.modify e fun x => { x with creatables := buffer.creatables }) :=
        SameField.modify h e _ fun _ => rfl
      exact hmodified.trans (synchronisableHasEvent _ e)
  have hrenamed : SameSets k (setName stageOverrides k e buffer.uri.last) :=
    of_treeEdit (TreeEdit.setName TreeEdit.stage_activation (fun h _ _ => .refl h) k e _)
  rcases hupdate with hupdate | ⟨-, -, hupdate⟩
  · rwa [hupdate]
  · rw [hupdate]
    exact hcreatables.trans hrenamed

theorem checkHeartbeats (h : ZstHierarchy) : SameSets h (ZstStage.checkHeartbeats h).1 := by
  unfold ZstStage.checkHeartbeats
  refine List.foldlRecOn (motive := fun (state : ZstHierarchy × List EntityId) =>
    SameSets h state.1) _ _ (.refl h) fun state hstate e _ => hstate.trans ?_
  refine SameField.modify state.1 e checkHeartbeat fun x => ?_
  unfold checkHeartbeat
  split <;> rfl

theorem cleanup (h : ZstHierarchy) (e : EntityId) :
    SameSets h (ZstHierarchy.cleanup stageOverrides h e) := by
  have hdelete : ∀ k : ZstHierarchy, SameSets k (deleteEntity stageOverrides k e) := fun k => by
    have hcomponent : SameSets k (destroyComponent stageOverrides k e) := by
      unfold destroyComponent
      refine SameField.trans (.foldl (fun h c => ?_) _ _) (.modify _ e _ fun _ => rfl)
      split
      · exact .deactivateEntityBase (fun _ _ => rfl) h c
      · exact .refl h
    unfold deleteEntity destroyEntityBase
    dsimp only
    split
    · exact SameField.trans hcomponent (.onSynchronisableDestroyed (fun _ _ => rfl) _ e true)
    · exact hcomponent
  unfold ZstHierarchy.cleanup
  split
  · exact .refl h
  · dsimp only
    split
    · exact hdelete _
    · exact .refl h

/-- A plug forgets its cables when it is deactivated. -/
theorem processEvent {e : EntityId} {event : SynchronisableEvent}
    (hbare : event = .deactivated → (h.entities e).cables = []) :
    SameSets h (ZstHierarchy.processEvent stageOverrides h e event) := by
  have hset : ∀ status, SameField Entity.cables h (h.setActivationStatus e status) :=
    SameField.setActivationStatus (fun _ _ => rfl) h e
  cases event with
  | activated =>
    refine (hset .activated).trans (.modify _ e onActivation fun x => ?_)
    unfold onActivation
    split <;> rfl
  | deactivated =>
    refine (hset .deactivated).trans fun d => ?_
    simp only [ZstHierarchy.processEvent, modify_entities]
    split
    · rename_i hde
      rw [hde, hset .deactivated e, hbare rfl]
      unfold onDeactivation
      split
      · rfl
      · rw [hset .deactivated e, hbare rfl]
    · rfl
  | destroyed => exact SameField.onSynchronisableDestroyed (fun _ _ => rfl) h e false
  | updated => exact .refl h

/-- An item of the queue whose entity has no cables, or is not deactivated. -/
theorem processItem {e : EntityId}
    (hbare : .deactivated ∈ (h.entities e).synchronisableEvents → (h.entities e).cables = []) :
    SameSets h (ZstHierarchy.processItem stageOverrides h e) := by
  unfold ZstHierarchy.processItem
  split
  · exact .refl h
  · dsimp only
    refine (processOwnEvents_rule stageOverrides (P := fun k => SameSets h k ∧
      ∀ event ∈ (k.entities e).synchronisableEvents, event ∈ (h.entities e).synchronisableEvents)
      (fun k event rest hk hown => ?_) _
      (h := { h with freedAccess := h.freedAccess || !h.live e })
      ⟨fun _ => rfl, fun _ hevent => hevent⟩).1
    obtain ⟨hsets, hevents⟩ := hk
    have hpopped : SameSets k (k.modify e fun x => { x with synchronisableEvents := rest }) :=
      SameField.modify k e _ fun _ => rfl
    refine ⟨(hsets.trans hpopped).trans (processEvent fun hevent => ?_), fun later hlater => ?_⟩
    · rw [hpopped, hsets]
      exact hbare (hevent ▸ hevents event (hown ▸ List.mem_cons_self))
    · rw [processEvent_events _ e event e, modify_entities_self] at hlater
      exact hevents later (hown ▸ List.mem_cons_of_mem event hlater)

end SameSets

/-! ## Cables that come and go -/

/-- A cable without its status and its events: its address and its plugs. -/
def ends (x : ZstCable) : ZstCable :=
  { x with syncStatus := .deactivated, synchronisableEvents := [] }

/-- Every cable keeps its ends. -/
def SameEnds (s t : ZstSession) : Prop :=
  ∀ c, ends (t.cableObjects c) = ends (s.cableObjects c)

namespace SameEnds

variable {s t u : ZstSession}

theorem refl (s : ZstSession) : SameEnds s s :=
  fun _ => rfl

theorem trans (hst : SameEnds s t) (htu : SameEnds t u) : SameEnds s u :=
  fun c => (htu c).trans (hst c)

theorem field {β : Type} (hst : SameEnds s t) (f : ZstCable → β) (hf : ∀ x, f (ends x) = f x)
    (c : CableId) : f (t.cableObjects c) = f (s.cableObjects c) := by
  rw [← hf, hst c, hf]

theorem modifyCable (s : ZstSession) (c : CableId) (f : ZstCable → ZstCable)
    (hf : ∀ x, ends (f x) = ends x) : SameEnds s (s.modifyCable c f) := fun d => by
  rw [modifyCable_object]
  split
  · rename_i hdc
    rw [hf, hdc]
  · rfl

theorem enqueueCableDeactivation (s : ZstSession) (c : CableId) :
    SameEnds s (s.enqueueCableDeactivation c) := by
  unfold ZstSession.enqueueCableDeactivation
  split
  · exact modifyCable s c (fun x =>
      { x with
        syncStatus := .deactivationQueued
        synchronisableEvents := x.synchronisableEvents ++ [.deactivated, .destroyed] })
      fun _ => rfl
  · exact .refl s

theorem destroyCable (s : ZstSession) (c : CableId) :
    SameEnds s (ZstStageSession.destroyCable s c) := by
  unfold ZstStageSession.destroyCable
  rw [ZstSession.destroyCableComplete_eq, ZstSession.unplug_session]
  exact enqueueCableDeactivation _ c

theorem destroyCables (cables : List CableId) (s : ZstSession) :
    SameEnds s (cables.foldl ZstStageSession.destroyCable s) :=
  List.foldlRecOn (motive := SameEnds s) _ _ (.refl s) fun t ht c _ => ht.trans (destroyCable t c)

theorem processCableEvent (s : ZstSession) (c : CableId) (event : SynchronisableEvent) :
    SameEnds s (s.processCableEvent c event) := by
  cases event with
  | activated => exact modifyCable s c (fun x => { x with syncStatus := .activated }) fun _ => rfl
  | deactivated =>
    exact modifyCable s c (fun x => { x with syncStatus := .deactivated }) fun _ => rfl
  | destroyed | updated => exact .refl s

theorem cableEvents (s : ZstSession) : SameEnds s s.processCableItems.reapCables := by
  have hitem : ∀ t c, SameEnds t (t.processCableItem c) := fun t c => by
    unfold ZstSession.processCableItem
    exact List.foldlRecOn (motive := SameEnds t) _ _ (modifyCable t c _ fun _ => rfl)
      fun u hu event _ => hu.trans (processCableEvent u c event)
  exact List.foldlRecOn (motive := SameEnds s) _ _ (.refl s) fun t ht c _ => ht.trans (hitem t c)

end SameEnds

section Cables

variable {s t : ZstSession}

/-- Cables that are destroyed or erased leave the others as they are. -/
theorem Cohered.unplugs (cohered : Cohered s) (linked : CablesLinked t) (hunplugs : Unplugs s t)
    (hends : SameEnds s t) (hst : Replugged s t) : Cohered t := by
  have hused : ∀ c, CableInUse t c → CableInUse s c := fun c hc =>
    ⟨hunplugs.cables c hc.1, by_contra fun hgone => hunplugs.status c hgone hc.2⟩
  refine ⟨linked, fun c hc => ?_, fun c hc => ?_⟩
  · rw [Replugged.findInputPlug hst, hends.field ZstCable.address fun _ => rfl,
      hends.field ZstCable.input fun _ => rfl]
    exact cohered.inputs c (hused c hc)
  · rw [Replugged.findOutputPlug hst, hends.field ZstCable.address fun _ => rfl,
      hends.field ZstCable.output fun _ => rfl]
    exact cohered.outputs c (hused c hc)

theorem Cohered.destroyCables (cohered : Cohered s) (cabled : Cabled s) {cables : List CableId}
    (hcables : ∀ c ∈ cables, c ∈ s.cables) :
    Cohered (cables.foldl ZstStageSession.destroyCable s) :=
  cohered.unplugs (cohered.linked.destroyCables cabled cables hcables)
    (destroyCables_unplugs cables hcables).1 (.destroyCables cables s)
    (ConnectReplies.destroyCables_keeps cables s).1

theorem Cohered.cableEvents (cohered : Cohered s) (cabled : Cabled s) :
    Cohered s.processCableItems.reapCables :=
  cohered.unplugs (cohered.linked.cableEvents cabled) (cableEvents_unplugs cabled)
    (.cableEvents s) (.of_hierarchy_eq (Standing.cableEvents_hierarchy s))

theorem Cohered.makeRoom (cohered : Cohered s) (cabled : Cabled s) (input : EntityId) :
    Cohered (ConnectReplies.makeRoom s input) := by
  unfold ConnectReplies.makeRoom
  split
  · exact cohered.destroyCables cabled (mem_getChildCables s input)
  · exact cohered

/-- A new cable is found at the paths that its plugs have now. -/
theorem Cohered.createCable (cohered : Cohered s) (cabled : Cabled s) {input output : EntityId}
    (hfree : s.findCable ⟨(s.hierarchy.entities input).uri, (s.hierarchy.entities output).uri⟩ =
      none)
    (hin : s.findInputPlug (s.hierarchy.entities input).uri = some input)
    (hout : s.findOutputPlug (s.hierarchy.entities output).uri = some output) :
    Cohered (s.createCable input output).1 := by
  have hlinked := cohered.linked.createCable cabled hfree hin hout
  have hkeeps := (ConnectReplies.createCable_keeps s input output).1
  have hobjects : (s.createCable input output).1.cableObjects =
      Function.update s.cableObjects s.nextCable
        { address := ⟨(s.hierarchy.entities input).uri, (s.hierarchy.entities output).uri⟩
          input, output, syncStatus := .activated } := by
    simp only [ZstSession.createCable, hfree, ZstSession.plugAddCable,
      ZstSession.modifyPlug_cableObjects]
  have hold : ∀ c, c ≠ s.nextCable → CableInUse (s.createCable input output).1 c →
      CableInUse s c := by
    intro c hne hc
    have hmem := (createCable_plugs hfree).1.cables c hc.1
    refine ⟨hmem.resolve_right hne, ?_⟩
    have hactivated := hc.2
    rwa [hobjects, Function.update_of_ne hne] at hactivated
  refine ⟨hlinked, fun c hc => ?_, fun c hc => ?_⟩
  · rw [Replugged.findInputPlug hkeeps, hobjects]
    by_cases hne : c = s.nextCable
    · rw [hne, Function.update_self]
      exact hin
    · rw [Function.update_of_ne hne]
      exact cohered.inputs c (hold c hne hc)
  · rw [Replugged.findOutputPlug hkeeps, hobjects]
    by_cases hne : c = s.nextCable
    · rw [hne, Function.update_self]
      exact hout
    · rw [Function.update_of_ne hne]
      exact cohered.outputs c (hold c hne hc)

theorem Cohered.plugged (cohered : Cohered s) (wired : Wired s) {a : ZstCableAddress}
    {input output : EntityId} (hfree : s.findCable a = none)
    (hin : s.findInputPlug a.inputURI = some input)
    (hout : s.findOutputPlug a.outputURI = some output) :
    Cohered (ConnectReplies.plugged s input output) := by
  obtain ⟨hkeeps, hsame⟩ := ConnectReplies.makeRoom_keeps s input
  have huri := hkeeps.field Entity.uri fun _ => rfl
  have hinput : (s.hierarchy.entities input).uri = a.inputURI :=
    wired.indexed.findEntity_uri (Option.filter_eq_some_iff.mp hin).1
  have houtput : (s.hierarchy.entities output).uri = a.outputURI :=
    wired.indexed.findEntity_uri (Option.filter_eq_some_iff.mp hout).1
  refine (cohered.makeRoom wired.cabled input).createCable
    ((makeRoom_doomed wired.cabled input).1.cabled wired.cabled) ?_ ?_ ?_
  · rw [huri, huri, hinput, houtput, hsame.findCable]
    exact hfree
  · rw [huri, hinput, Replugged.findInputPlug hkeeps]
    exact hin
  · rw [huri, houtput, Replugged.findOutputPlug hkeeps]
    exact hout

theorem Cohered.createCableHandler (cohered : Cohered s) (wired : Wired s)
    {msg : ZstStageMessage} {a : ZstCableAddress} {sender : EntityId} {response : Signal}
    (hrun : createCableHandler s msg a sender = .ok (t, response)) : Cohered t := by
  rcases Sending.createCableHandler_ok hrun with
    ⟨-, rfl⟩ | ⟨-, input, output, p, q, hfree, hin, hout, -, -, hfinish⟩
  · exact cohered
  · have hplugged := cohered.plugged wired hfree hin hout
    split at hfinish
    · exact hplugged.rests (cableConnectFinished_sends hfinish).1
        (cableConnectFinished_rests hfinish)
    · rw [hfinish, connectClients_eq]
      exact hplugged.rests rfl (.sends _ _)

theorem Cohered.destroyCableHandler (cohered : Cohered s) (wired : Wired s)
    (a : ZstCableAddress) : Cohered (destroyCableHandler s a).1 := by
  unfold ZstStageSession.destroyCableHandler
  split
  · rename_i c hfind
    have hknown : ∀ d ∈ [c], d ∈ s.cables := fun d hd => by
      rw [List.mem_singleton.mp hd]
      exact List.mem_of_find?_eq_some hfind
    exact cohered.destroyCables wired.cabled hknown
  · exact cohered

end Cables

/-! ## Messages that move nobody -/

section EntityPreserving

variable {s t : ZstSession}

theorem Cohered.grown (cohered : Cohered s) (ht : t = { s with hierarchy := t.hierarchy })
    (hk : Grows s.hierarchy t.hierarchy) : Cohered t := by
  rw [ht]
  exact cohered.grows hk

theorem SameSets.of_rests {h k : ZstHierarchy} (hk : Rests h k) : SameSets h k :=
  hk.grows.cables

theorem observeEntityHandler_sets {msg : ZstStageMessage} {path : ZstURI} {sender : EntityId}
    {response : Signal} (hrun : observeEntityHandler s msg path sender = .ok (t, response)) :
    SameSets s.hierarchy t.hierarchy := by
  by_cases hpath : path = []
  · unfold observeEntityHandler firstSegment at hrun
    rw [if_pos hpath] at hrun
    cases hrun
  rw [ConnectReplies.observeEntityHandler_eq s msg path sender hpath] at hrun
  split at hrun
  · obtain ⟨rfl, -⟩ := Prod.mk.inj (Except.ok.inj hrun)
    exact .refl _
  · split at hrun
    · obtain ⟨rfl, -⟩ := Prod.mk.inj (Except.ok.inj hrun)
      exact .refl _
    · split at hrun
      · obtain ⟨rfl, -⟩ := Prod.mk.inj (Except.ok.inj hrun)
        exact .refl _
      · obtain ⟨rfl, -⟩ := Prod.mk.inj (Except.ok.inj hrun)
        rw [connectClients_eq]
        exact .refl _

theorem aquireEntityOwnershipHandler_sets {path newOwner : ZstURI} {response : Signal}
    (hrun : aquireEntityOwnershipHandler s path newOwner = .ok (t, response)) :
    SameSets s.hierarchy t.hierarchy := by
  have howner : ∀ e owner, SameSets s.hierarchy
      (s.hierarchy.modify e fun x => ZstStageSession.setOwner x owner) := fun e owner => by
    refine SameField.modify s.hierarchy e _ fun x => ?_
    unfold ZstStageSession.setOwner
    split <;> rfl
  unfold aquireEntityOwnershipHandler at hrun
  split at hrun
  · obtain ⟨rfl, -⟩ := Prod.mk.inj (Except.ok.inj hrun)
    exact .refl _
  · rename_i entity hentity
    dsimp only at hrun
    split at hrun
    · obtain ⟨receivers, -, hrun⟩ := Library.bind_ok.mp hrun
      obtain ⟨rfl, -⟩ := Prod.mk.inj (Except.ok.inj hrun)
      exact (howner entity []).trans (.of_rests (broadcast_rests _ _ none))
    · split at hrun
      · obtain ⟨rfl, -⟩ := Prod.mk.inj (Except.ok.inj hrun)
        exact .refl _
      · rename_i owner howned
        obtain ⟨receivers, -, hrun⟩ := Library.bind_ok.mp hrun
        obtain ⟨rfl, -⟩ := Prod.mk.inj (Except.ok.inj hrun)
        refine (howner entity (s.hierarchy.entities owner).uri).trans ?_
        rw [foldl_connectClients_eq]
        exact .of_rests (.trans (.sends _ _) (broadcast_rests _ _ none))

theorem sessionDispatch_sets {msg : ZstStageMessage} {sender : EntityId} {response : Signal}
    (hcable : ¬ IsCableRequest msg.content)
    (hrun : ZstStageSession.dispatch s msg sender = .ok (t, response)) :
    SameSets s.hierarchy t.hierarchy := by
  unfold ZstStageSession.dispatch at hrun
  cases hcontent : msg.content with
  | signalMessage signal =>
    rw [hcontent] at hrun
    obtain rfl : (ZstStageSession.signalHandler s signal sender).1 = t :=
      congrArg Prod.fst (Except.ok.inj hrun)
    unfold ZstStageSession.signalHandler
    split
    · unfold synchroniseClientGraphHandler
      dsimp only
      refine SameSets.of_rests (.trans ?_ (.foldl (fun h c => whisperTo_rests h sender _ _ _) _ _))
      exact .foldl (fun h c => whisperTo_rests h sender _ _ _) _ _
    · exact .refl _
  | entityObserveRequest path =>
    rw [hcontent] at hrun
    exact observeEntityHandler_sets hrun
  | entityTakeOwnershipRequest path owner =>
    rw [hcontent] at hrun
    exact aquireEntityOwnershipHandler_sets hrun
  | cableCreateRequest | cableDestroyRequest =>
    rw [hcontent] at hcable
    exact absurd trivial hcable
  | _ =>
    rw [hcontent] at hrun
    obtain ⟨rfl, -⟩ := Prod.mk.inj (Except.ok.inj hrun)
    exact .refl _

theorem hierarchyDispatch_sets {h k : ZstHierarchy} {msg : ZstStageMessage}
    {sender : Option EntityId} {response : Signal} (hcalm : EntityPreserving msg.content)
    (hrun : ZstStageHierarchy.dispatch h msg sender = .ok (k, response)) : SameSets h k := by
  unfold ZstStageHierarchy.dispatch at hrun
  cases hcontent : msg.content with
  | clientJoinRequest | clientLeaveRequest | entityCreateRequest | entityUpdateRequest
      | entityDestroyRequest =>
    rw [hcontent] at hcalm
    exact hcalm.elim
  | signalMessage signal =>
    rw [hcontent] at hrun
    obtain rfl : (ZstStageHierarchy.signalHandler h signal sender).1 = k :=
      congrArg Prod.fst (Except.ok.inj hrun)
    unfold ZstStageHierarchy.signalHandler
    cases sender with
    | none => exact .refl h
    | some sender =>
      dsimp only
      split
      · exact SameField.modify h sender (fun x =>
          { x with heartbeatActive := true, missedHeartbeats := 0 }) fun _ => rfl
      · exact .refl h
  | factoryCreateEntityRequest creatable name =>
    rw [hcontent] at hrun
    unfold factoryCreateEntityHandler at hrun
    dsimp only at hrun
    split at hrun
    · obtain ⟨rfl, -⟩ := Prod.mk.inj (Except.ok.inj hrun)
      exact .refl h
    · obtain ⟨first, -, hrun⟩ := Library.bind_ok.mp hrun
      split at hrun
      · obtain ⟨rfl, -⟩ := Prod.mk.inj (Except.ok.inj hrun)
        exact .refl h
      · obtain ⟨rfl, -⟩ := Prod.mk.inj (Except.ok.inj hrun)
        exact .of_rests (whisperTo_rests h _ _ _ _)
  | _ =>
    rw [hcontent] at hrun
    obtain ⟨rfl, -⟩ := Prod.mk.inj (Except.ok.inj hrun)
    exact .refl h

theorem Cohered.sessionDispatch (cohered : Cohered s) (wired : Wired s) {msg : ZstStageMessage}
    {sender : EntityId} {response : Signal}
    (hrun : ZstStageSession.dispatch s msg sender = .ok (t, response)) : Cohered t := by
  by_cases hcable : IsCableRequest msg.content
  · unfold ZstStageSession.dispatch at hrun
    cases hcontent : msg.content with
    | cableCreateRequest path =>
      rw [hcontent] at hrun
      exact cohered.createCableHandler wired hrun
    | cableDestroyRequest path =>
      rw [hcontent] at hrun
      obtain rfl : (ZstStageSession.destroyCableHandler s path).1 = t :=
        congrArg Prod.fst (Except.ok.inj hrun)
      exact cohered.destroyCableHandler wired path
    | _ =>
      rw [hcontent] at hcable
      exact hcable.elim
  · have ht := (KeepsField.sessionDispatch (f := fun _ => ()) (fun _ => rfl) hcable hrun).1
    exact cohered.grown ht (.of_standing (.sessionDispatch hrun) (sessionDispatch_sets hcable hrun))

theorem Cohered.receive_calm (cohered : Cohered s) (wired : Wired s) {msg : ZstStageMessage}
    (hcalm : EntityPreserving msg.content) (hrun : receive s msg = .ok t) : Cohered t := by
  obtain ⟨u, hsession, hrun⟩ := Library.bind_ok.mp hrun
  obtain ⟨k, hhierarchy, hrun⟩ := Library.bind_ok.mp hrun
  obtain rfl := Except.ok.inj hrun
  have hu : Cohered u := by
    unfold ZstStageSession.onReceiveMsg at hsession
    split at hsession
    · obtain rfl := Except.ok.inj hsession
      exact cohered
    · obtain ⟨⟨w, response⟩, hdispatch, hrespond⟩ := Library.bind_ok.mp hsession
      obtain rfl := Except.ok.inj hrespond
      refine (cohered.sessionDispatch wired hdispatch).rests rfl ?_
      simp only [onHierarchy, respond_eq]
      exact .sends w.hierarchy _
  unfold ZstStageHierarchy.onReceiveMsg at hhierarchy
  obtain ⟨⟨l, response⟩, hdispatch, hrespond⟩ := Library.bind_ok.mp hhierarchy
  obtain rfl := Except.ok.inj hrespond
  refine hu.grows (.of_standing ((Standing.hierarchyDispatch hcalm hdispatch).trans
    (.respond l msg response)) ?_)
  refine (hierarchyDispatch_sets hcalm hdispatch).trans ?_
  rw [respond_eq]
  exact .refl l

end EntityPreserving

end Showtime.RenamedCables
