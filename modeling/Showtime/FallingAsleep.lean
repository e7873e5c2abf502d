import Showtime.Fate
import Showtime.Rejoin
import Showtime.TreeEdit
/-!
# Deactivating the local entities

`leave_stage_complete` enqueues the deactivation of the entities that it
enumerates, and the drain that follows runs whatever the entities have queued.
Which of them end up activated depends on how deep they are and on what their
last event is.
-/

namespace Showtime.FallingAsleep

open ZstHierarchy ZstClientHierarchy ZstClient
open Rejoin.DeactivatedFrom (queueDeactivation)

/-! ## Deactivations -/

/-- `enqueue_deactivation` takes effect on the entity. -/
def Deactivates (x : Entity) : Prop :=
  x.syncStatus = .activated ∨ x.syncStatus = .deactivating

instance (x : Entity) : Decidable (Deactivates x) :=
  inferInstanceAs (Decidable (_ ∨ _))

/-- What `enqueue_deactivation` does to an entity. -/
theorem fate_queueDeactivation (x : Entity) : (queueDeactivation x).fate = .destroyed := by
  simp [Entity.fate, queueDeactivation, statusAfter]

theorem enqueueDeactivation_eq (h : ZstHierarchy) (e : EntityId) :
    h.enqueueDeactivation e =
      if Deactivates (h.entities e) then
        (h.modify e queueDeactivation).synchronisableHasEvent e
      else h := by
  unfold ZstHierarchy.enqueueDeactivation
  have heq : (h.setActivationStatus e .deactivationQueued).deferEvents e
      [.deactivated, .destroyed] = h.modify e queueDeactivation := by
    simp [setActivationStatus, deferEvents, ZstHierarchy.modify, queueDeactivation]
  rw [heq]
  rfl

/-! ## Nothing wakes up without a stage -/

/-- No activation is pending, and, where it is asked for, the entity is not activated. -/
def Done (strict : Prop) (x : Entity) : Prop :=
  .activated ∉ x.synchronisableEvents ∧ (strict → x.syncStatus ≠ .activated)

/-- The entity's item is among the next ones of the module's queue. -/
structure Pending (strict : Prop) (m : Nat) (d : EntityId) (k : ZstHierarchy) : Prop where
  fated : strict → (k.entities d).fate ≠ .activated
  queued : d ∈ k.synchronisableEvents.take m
  alive : d ∉ k.deadIDs

/-- A local entity that the next items of the queue put to sleep. -/
structure Sinking (strict : Prop) (m : Nat) (d : EntityId) (k : ZstHierarchy) : Prop where
  owned : (k.entities d).isProxy = false
  registered : (k.entities d).registered = true
  events : OwnEvents (k.entities d).synchronisableEvents
  sinks : Done strict (k.entities d) ∨ Pending strict m d k

section Sinking

variable {strict : Prop} {m : Nat} {d e : EntityId} {h k : ZstHierarchy} {v : Overrides}

theorem Sinking.done (hs : Sinking strict 0 d h) : Done strict (h.entities d) :=
  hs.sinks.resolve_right fun hp => by simpa using hp.queued

/-- A change elsewhere, with more items at the end of the queue at most. -/
theorem Sinking.of_same (hs : Sinking strict m d h)
    (hproxy : (k.entities d).isProxy = (h.entities d).isProxy)
    (hregistered : (h.entities d).registered = true → (k.entities d).registered = true)
    (hevents : (k.entities d).synchronisableEvents = (h.entities d).synchronisableEvents)
    (hstatus : (k.entities d).syncStatus = (h.entities d).syncStatus)
    (hqueue : h.synchronisableEvents <+: k.synchronisableEvents)
    (hdead : d ∈ k.deadIDs → d ∈ h.deadIDs) : Sinking strict m d k := by
  refine ⟨hproxy.trans hs.owned, hregistered hs.registered, hevents ▸ hs.events, ?_⟩
  unfold Done
  rw [hevents, hstatus]
  refine hs.sinks.imp id fun hp => ⟨?_, (hqueue.take m).subset hp.queued, mt hdead hp.alive⟩
  unfold Entity.fate
  rw [hevents, hstatus]
  exact hp.fated

theorem Sinking.modify (hs : Sinking strict m d h) (e : EntityId) {f : Entity → Entity}
    (hproxy : ∀ x, (f x).isProxy = x.isProxy)
    (hregistered : ∀ x, (f x).registered = x.registered)
    (hevents : ∀ x, (f x).synchronisableEvents = x.synchronisableEvents)
    (hstatus : ∀ x, (f x).syncStatus = x.syncStatus) : Sinking strict m d (h.modify e f) := by
  have hfield : ∀ {β : Type} (g : Entity → β), (∀ x, g (f x) = g x) →
      g ((h.modify e f).entities d) = g (h.entities d) := by
    intro β g hg
    rw [modify_entities]
    split
    · rename_i hde
      rw [hg, hde]
    · rfl
  refine hs.of_same (hfield _ hproxy) ?_ (hfield _ hevents) (hfield _ hstatus)
    (List.prefix_refl _) id
  rw [hfield _ hregistered]
  exact id

/-- Any other status than `ACTIVATED` will do. -/
theorem Sinking.setActivationStatus (hs : Sinking strict m d h) (e : EntityId)
    {status : ZstSyncStatus} (hstatus : e = d → status ≠ .activated) :
    Sinking strict m d (h.setActivationStatus e status) := by
  by_cases hde : d = e
  · subst hde
    have hstatus := hstatus rfl
    unfold ZstHierarchy.setActivationStatus
    refine ⟨?_, ?_, ?_, ?_⟩
    · rw [modify_entities_self]
      exact hs.owned
    · rw [modify_entities_self]
      exact hs.registered
    · rw [modify_entities_self]
      exact hs.events
    · rw [modify_entities_self]
      refine hs.sinks.imp (fun hd => ⟨hd.1, fun _ => hstatus⟩) fun hp => ⟨fun h => ?_, hp.2, hp.3⟩
      rw [modify_entities_self]
      exact foldl_statusAfter_ne hstatus _ (hp.fated h)
  · have hentity : (h.setActivationStatus e status).entities d = h.entities d :=
      modify_entities_of_ne h _ hde
    exact hs.of_same (by rw [hentity]) (by rw [hentity]; exact id) (by rw [hentity]) (by rw [hentity]) (List.prefix_refl _) id

theorem Sinking.treeEdit (hs : Sinking strict m d h) (hk : TreeEdit h k)
    (hregistered : (h.entities d).registered = true → (k.entities d).registered = true) :
    Sinking strict m d k :=
  hs.of_same (hk.field Entity.isProxy (fun _ => rfl) d) hregistered
    (hk.field Entity.synchronisableEvents (fun _ => rfl) d)
    (hk.field Entity.syncStatus (fun _ => rfl) d) (by rw [hk.synchronisableEvents])
    (by rw [hk.deadIDs]; exact id)

theorem Sinking.enqueueDeactivation (hs : Sinking strict m d h) (e : EntityId) :
    Sinking strict m d (h.enqueueDeactivation e) := by
  have hqueued : Sinking strict m d (h.modify e queueDeactivation) := by
    by_cases hde : d = e
    · subst hde
      have hentity := modify_entities_self h d queueDeactivation
      refine ⟨?_, ?_, ?_, hs.sinks.imp (fun hdone => ?_) fun hp => ⟨fun _ => ?_, hp.2, hp.3⟩⟩
      · rw [hentity]
        exact hs.owned
      · rw [hentity]
        exact hs.registered
      · rw [hentity]
        exact hs.events.append (.destroyed .nil)
      · rw [hentity]
        refine ⟨?_, by simp [queueDeactivation]⟩
        simpa [queueDeactivation] using hdone.1
      · rw [hentity, fate_queueDeactivation]
        simp
    · have hentity := modify_entities_of_ne h queueDeactivation hde
      exact hs.of_same (by rw [hentity]) (by rw [hentity]; exact id) (by rw [hentity]) (by rw [hentity])
        (List.prefix_refl _) id
  rw [enqueueDeactivation_eq]
  split
  · unfold synchronisableHasEvent
    split
    · exact hqueued.of_same rfl id rfl rfl (List.prefix_append _ _) id
    · exact hqueued
  · exact hs

theorem Sinking.processHierarchyEvent (hs : Sinking strict m d h) (event : HierarchyEvent) :
    Sinking strict m d (ZstClientHierarchy.processHierarchyEvent h event) := by
  have harriving : ∀ {k : ZstHierarchy} (e : EntityId), Sinking strict m d k →
      Sinking strict m d (onEntityArriving k e) := by
    intro k e hk
    have hsession : Sinking strict m d (registerSession k e) :=
      List.foldlRecOn (motive := Sinking strict m d) _ _ hk fun l hl c _ =>
        hl.modify c (fun _ => rfl) (fun _ => rfl) (fun _ => rfl) fun _ => rfl
    refine List.foldlRecOn (motive := Sinking strict m d) _ _ hsession fun l hl c _ => ?_
    unfold initArrivingPlug
    split
    · exact hl.modify c (fun _ => rfl) (fun _ => rfl) (fun _ => rfl) fun _ => rfl
    · exact hl
  unfold ZstClientHierarchy.processHierarchyEvent
  split
  · refine harriving _ ?_
    exact hs.of_same rfl id rfl rfl (List.prefix_refl _) id
  · refine harriving _ ?_
    exact hs.of_same rfl id rfl rfl (List.prefix_refl _) id
  · exact hs

theorem Sinking.registerEntity (hs : Sinking strict m d h) (e : EntityId) :
    Sinking strict m d (h.registerEntity e) := by
  refine hs.treeEdit (.registerEntity h e) fun h => ?_
  unfold ZstHierarchy.registerEntity
  rw [modify_entities]
  split
  · rfl
  · exact h

/-- Moving entities neither wakes them nor touches the queue. -/
theorem sinking_movable (strict : Prop) (m : Nat) (d : EntityId) :
    Movable (fun _ => True) (Sinking strict m d) where
  rekey h e f hf hregistered _ hs := by
    refine hs.treeEdit ((TreeEdit.of_modify h e f hf).trans (.updateURI _ e (h.entities e).uri))
      fun hd => ?_
    obtain ⟨creatables, hentity⟩ := updateURI_entities (h.modify e f) e d (h.entities e).uri
    rw [hentity, modify_entities]
    split
    · rename_i hde
      exact (hregistered _).trans (hde ▸ hd)
    · exact hd
  relist h e _ hs := hs.modify e (fun _ => rfl) (fun _ => rfl) (fun _ => rfl) fun _ => rfl
  register h e _ hs := hs.registerEntity e
  child _ _ _ _ _ := trivial

end Sinking

/-! ## Calls without a stage -/

/-- The overrides put nobody in the way of falling asleep. -/
structure Lulling (v : Overrides) : Prop where
  activation : ∀ strict m d h e, Sinking strict m d h →
    Sinking strict m d (v.requestEntityActivation h e)
  deactivation : ∀ strict m d h e behaviour, Sinking strict m d h →
    Sinking strict m d (v.deactivateEntity h e behaviour)

namespace Lulling

variable {strict : Prop} {m : Nat} {d e : EntityId} {h : ZstHierarchy} {v : Overrides}
  (lulling : Lulling v)

include lulling

theorem removeFromParent (hs : Sinking strict m d h) (e : EntityId) :
    Sinking strict m d (removeFromParent v h e) := by
  unfold ZstHierarchy.removeFromParent
  split
  · exact (sinking_movable strict m d).removeChild
      (fun h e hs => lulling.activation strict m d h e hs) trivial hs
  · exact hs

theorem destroyEntityComplete (hs : Sinking strict m d h) (e : EntityId) :
    Sinking strict m d (ZstClientHierarchy.destroyEntityComplete v h e) := by
  unfold ZstClientHierarchy.destroyEntityComplete
  split
  · exact hs
  · refine List.foldlRecOn (motive := Sinking strict m d) _ _ ?_
      fun k hk c _ => hk.enqueueDeactivation c
    exact (lulling.removeFromParent hs e).of_same rfl id rfl rfl (List.prefix_refl _) id

theorem onSynchronisableDestroyed (hs : Sinking strict m d h) (e : EntityId)
    (alreadyRemoved : Bool) (hne : alreadyRemoved = true → d ≠ e) :
    Sinking strict m d (onSynchronisableDestroyed v h e alreadyRemoved) := by
  have hdeactivated : Sinking strict m d
      (if (h.entities e).isActivated ∨ (h.entities e).syncStatus = .destroyed then
        v.deactivateEntity h e (if alreadyRemoved then .publish else .syncReply)
      else h) := by
    split
    · exact lulling.deactivation _ _ _ _ _ _ hs
    · exact hs
  unfold ZstHierarchy.onSynchronisableDestroyed
  simp only
  generalize (if (h.entities e).isActivated = true ∨ (h.entities e).syncStatus = .destroyed then
    v.deactivateEntity h e (if alreadyRemoved then .publish else .syncReply) else h) = k
    at hdeactivated ⊢
  split
  · rename_i hremoved
    refine hdeactivated.of_same rfl id rfl rfl (List.prefix_refl _) fun hdead => ?_
    exact (List.mem_cons.mp hdead).resolve_left (hne hremoved)
  · refine Sinking.setActivationStatus ?_ e (by simp)
    exact hdeactivated.of_same rfl id rfl rfl (List.prefix_refl _) id

/-- An event of another entity. -/
theorem processEvent (hs : Sinking strict m d h) (hne : d ≠ e) (event : SynchronisableEvent) :
    Sinking strict m d (processEvent v h e event) := by
  cases event with
  | activated =>
    refine (hs.setActivationStatus e fun hed => absurd hed.symm hne).modify e ?_ ?_ ?_ ?_
    all_goals
      intro x
      unfold onActivation
      split <;> rfl
  | deactivated =>
    refine (hs.setActivationStatus e (by simp)).modify e ?_ ?_ ?_ ?_
    all_goals
      intro x
      unfold onDeactivation
      split <;> rfl
  | destroyed => exact lulling.onSynchronisableDestroyed hs e false (by simp)
  | updated => exact hs

/-- Another entity's events. -/
theorem processOwnEvents (hs : Sinking strict m d h) (hne : d ≠ e) (fuel : Nat) :
    Sinking strict m d (processOwnEvents v fuel h e) := by
  refine processOwnEvents_rule (P := Sinking strict m d) v (fun k event rest hk _ => ?_) fuel hs
  have hentity : (k.modify e fun x => { x with synchronisableEvents := rest }).entities d =
      k.entities d := modify_entities_of_ne k _ hne
  refine lulling.processEvent ?_ hne event
  exact hk.of_same (by rw [hentity]) (by rw [hentity]; exact id) (by rw [hentity]) (by rw [hentity]) (List.prefix_refl _) id

/-- One item of the queue: the entity's own, or one before it. -/
theorem processItem {rest : List EntityId} (hs : Sinking strict (m + 1) d h)
    (hqueue : h.synchronisableEvents = e :: rest) :
    Sinking strict m d (processItem v { h with synchronisableEvents := rest } e) := by
  by_cases hne : d = e
  · subst hne
    unfold ZstHierarchy.processItem
    split
    · rename_i hdead
      exact ⟨hs.owned, hs.registered, hs.events, Or.inl (hs.sinks.resolve_right fun hp => hp.alive hdead)⟩
    · obtain ⟨x, n, hx, -, hregistered, hproxy, hown, hstatus, -⟩ := processOwnEvents_own v hs.events
        { h with synchronisableEvents := rest, freedAccess := h.freedAccess || !h.live d } d rfl
      have hasleep : strict → (h.entities d).fate ≠ .activated := fun hstrict => by
        rcases hs.sinks with hdone | hp
        · exact foldl_statusAfter_of_not_mem hdone.1 (hdone.2 hstrict)
        · exact hp.fated hstrict
      simp only at hx ⊢
      rw [hx]
      have hentity : ((h.modify d fun _ => x).entities d) = x := modify_entities_self _ _ _
      refine ⟨?_, ?_, ?_, Or.inl ⟨?_, fun hstrict => ?_⟩⟩
      · change ((h.modify d fun _ => x).entities d).isProxy = false
        rw [hentity, hproxy]
        exact hs.owned
      · change ((h.modify d fun _ => x).entities d).registered = true
        rw [hentity, hregistered]
        exact hs.registered
      · change OwnEvents ((h.modify d fun _ => x).entities d).synchronisableEvents
        rw [hentity, hown]
        exact .nil
      · change _ ∉ ((h.modify d fun _ => x).entities d).synchronisableEvents
        rw [hentity, hown]
        simp
      · change ((h.modify d fun _ => x).entities d).syncStatus ≠ _
        rw [hentity, hstatus]
        exact hasleep hstrict
  · have hrest : Sinking strict m d { h with synchronisableEvents := rest } := by
      refine ⟨hs.owned, hs.registered, hs.events, hs.sinks.imp id fun hp => ⟨hp.fated, ?_, hp.alive⟩⟩
      have hqueued := hp.queued
      rw [hqueue, List.take_succ_cons] at hqueued
      exact (List.mem_cons.mp hqueued).resolve_left hne
    unfold ZstHierarchy.processItem
    split
    · exact hrest
    · refine lulling.processOwnEvents ?_ hne _
      exact hrest.of_same rfl id rfl rfl (List.prefix_refl _) id

/-- Each item brings the entity's own one closer. -/
theorem processItems {fuel : Nat} (hs : Sinking strict fuel d h) :
    Sinking strict 0 d (processItems v fuel h) := by
  induction fuel generalizing h with
  | zero => exact hs
  | succ fuel ih =>
    unfold ZstHierarchy.processItems
    cases hqueue : h.synchronisableEvents with
    | nil =>
      refine ⟨hs.owned, hs.registered, hs.events, hs.sinks.imp id fun hp => ?_⟩
      have hqueued := hp.queued
      rw [hqueue] at hqueued
      simp at hqueued
    | cons e rest => exact ih (lulling.processItem hs hqueue)

theorem deleteEntity (hs : Sinking strict m d h) (hne : d ≠ e) :
    Sinking strict m d (deleteEntity v h e) := by
  have hdescendants : Sinking strict m d (((h.getChildEntities e).drop 1).foldl (fun h c =>
      if (h.entities c).registered && (h.entities c).isActivated then
        v.deactivateEntity h c .syncReply
      else h) h) := by
    refine List.foldlRecOn (motive := Sinking strict m d) _ _ hs fun k hk c _ => ?_
    split
    · exact lulling.deactivation _ _ _ _ _ _ hk
    · exact hk
  have hcomponent : Sinking strict m d (destroyComponent v h e) :=
    hdescendants.modify (f := fun x => { x with children := [] }) e (fun _ => rfl) (fun _ => rfl)
      (fun _ => rfl) fun _ => rfl
  unfold ZstHierarchy.deleteEntity destroyEntityBase
  generalize destroyComponent v h e = k at hcomponent ⊢
  simp only
  split
  · exact (lulling.onSynchronisableDestroyed hcomponent e true fun _ => hne).of_same rfl id rfl
      rfl (List.prefix_refl _) id
  · exact hcomponent.of_same rfl id rfl rfl (List.prefix_refl _) id

/-- A cleanup callback deletes proxies only. -/
theorem cleanup (hs : Sinking strict m d h) (e : EntityId) :
    Sinking strict m d (cleanup v h e) := by
  unfold ZstHierarchy.cleanup
  split
  · exact hs
  · simp only
    split
    · rename_i hproxy
      have hne : d ≠ e := by
        rintro rfl
        have howned : (h.entities d).isProxy = true := hproxy.1
        rw [hs.owned] at howned
        cases howned
      refine lulling.deleteEntity ?_ hne
      exact hs.of_same rfl id rfl rfl (List.prefix_refl _) id
    · exact hs.of_same rfl id rfl rfl (List.prefix_refl _) id

/-- A drain gets to all items that were queued. -/
theorem processEvents (hs : Sinking strict m d h) (fuel : Nat) :
    Sinking strict 0 d (ZstClientHierarchy.processEvents v fuel h) := by
  have hstart : Sinking strict m d { h with hierarchyEvents := [] } :=
    hs.of_same rfl id rfl rfl (List.prefix_refl _) id
  have hevents : Sinking strict m d
      (h.hierarchyEvents.foldl ZstClientHierarchy.processHierarchyEvent
        { h with hierarchyEvents := [] }) :=
    List.foldlRecOn (motive := Sinking strict m d) _ _ hstart fun k hk event _ =>
      hk.processHierarchyEvent event
  unfold ZstClientHierarchy.processEvents
  simp only
  generalize h.hierarchyEvents.foldl ZstClientHierarchy.processHierarchyEvent
    { h with hierarchyEvents := [] } = k at hevents ⊢
  have hlength : Sinking strict (k.synchronisableEvents.length + fuel) d k :=
    ⟨hevents.owned, hevents.registered, hevents.events, hevents.sinks.imp id fun hp =>
      ⟨hp.fated, by
        rw [List.take_of_length_le (Nat.le_add_right _ _)]
        exact List.mem_of_mem_take hp.queued, hp.alive⟩⟩
  have hitems := lulling.processItems hlength
  generalize ZstHierarchy.processItems v (k.synchronisableEvents.length + fuel) k = l at hitems ⊢
  have hreaped : Sinking strict 0 d (reapAll v (l.cleanupOps.length + fuel) l) :=
    reapAll_rule (P := Sinking strict 0 d) v (fun n e rest hn _ => by
      refine lulling.cleanup ?_ e
      exact hn.of_same rfl id rfl rfl (List.prefix_refl _) id) _ hitems
  refine hreaped.of_same rfl id rfl rfl (List.prefix_refl _) fun hdead => ?_
  cases hdead

end Lulling

/-- A request is not sent without a stage. -/
theorem request_offline (v : Overrides) (h : ZstHierarchy) (content : Content)
    (behaviour : SendBehaviour) (action : ResponseAction) :
    request v (okLink false) h content behaviour action = h := rfl

theorem publish_offline (h : ZstHierarchy) (message : Outgoing) :
    publish (okLink false) h message = h := rfl

/-- A client that has left calls nobody who could wake an entity. -/
theorem lulling_offline (fuel : Nat) : Lulling (overrides (okLink false) fuel) := by
  induction fuel with
  | zero => exact ⟨fun _ _ _ _ _ hs => hs, fun _ _ _ _ _ _ hs => hs⟩
  | succ fuel ih =>
    have hdrain : ∀ {strict : Prop} {m : Nat} {d : EntityId} {k : ZstHierarchy},
        Sinking strict m d k → Sinking strict m d (ZstClientHierarchy.processEvents
          (overrides (okLink false) fuel) fuel k) := fun hk => by
      have hdone := ih.processEvents hk fuel
      exact ⟨hdone.owned, hdone.registered, hdone.events, Or.inl hdone.done⟩
    refine ⟨fun strict m d h e hs => ?_, fun strict m d h e behaviour hs => ?_⟩
    · change Sinking strict m d
        (activateEntity (overrides (okLink false) fuel) (okLink false) fuel h e .syncReply)
      have hregistered : Sinking strict m d (h.registerEntity e) :=
        hs.registerEntity e
      unfold activateEntity
      simp only [request_offline, List.foldl_fixed]
      split
      · exact hs
      · split
        · exact hs
        · exact hdrain hregistered
    · change Sinking strict m d
        (deactivateEntity (overrides (okLink false) fuel) (okLink false) fuel h e behaviour)
      have hbase : Sinking strict m d (h.deactivateEntityBase e) := by
        unfold deactivateEntityBase
        split
        · exact hs
        · exact hs.setActivationStatus e (by simp)
      unfold deactivateEntity
      simp only [request_offline, publish_offline, ite_self]
      generalize h.deactivateEntityBase e = k at hbase ⊢
      have hproxy : Sinking strict m d
          (if (k.entities e).isProxy then
            ZstClientHierarchy.destroyEntityComplete (overrides (okLink false) fuel) k e
          else k) := by
        split
        · exact ih.destroyEntityComplete hbase e
        · exact hbase
      generalize (if (k.entities e).isProxy = true then
        ZstClientHierarchy.destroyEntityComplete (overrides (okLink false) fuel) k e else k) = l
        at hproxy ⊢
      have hpublished : Sinking strict m d
          (if behaviour = .publish then
            ZstClientHierarchy.destroyEntityComplete (overrides (okLink false) fuel) l e
          else l) := by
        split
        · exact ih.destroyEntityComplete hproxy e
        · exact hproxy
      split
      · exact hdrain hpublished
      · exact hpublished

/-! ## What a leaving client enqueues -/

/-- An entity of the client itself, whatever its status is. -/
structure LocalEntity (h : ZstHierarchy) (d : EntityId) : Prop where
  owned : (h.entities d).isProxy = false
  registered : (h.entities d).registered = true
  events : OwnEvents (h.entities d).synchronisableEvents
  queued : (h.entities d).synchronisableEvents ≠ [] → d ∈ h.synchronisableEvents
  alive : d ∉ h.deadIDs

/-- The tree below the performer of the client. -/
structure LocalTree (h : ZstHierarchy) (root : EntityId) : Prop where
  allocated : root < h.next
  entity : ∀ d ∈ h.getChildEntities root, LocalEntity h d

/-- The root and its children are in the tree. -/
theorem LocalTree.near {h : ZstHierarchy} {root d : EntityId} (tree : LocalTree h root)
    (hd : d ∈ nearEntities h root) : LocalEntity h d := by
  obtain ⟨n, hn⟩ := getChildEntities_eq_cons tree.allocated
  refine tree.entity d ?_
  rw [hn]
  rcases List.mem_cons.mp hd with rfl | hchild
  · exact List.mem_cons_self
  · refine List.mem_cons_of_mem _ (List.mem_flatMap.mpr ⟨d, hchild, ?_⟩)
    cases n <;> simp [descendants]

section Enqueue

variable {h : ZstHierarchy} {d : EntityId}

theorem synchronisableHasEvent_entities (h : ZstHierarchy) (e : EntityId) :
    (h.synchronisableHasEvent e).entities = h.entities := by
  unfold synchronisableHasEvent
  split <;> rfl

theorem enqueueDeactivation_entities (h : ZstHierarchy) (e d : EntityId) :
    (h.enqueueDeactivation e).entities d =
      if d = e ∧ Deactivates (h.entities d) then queueDeactivation (h.entities d)
      else h.entities d := by
  rw [enqueueDeactivation_eq]
  by_cases hde : d = e
  · subst hde
    by_cases hd : Deactivates (h.entities d)
    · rw [if_pos hd, if_pos ⟨rfl, hd⟩, synchronisableHasEvent_entities, modify_entities_self]
    · rw [if_neg hd, if_neg fun h => hd h.2]
  · have hother : ¬ (d = e ∧ Deactivates (h.entities d)) := fun h => hde h.1
    rw [if_neg hother]
    split
    · rw [synchronisableHasEvent_entities, modify_entities_of_ne _ _ hde]
    · rfl

theorem not_deactivates_queueDeactivation (x : Entity) : ¬ Deactivates (queueDeactivation x) := by
  simp [Deactivates, queueDeactivation]

/-- Each entity is deactivated at most once. -/
theorem foldl_enqueueDeactivation_entities (entities : List EntityId) (h : ZstHierarchy)
    (d : EntityId) :
    (entities.foldl enqueueDeactivation h).entities d =
      if d ∈ entities ∧ Deactivates (h.entities d) then queueDeactivation (h.entities d)
      else h.entities d := by
  induction entities generalizing h with
  | nil => simp
  | cons e entities ih =>
    rw [List.foldl_cons, ih, enqueueDeactivation_entities]
    by_cases hd : Deactivates (h.entities d)
    · by_cases hde : d = e
      · simp [hde ▸ hd, hde, not_deactivates_queueDeactivation]
      · simp [hd, hde]
    · simp [hd]

theorem enqueueDeactivation_queue (h : ZstHierarchy) (e : EntityId) :
    (h.enqueueDeactivation e).deadIDs = h.deadIDs ∧
      h.synchronisableEvents ⊆ (h.enqueueDeactivation e).synchronisableEvents ∧
      (Deactivates (h.entities e) → (h.entities e).registered = true →
        e ∈ (h.enqueueDeactivation e).synchronisableEvents) := by
  rw [enqueueDeactivation_eq]
  split
  · unfold synchronisableHasEvent
    split
    · exact ⟨rfl, List.subset_append_left _ _, fun _ _ => by simp⟩
    · rename_i hunregistered
      refine ⟨rfl, List.Subset.refl _, fun _ hregistered => absurd ?_ hunregistered⟩
      rw [modify_entities_self]
      exact hregistered
  · rename_i hdeactivates
    exact ⟨rfl, List.Subset.refl _, fun h => absurd h hdeactivates⟩

theorem LocalEntity.enqueueDeactivation (hd : LocalEntity h d) (e : EntityId) :
    LocalEntity (h.enqueueDeactivation e) d := by
  have hentity := enqueueDeactivation_entities h e d
  obtain ⟨hdead, hkept, hqueued⟩ := enqueueDeactivation_queue h e
  by_cases hde : d = e ∧ Deactivates (h.entities d)
  · rw [if_pos hde] at hentity
    refine ⟨?_, ?_, ?_, fun _ => ?_, ?_⟩
    · rw [hentity]
      exact hd.owned
    · rw [hentity]
      exact hd.registered
    · rw [hentity]
      exact hd.events.append (.destroyed .nil)
    · obtain ⟨rfl, hdeactivates⟩ := hde
      exact hqueued hdeactivates hd.registered
    · rw [hdead]
      exact hd.alive
  · rw [if_neg hde] at hentity
    refine ⟨?_, ?_, ?_, fun hne => ?_, ?_⟩
    · rw [hentity]
      exact hd.owned
    · rw [hentity]
      exact hd.registered
    · rw [hentity]
      exact hd.events
    · rw [hentity] at hne
      exact hkept (hd.queued hne)
    · rw [hdead]
      exact hd.alive

theorem LocalEntity.foldl (hd : LocalEntity h d) (entities : List EntityId) :
    LocalEntity (entities.foldl ZstHierarchy.enqueueDeactivation h) d :=
  List.foldlRecOn (motive := fun k => LocalEntity k d) _ _ hd fun _ hk e _ =>
    hk.enqueueDeactivation e

/-- A drain puts a local entity to sleep, unless its fate is to be activated. -/
theorem LocalEntity.sinking {strict : Prop} (hd : LocalEntity h d)
    (hfate : strict → (h.entities d).fate ≠ .activated) :
    Sinking strict h.synchronisableEvents.length d h := by
  refine ⟨hd.owned, hd.registered, hd.events, ?_⟩
  by_cases hown : (h.entities d).synchronisableEvents = []
  · refine Or.inl ⟨by simp [hown], fun hstrict => ?_⟩
    have hstatus := hfate hstrict
    unfold Entity.fate at hstatus
    rwa [hown] at hstatus
  · refine Or.inr ⟨hfate, ?_, hd.alive⟩
    rw [List.take_length]
    exact hd.queued hown

/-- A local entity without a pending activation is put to sleep by a deactivation. -/
theorem Sinking.deactivated (hs : Sinking False 0 d h) (halive : d ∉ h.deadIDs) :
    Sinking True (h.enqueueDeactivation d).synchronisableEvents.length d
      (h.enqueueDeactivation d) := by
  have hentity := enqueueDeactivation_entities h d d
  obtain ⟨hdead, -, hqueued⟩ := enqueueDeactivation_queue h d
  by_cases hd : Deactivates (h.entities d)
  · rw [if_pos ⟨rfl, hd⟩] at hentity
    refine ⟨?_, ?_, ?_, Or.inr ⟨fun _ => ?_, ?_, ?_⟩⟩
    · rw [hentity]
      exact hs.owned
    · rw [hentity]
      exact hs.registered
    · rw [hentity]
      exact hs.events.append (.destroyed .nil)
    · rw [hentity, fate_queueDeactivation]
      simp
    · rw [List.take_length]
      exact hqueued hd hs.registered
    · rw [hdead]
      exact halive
  · rw [enqueueDeactivation_eq, if_neg hd]
    refine ⟨hs.owned, hs.registered, hs.events, Or.inl ⟨hs.done.1, fun _ hstatus => ?_⟩⟩
    exact hd (Or.inl hstatus)

end Enqueue

/-! ## While nobody else is removed -/

/-- No entity of another client is about to be removed. -/
structure NoProxyRemoved (h : ZstHierarchy) : Prop where
  events : ∀ e, OwnEvents (h.entities e).synchronisableEvents
  proxies : ∀ e, (h.entities e).isProxy = true → .destroyed ∉ (h.entities e).synchronisableEvents
  cleanupOps : ∀ e ∈ h.cleanupOps, (h.entities e).isProxy = false

/-- Every entity still has the fate it had in the first hierarchy. -/
structure SameFate (h k : ZstHierarchy) : Prop where
  undisturbed : NoProxyRemoved k
  fate : ∀ d, (k.entities d).fate = (h.entities d).fate

section NoProxyRemoved

variable {h k : ZstHierarchy} {e : EntityId} (v : Overrides)

theorem SameFate.of_same {l : ZstHierarchy} (hk : SameFate h k)
    (hproxy : ∀ d, (l.entities d).isProxy = (k.entities d).isProxy)
    (hevents : ∀ d, (l.entities d).synchronisableEvents = (k.entities d).synchronisableEvents)
    (hstatus : ∀ d, (l.entities d).syncStatus = (k.entities d).syncStatus)
    (hops : ∀ d ∈ l.cleanupOps, d ∈ k.cleanupOps) : SameFate h l := by
  refine ⟨⟨fun d => ?_, fun d hd => ?_, fun d hd => ?_⟩, fun d => ?_⟩
  · rw [hevents]
    exact hk.undisturbed.events d
  · rw [hevents]
    exact hk.undisturbed.proxies d (hproxy d ▸ hd)
  · rw [hproxy]
    exact hk.undisturbed.cleanupOps d (hops d hd)
  · rw [← hk.fate d]
    unfold Entity.fate
    rw [hevents, hstatus]

theorem SameFate.modify (hk : SameFate h k) (e : EntityId) {f : Entity → Entity}
    (hproxy : ∀ x, (f x).isProxy = x.isProxy)
    (hevents : ∀ x, (f x).synchronisableEvents = x.synchronisableEvents)
    (hstatus : ∀ x, (f x).syncStatus = x.syncStatus) : SameFate h (k.modify e f) := by
  have hfield : ∀ {β : Type} (g : Entity → β), (∀ x, g (f x) = g x) →
      ∀ d, g ((k.modify e f).entities d) = g (k.entities d) := by
    intro β g hg d
    rw [modify_entities]
    split
    · rename_i hde
      rw [hg, hde]
    · rfl
  exact hk.of_same (hfield _ hproxy) (hfield _ hevents) (hfield _ hstatus) fun _ hd => hd

theorem SameFate.processHierarchyEvent (hk : SameFate h k) (event : HierarchyEvent) :
    SameFate h (ZstClientHierarchy.processHierarchyEvent k event) := by
  have harriving : ∀ {l : ZstHierarchy} (e : EntityId), SameFate h l →
      SameFate h (onEntityArriving l e) := by
    intro l e hl
    have hsession : SameFate h (registerSession l e) :=
      List.foldlRecOn (motive := SameFate h) _ _ hl fun n hn c _ =>
        hn.modify c (fun _ => rfl) (fun _ => rfl) fun _ => rfl
    refine List.foldlRecOn (motive := SameFate h) _ _ hsession fun n hn c _ => ?_
    unfold initArrivingPlug
    split
    · exact hn.modify c (fun _ => rfl) (fun _ => rfl) fun _ => rfl
    · exact hn
  unfold ZstClientHierarchy.processHierarchyEvent
  split
  · exact harriving _ (hk.of_same (fun _ => rfl) (fun _ => rfl) (fun _ => rfl) fun _ hd => hd)
  · exact harriving _ (hk.of_same (fun _ => rfl) (fun _ => rfl) (fun _ => rfl) fun _ hd => hd)
  · exact hk

theorem SameFate.processItem (hk : SameFate h k) (e : EntityId) (rest : List EntityId) :
    SameFate h (processItem v { k with synchronisableEvents := rest } e) := by
  unfold ZstHierarchy.processItem
  split
  · exact hk.of_same (fun _ => rfl) (fun _ => rfl) (fun _ => rfl) fun _ hd => hd
  · obtain ⟨x, n, hx, -, -, hproxy, hown, hstatus, hn⟩ :=
      processOwnEvents_own v (hk.undisturbed.events e)
        { k with synchronisableEvents := rest, freedAccess := k.freedAccess || !k.live e } e rfl
    simp only at hx ⊢
    rw [hx]
    have hentity : ∀ d, (k.modify e fun _ => x).entities d = if d = e then x else k.entities d :=
      fun d => modify_entities k e d _
    refine ⟨⟨fun d => ?_, fun d hd => ?_, fun d hd => ?_⟩, fun d => ?_⟩
    · change OwnEvents ((k.modify e fun _ => x).entities d).synchronisableEvents
      rw [hentity]
      split
      · rw [hown]
        exact .nil
      · exact hk.undisturbed.events d
    · change _ ∉ ((k.modify e fun _ => x).entities d).synchronisableEvents
      change ((k.modify e fun _ => x).entities d).isProxy = true at hd
      rw [hentity] at hd ⊢
      split at hd
      · rename_i hde
        rw [if_pos hde, hown]
        simp
      · rename_i hde
        rw [if_neg hde]
        exact hk.undisturbed.proxies d hd
    · change ((k.modify e fun _ => x).entities d).isProxy = false
      rw [hentity]
      rcases List.mem_append.mp hd with hd | hd
      · split
        · rename_i hde
          rw [hproxy]
          exact hk.undisturbed.cleanupOps e (hde ▸ hd)
        · exact hk.undisturbed.cleanupOps d hd
      · obtain ⟨hne, rfl⟩ := List.mem_replicate.mp hd
        rw [if_pos rfl, hproxy]
        by_contra hremote
        exact hne (hn (hk.undisturbed.proxies d (by simpa using hremote)))
    · change Entity.fate ((k.modify e fun _ => x).entities d) = _
      rw [hentity, ← hk.fate d]
      split
      · rename_i hde
        rw [hde]
        unfold Entity.fate
        rw [hown, hstatus]
        rfl
      · rfl

theorem SameFate.cleanup {rest : List EntityId} (hk : SameFate h k)
    (hops : k.cleanupOps = e :: rest) :
    SameFate h (cleanup v { k with cleanupOps := rest } e) := by
  have hrest : SameFate h { k with cleanupOps := rest } :=
    hk.of_same (fun _ => rfl) (fun _ => rfl) (fun _ => rfl) fun d hd => by
      rw [hops]
      exact List.mem_cons_of_mem e hd
  have howned : (k.entities e).isProxy = false := hk.undisturbed.cleanupOps e (by simp [hops])
  unfold ZstHierarchy.cleanup
  split
  · exact hrest
  · rw [if_neg (by simp [removeEntityFromLookup, howned])]
    exact hrest.of_same (fun _ => rfl) (fun _ => rfl) (fun _ => rfl) fun _ hd => hd

/-- A drain only lets the pending events happen. -/
theorem SameFate.processEvents (hk : SameFate h k) (fuel : Nat) :
    SameFate h (ZstClientHierarchy.processEvents v fuel k) := by
  have hstart : SameFate h { k with hierarchyEvents := [] } :=
    hk.of_same (fun _ => rfl) (fun _ => rfl) (fun _ => rfl) fun _ hd => hd
  have hevents : SameFate h (k.hierarchyEvents.foldl ZstClientHierarchy.processHierarchyEvent
      { k with hierarchyEvents := [] }) :=
    List.foldlRecOn (motive := SameFate h) _ _ hstart fun l hl event _ =>
      hl.processHierarchyEvent event
  have hitems := processItems_rule (P := SameFate h) v
    (fun l e rest hl _ => hl.processItem v e rest)
    ((k.hierarchyEvents.foldl ZstClientHierarchy.processHierarchyEvent
      { k with hierarchyEvents := [] }).synchronisableEvents.length + fuel) hevents
  refine (reapAll_rule (P := SameFate h) v (fun l e rest hl hops => hl.cleanup v hops) _
    hitems).of_same (fun _ => rfl) (fun _ => rfl) (fun _ => rfl) fun _ hd => hd

theorem NoProxyRemoved.enqueueDeactivation (hh : NoProxyRemoved h)
    (howned : (h.entities e).isProxy = false) : NoProxyRemoved (h.enqueueDeactivation e) := by
  have hops : (h.enqueueDeactivation e).cleanupOps = h.cleanupOps := by
    rw [enqueueDeactivation_eq]
    unfold synchronisableHasEvent
    split
    · split <;> rfl
    · rfl
  have hproxy : ∀ d, ((h.enqueueDeactivation e).entities d).isProxy = (h.entities d).isProxy := by
    intro d
    rw [enqueueDeactivation_entities]
    split <;> rfl
  refine ⟨fun d => ?_, fun d hd => ?_, fun d hd => ?_⟩
  · rw [enqueueDeactivation_entities]
    split
    · exact (hh.events d).append (.destroyed .nil)
    · exact hh.events d
  · rw [hproxy] at hd
    have hde : d ≠ e := by
      rintro rfl
      rw [howned] at hd
      cases hd
    rw [enqueueDeactivation_entities, if_neg fun h => hde h.1]
    exact hh.proxies d hd
  · rw [hproxy]
    exact hh.cleanupOps d (hops ▸ hd)

end NoProxyRemoved

/-! ## Leaving -/

/-- The hierarchy once the client has left and its events are drained. -/
def left (fuel : Nat) (client : ZstClient) (root : EntityId) (behaviour : SendBehaviour) :
    ZstHierarchy :=
  (ZstClient.processEvents fuel (leaveStageComplete fuel client root behaviour)).hierarchy

/-- The entity is still activated once the client has left: it is not deactivated,
and the last of its pending events, or its status if they do not change it,
activates it. A synchronous leave deactivates the root once more after a drain. -/
def StaysActivated (h : ZstHierarchy) (root : EntityId) (behaviour : SendBehaviour)
    (d : EntityId) : Prop :=
  (h.entities d).fate = .activated ∧
    ¬ (d ∈ nearEntities h root ∧ Deactivates (h.entities d)) ∧
    ¬ (d = root ∧ behaviour = .syncReply)

instance (h : ZstHierarchy) (root : EntityId) (behaviour : SendBehaviour) (d : EntityId) :
    Decidable (StaysActivated h root behaviour d) :=
  inferInstanceAs (Decidable (_ ∧ _ ∧ _))

/-- No entity of the tree below the root is activated any more. -/
def Asleep (h : ZstHierarchy) (root : EntityId) (k : ZstHierarchy) : Prop :=
  ∀ d ∈ h.getChildEntities root, (k.entities d).syncStatus ≠ .activated

instance (h : ZstHierarchy) (root : EntityId) (k : ZstHierarchy) : Decidable (Asleep h root k) :=
  inferInstanceAs (Decidable (∀ _ ∈ _, _))

section Leaving

variable {client : ZstClient} {root d : EntityId} {behaviour : SendBehaviour} (fuel : Nat)

/-- A drain without a stage. -/
def drain (h : ZstHierarchy) : ZstHierarchy :=
  ZstClientHierarchy.processEvents (overrides (okLink false) fuel) fuel h

theorem left_eq (hconnected : client.connectedToStage = true) :
    left fuel client root behaviour =
      let h := (nearEntities client.hierarchy root).foldl enqueueDeactivation client.hierarchy
      if behaviour = .syncReply then drain fuel (drain fuel ((drain fuel h).enqueueDeactivation root))
      else drain fuel (h.enqueueDeactivation root) := by
  unfold left leaveStageComplete
  rw [if_pos hconnected, Rejoin.processEvents_hierarchy]
  by_cases hb : behaviour = .syncReply
  · simp only [if_pos hb, Rejoin.processEvents_hierarchy, onHierarchy_hierarchy]
    rfl
  · simp only [if_neg hb]
    rfl

/-- Local entities fall asleep unless they stay activated. -/
theorem asleep_of_not_staysActivated (hconnected : client.connectedToStage = true)
    (tree : LocalTree client.hierarchy root)
    (hnone : ∀ d ∈ client.hierarchy.getChildEntities root,
      ¬ StaysActivated client.hierarchy root behaviour d) :
    Asleep client.hierarchy root (left fuel client root behaviour) := by
  intro d hd
  have lulling := lulling_offline fuel
  have hentity := foldl_enqueueDeactivation_entities (nearEntities client.hierarchy root)
    client.hierarchy d
  have hd' := (tree.entity d hd).foldl (nearEntities client.hierarchy root)
  rw [left_eq fuel hconnected]
  simp only
  generalize (nearEntities client.hierarchy root).foldl enqueueDeactivation client.hierarchy = k
    at hentity hd' ⊢
  by_cases hfate : (k.entities d).fate = .activated
  · -- only the root of a synchronous leave is deactivated later
    have hstays : (client.hierarchy.entities d).fate = .activated ∧
        ¬ (d ∈ nearEntities client.hierarchy root ∧
          Deactivates (client.hierarchy.entities d)) := by
      rw [hentity] at hfate
      split at hfate
      · rw [fate_queueDeactivation] at hfate
        cases hfate
      · rename_i hnot
        exact ⟨hfate, hnot⟩
    have hroot : d = root ∧ behaviour = .syncReply := by
      by_contra h
      exact hnone d hd ⟨hstays.1, hstays.2, h⟩
    obtain ⟨rfl, hb⟩ := hroot
    rw [if_pos hb]
    have hawake : Sinking False k.synchronisableEvents.length d k := hd'.sinking fun h => h.elim
    have hdeactivated := (lulling.processEvents hawake fuel).deactivated (by
      simp [ZstClientHierarchy.processEvents])
    have hdrained : ∀ {m : Nat} {l : ZstHierarchy}, Sinking True m d l →
        Sinking True 0 d (drain fuel l) := fun hl => lulling.processEvents hl fuel
    exact (hdrained (hdrained hdeactivated)).done.2 trivial
  · have hsinks : Sinking True k.synchronisableEvents.length d k := hd'.sinking fun _ => hfate
    have hdrained : ∀ {m : Nat} {l : ZstHierarchy}, Sinking True m d l →
        Sinking True 0 d (drain fuel l) := fun hl => lulling.processEvents hl fuel
    split
    · exact (hdrained (hdrained ((hdrained hsinks).enqueueDeactivation root))).done.2 trivial
    · exact (hdrained (hsinks.enqueueDeactivation root)).done.2 trivial

theorem Done.status {x : Entity} (hdone : Done False x) (hfate : x.fate = .activated) :
    x.syncStatus = .activated := by
  by_contra hstatus
  exact foldl_statusAfter_of_not_mem hdone.1 hstatus hfate

theorem undisturbed_foldl {h : ZstHierarchy} (hh : NoProxyRemoved h) {entities : List EntityId}
    (hlocal : ∀ e ∈ entities, LocalEntity h e) :
    NoProxyRemoved (entities.foldl enqueueDeactivation h) := by
  induction entities generalizing h with
  | nil => exact hh
  | cons e entities ih =>
    refine ih (hh.enqueueDeactivation (hlocal e List.mem_cons_self).owned) fun d hd => ?_
    exact (hlocal d (List.mem_cons_of_mem e hd)).enqueueDeactivation e

/-- While nobody else is removed, an entity that stays activated does so for good. -/
theorem staysActivated_status (hconnected : client.connectedToStage = true)
    (tree : LocalTree client.hierarchy root) (hundisturbed : NoProxyRemoved client.hierarchy)
    (hd : d ∈ client.hierarchy.getChildEntities root)
    (hstays : StaysActivated client.hierarchy root behaviour d) :
    ((left fuel client root behaviour).entities d).syncStatus = .activated := by
  obtain ⟨hfate, hkept, hroot⟩ := hstays
  have lulling := lulling_offline fuel
  have hentity : ((nearEntities client.hierarchy root).foldl enqueueDeactivation
      client.hierarchy).entities d = client.hierarchy.entities d := by
    rw [foldl_enqueueDeactivation_entities, if_neg hkept]
  have hstart := undisturbed_foldl hundisturbed fun e he => tree.near he
  have hd' := (tree.entity d hd).foldl (nearEntities client.hierarchy root)
  have hroot' := (tree.near (d := root) List.mem_cons_self).foldl
    (nearEntities client.hierarchy root)
  rw [left_eq fuel hconnected]
  simp only
  generalize (nearEntities client.hierarchy root).foldl enqueueDeactivation client.hierarchy = k
    at hentity hstart hd' hroot' ⊢
  have hsinks : Sinking False k.synchronisableEvents.length d k := hd'.sinking fun h => h.elim
  have hdrained : ∀ {m : Nat} {e : EntityId} {l : ZstHierarchy}, Sinking False m e l →
      Sinking False 0 e (drain fuel l) := fun hl => lulling.processEvents hl fuel
  have hsame : ∀ {l : ZstHierarchy}, NoProxyRemoved l → SameFate l (drain fuel l) := fun hl =>
    SameFate.processEvents _ ⟨hl, fun _ => rfl⟩ fuel
  split
  · rename_i hb
    have hne : d ≠ root := fun hde => hroot ⟨hde, hb⟩
    have hfirst := hsame hstart
    have howned : ((drain fuel k).entities root).isProxy = false :=
      (hdrained (hroot'.sinking fun h => h.elim)).owned
    have hsecond := hsame (hfirst.undisturbed.enqueueDeactivation howned)
    have hthird := hsame hsecond.undisturbed
    refine (hdrained (hdrained ((hdrained hsinks).enqueueDeactivation root))).done.status ?_
    rw [hthird.fate, hsecond.fate, enqueueDeactivation_entities, if_neg fun h => hne h.1,
      hfirst.fate, hentity]
    exact hfate
  · have hlast := hsame (hstart.enqueueDeactivation hroot'.owned)
    refine (hdrained (hsinks.enqueueDeactivation root)).done.status ?_
    have hunchanged : ¬ (d = root ∧ Deactivates (k.entities d)) := by
      rintro ⟨rfl, hdeactivates⟩
      exact hkept ⟨List.mem_cons_self, hentity ▸ hdeactivates⟩
    rw [hlast.fate, enqueueDeactivation_entities, if_neg hunchanged, hentity]
    exact hfate

end Leaving

/-- Exactly the entities that stay activated keep the tree from falling asleep, as
long as no entity of another client is removed in the meantime; if some are, it
still falls asleep when no entity stays activated. -/
theorem asleep_iff_not_staysActivated (fuel : Nat) (client : ZstClient) (root : EntityId)
    (behaviour : SendBehaviour) (hconnected : client.connectedToStage = true)
    (tree : LocalTree client.hierarchy root) :
    ((∀ d ∈ client.hierarchy.getChildEntities root,
        ¬ StaysActivated client.hierarchy root behaviour d) →
      Asleep client.hierarchy root (left fuel client root behaviour)) ∧
    (NoProxyRemoved client.hierarchy →
      Asleep client.hierarchy root (left fuel client root behaviour) →
      ∀ d ∈ client.hierarchy.getChildEntities root,
        ¬ StaysActivated client.hierarchy root behaviour d) :=
  ⟨asleep_of_not_staysActivated fuel hconnected tree,
    fun hundisturbed hasleep d hd hstays =>
      hasleep d hd (staysActivated_status fuel hconnected tree hundisturbed hd hstays)⟩

/-! ## A client with its own entities only -/

section OfList

variable {entities : List Entity} {root : Option EntityId}

theorem ofList_local (hlocal : ∀ x ∈ entities, x.isProxy = false ∧ x.synchronisableEvents = [])
    (e : EntityId) : ((ofList entities root).entities e).isProxy = false ∧
      ((ofList entities root).entities e).synchronisableEvents = [] := by
  by_cases he : e < entities.length
  · rw [ofList_entities (List.getElem?_eq_getElem he)]
    exact hlocal _ (List.getElem_mem he)
  · simp [ofList, he]

theorem localTree_ofList {performer : EntityId} (hperformer : performer < entities.length)
    (hlocal : ∀ x ∈ entities, x.isProxy = false ∧ x.synchronisableEvents = [])
    (hregistered : ∀ d ∈ (ofList entities root).getChildEntities performer,
      ((ofList entities root).entities d).registered = true) :
    LocalTree (ofList entities root) performer where
  allocated := hperformer
  entity d hd := by
    obtain ⟨howned, hevents⟩ := ofList_local hlocal d
    exact ⟨howned, hregistered d hd, hevents ▸ .nil, fun hne => absurd hevents hne,
      List.not_mem_nil⟩

theorem noProxyRemoved_ofList
    (hlocal : ∀ x ∈ entities, x.isProxy = false ∧ x.synchronisableEvents = []) :
    NoProxyRemoved (ofList entities root) where
  events e := by
    rw [(ofList_local hlocal e).2]
    exact .nil
  proxies e hproxy := by
    rw [(ofList_local hlocal e).1] at hproxy
    cases hproxy
  cleanupOps e he := by cases he

end OfList

/-- A client that has joined, with the entities of its own. -/
def joinedWith (entities : List Entity) : ZstClient where
  connectedToStage := true
  session :=
    { hierarchy := ofList entities (some 0)
      cableObjects := fun _ => { address := ⟨[], []⟩, input := 0, output := 0 } }

/-- A synthesiser with its output. -/
def joinedClient : ZstClient :=
  joinedWith
    [ { entityType := .performer, uri := ["ada"], registered := true
        children := [["ada", "synth"]], syncStatus := .activated },
      { entityType := .component, uri := ["ada", "synth"], parentAddress := ["ada"]
        registered := true, children := [["ada", "synth", "out"]], syncStatus := .activated },
      { entityType := .plug, uri := ["ada", "synth", "out"], parentAddress := ["ada", "synth"]
        registered := true, direction := .outJack, syncStatus := .activated } ]

/-- A synthesiser without plugs, and an output of the performer. -/
def shallowClient : ZstClient :=
  joinedWith
    [ { entityType := .performer, uri := ["ada"], registered := true
        children := [["ada", "synth"], ["ada", "out"]], syncStatus := .activated },
      { entityType := .component, uri := ["ada", "synth"], parentAddress := ["ada"]
        registered := true, syncStatus := .activated },
      { entityType := .plug, uri := ["ada", "out"], parentAddress := ["ada"]
        registered := true, direction := .outJack, syncStatus := .activated } ]

theorem asleep_iff_not_staysActivated_joined :
    Asleep shallowClient.hierarchy 0 (left 4 shallowClient 0 .publish) ∧
      StaysActivated joinedClient.hierarchy 0 .publish 2 ∧
      ¬ Asleep joinedClient.hierarchy 0 (left 4 joinedClient 0 .publish) := by
  have hshallow : LocalTree shallowClient.hierarchy 0 :=
    localTree_ofList (by decide) (by decide) (by decide)
  have hjoined : LocalTree joinedClient.hierarchy 0 :=
    localTree_ofList (by decide) (by decide) (by decide)
  have hstays : StaysActivated joinedClient.hierarchy 0 .publish 2 := by decide
  refine ⟨(asleep_iff_not_staysActivated 4 shallowClient 0 .publish rfl hshallow).1 (by decide),
    hstays, fun hasleep => ?_⟩
  exact (asleep_iff_not_staysActivated 4 joinedClient 0 .publish rfl hjoined).2
    (noProxyRemoved_ofList (by decide)) hasleep 2 (by decide) hstays

/-- The output is too deep to be deactivated. -/
theorem left_not_asleep :
    ¬ Asleep joinedClient.hierarchy 0 (left 4 joinedClient 0 .publish) := by
  decide

end Showtime.FallingAsleep
