import Showtime.Cabling
/-!
# Cable requests that fail

A request for a cable fails when a check refuses it, or later, when the
handshake of the performers is answered with an error or not at all. What the
stage is left with, once the event loop has drained its events, is compared
with what the event loop makes of the stage that never got the request.
-/

namespace Showtime.CableFailure

open ZstHierarchy ZstStageHierarchy ZstStageSession ZstStage Sending Cabling
open ConnectReplies (plugged requestedCable makeRoom)

/-! ## The log is only written -/

/-- The hierarchies differ in what was sent, and in nothing else. -/
def Muted (h k : ZstHierarchy) : Prop :=
  ∃ sent, k = { h with sent }

namespace Muted

variable {h k : ZstHierarchy}

theorem modify (hk : Muted h k) (e : EntityId) (f : Entity → Entity) :
    Muted (h.modify e f) (k.modify e f) := by
  obtain ⟨sent, rfl⟩ := hk
  exact ⟨sent, rfl⟩

theorem getChildEntities_eq (hk : Muted h k) (e : EntityId) :
    k.getChildEntities e = h.getChildEntities e := by
  obtain ⟨sent, rfl⟩ := hk
  -- both stand where the hierarchy without a log stands
  have hstanding : ∀ sent, Standing { h with sent := [] } { h with sent } := fun sent =>
    Standing.sends { h with sent := [] } sent
  exact ((hstanding sent).getChildEntities_eq e).trans
    ((hstanding h.sent).getChildEntities_eq e).symm

theorem foldl {α : Type} {f : ZstHierarchy → α → ZstHierarchy}
    (hf : ∀ h k a, Muted h k → Muted (f h a) (f k a)) (items : List α) (hk : Muted h k) :
    Muted (items.foldl f h) (items.foldl f k) := by
  induction items generalizing h k with
  | nil => exact hk
  | cons a items ih => exact ih (hf h k a hk)

theorem broadcast (hk : Muted h k) (content : Content) (excluded : Option EntityId) :
    Muted (broadcast h content excluded) (ZstStageHierarchy.broadcast k content excluded) := by
  obtain ⟨sent, rfl⟩ := hk
  rw [broadcast_eq, broadcast_eq]
  exact ⟨_, rfl⟩

theorem deactivateEntityBase (hk : Muted h k) (e : EntityId) :
    Muted (h.deactivateEntityBase e) (k.deactivateEntityBase e) := by
  obtain ⟨sent, rfl⟩ := hk
  unfold ZstHierarchy.deactivateEntityBase
  simp only
  split
  · exact ⟨sent, rfl⟩
  · exact ⟨sent, rfl⟩

theorem onSynchronisableDestroyed (hk : Muted h k) (e : EntityId) (alreadyRemoved : Bool) :
    Muted (onSynchronisableDestroyed stageOverrides h e alreadyRemoved)
      (onSynchronisableDestroyed stageOverrides k e alreadyRemoved) := by
  have hbase := hk.deactivateEntityBase e
  obtain ⟨sent, rfl⟩ := hk
  unfold ZstHierarchy.onSynchronisableDestroyed
  simp only
  have hdeactivated : Muted
      (if (h.entities e).isActivated ∨ (h.entities e).syncStatus = .destroyed then
        stageOverrides.deactivateEntity h e (if alreadyRemoved then .publish else .syncReply)
        else h)
      (if (h.entities e).isActivated ∨ (h.entities e).syncStatus = .destroyed then
        stageOverrides.deactivateEntity { h with sent } e
          (if alreadyRemoved then .publish else .syncReply)
        else { h with sent }) := by
    split
    · exact hbase
    · exact ⟨sent, rfl⟩
  obtain ⟨after, hafter⟩ := hdeactivated
  rw [hafter]
  cases alreadyRemoved
  · exact ⟨after, rfl⟩
  · exact ⟨after, rfl⟩

theorem processEvent (hk : Muted h k) (e : EntityId) (event : SynchronisableEvent) :
    Muted (processEvent stageOverrides h e event) (processEvent stageOverrides k e event) := by
  cases event with
  | activated | deactivated => exact (hk.modify e _).modify e _
  | destroyed => exact hk.onSynchronisableDestroyed e false
  | updated => exact hk

theorem processOwnEvents (fuel : Nat) (hk : Muted h k) (e : EntityId) :
    Muted (processOwnEvents stageOverrides fuel h e)
      (processOwnEvents stageOverrides fuel k e) := by
  induction fuel generalizing h k with
  | zero => exact hk
  | succ fuel ih =>
    have hevents : (k.entities e).synchronisableEvents = (h.entities e).synchronisableEvents := by
      obtain ⟨sent, rfl⟩ := hk
      rfl
    simp only [ZstHierarchy.processOwnEvents, hevents]
    split
    · exact hk
    · exact ih ((hk.modify e _).processEvent e _)

theorem processItem (hk : Muted h k) (e : EntityId) :
    Muted (processItem stageOverrides h e) (processItem stageOverrides k e) := by
  obtain ⟨sent, rfl⟩ := hk
  unfold ZstHierarchy.processItem
  simp only
  split
  · exact ⟨sent, rfl⟩
  · exact processOwnEvents _ ⟨sent, rfl⟩ e

theorem processItems (fuel : Nat) (hk : Muted h k) :
    Muted (processItems stageOverrides fuel h) (processItems stageOverrides fuel k) := by
  induction fuel generalizing h k with
  | zero => exact hk
  | succ fuel ih =>
    obtain ⟨sent, rfl⟩ := hk
    simp only [ZstHierarchy.processItems]
    split
    · exact ⟨sent, rfl⟩
    · exact ih (processItem ⟨sent, rfl⟩ _)

theorem destroyComponent (hk : Muted h k) (e : EntityId) :
    Muted (destroyComponent stageOverrides h e) (destroyComponent stageOverrides k e) := by
  unfold ZstHierarchy.destroyComponent
  rw [hk.getChildEntities_eq]
  refine (foldl (fun h k c hk => ?_) _ hk).modify e _
  have hdeactivated := hk.deactivateEntityBase c
  obtain ⟨sent, rfl⟩ := hk
  simp only
  split
  · exact hdeactivated
  · exact ⟨sent, rfl⟩

theorem deleteEntity (hk : Muted h k) (e : EntityId) :
    Muted (deleteEntity stageOverrides h e) (deleteEntity stageOverrides k e) := by
  have hcomponent := hk.destroyComponent e
  unfold ZstHierarchy.deleteEntity destroyEntityBase
  generalize ZstHierarchy.destroyComponent stageOverrides h e = l at hcomponent ⊢
  generalize ZstHierarchy.destroyComponent stageOverrides k e = m at hcomponent ⊢
  have hdestroyed := hcomponent.onSynchronisableDestroyed e true
  obtain ⟨sent, rfl⟩ := hcomponent
  obtain ⟨after, hafter⟩ := hdestroyed
  simp only
  split
  · rw [hafter]
    exact ⟨after, rfl⟩
  · exact ⟨sent, rfl⟩

theorem cleanup (hk : Muted h k) (e : EntityId) :
    Muted (cleanup stageOverrides h e) (cleanup stageOverrides k e) := by
  obtain ⟨sent, rfl⟩ := hk
  unfold ZstHierarchy.cleanup
  simp only
  split
  · exact ⟨sent, rfl⟩
  · split
    · rename_i hproxy
      refine (if_pos hproxy).symm ▸ ?_
      exact deleteEntity ⟨sent, rfl⟩ e
    · rename_i hproxy
      refine (if_neg hproxy).symm ▸ ?_
      exact ⟨sent, rfl⟩

theorem reapAll (fuel : Nat) (hk : Muted h k) :
    Muted (reapAll stageOverrides fuel h) (reapAll stageOverrides fuel k) := by
  induction fuel generalizing h k with
  | zero => exact hk
  | succ fuel ih =>
    obtain ⟨sent, rfl⟩ := hk
    simp only [ZstHierarchy.reapAll]
    split
    · exact ⟨sent, rfl⟩
    · exact ih (cleanup ⟨sent, rfl⟩ _)

end Muted

/-- The sessions differ in what was sent, and in nothing else. -/
def Silenced (s t : ZstSession) : Prop :=
  ∃ sent, t = onHierarchy s fun h => { h with sent }

namespace Silenced

variable {s t : ZstSession}

theorem of_muted {h k : ZstHierarchy} (hst : Silenced s t) (hk : Muted h k) :
    Silenced { s with hierarchy := h } { t with hierarchy := k } := by
  obtain ⟨sent, rfl⟩ := hst
  obtain ⟨after, rfl⟩ := hk
  exact ⟨after, rfl⟩

theorem muted (hst : Silenced s t) : Muted s.hierarchy t.hierarchy := by
  obtain ⟨sent, rfl⟩ := hst
  exact ⟨sent, rfl⟩

theorem foldl {α : Type} {f : ZstSession → α → ZstSession}
    (hf : ∀ s t a, Silenced s t → Silenced (f s a) (f t a)) (items : List α)
    (hst : Silenced s t) : Silenced (items.foldl f s) (items.foldl f t) := by
  induction items generalizing s t with
  | nil => exact hst
  | cons a items ih => exact ih (hf s t a hst)

theorem broadcast (hst : Silenced s t) (content : Content) (excluded : Option EntityId) :
    Silenced (onHierarchy s fun h => broadcast h content excluded)
      (onHierarchy t fun h => ZstStageHierarchy.broadcast h content excluded) :=
  hst.of_muted (hst.muted.broadcast content excluded)

theorem enqueueCableDeactivation (hst : Silenced s t) (c : CableId) :
    Silenced (s.enqueueCableDeactivation c) (t.enqueueCableDeactivation c) := by
  obtain ⟨sent, rfl⟩ := hst
  unfold ZstSession.enqueueCableDeactivation onHierarchy
  simp only
  split
  · exact ⟨sent, rfl⟩
  · exact ⟨sent, rfl⟩

theorem destroyCableComplete (hst : Silenced s t) (c : CableId) :
    Silenced (s.destroyCableComplete c) (t.destroyCableComplete c) := by
  obtain ⟨sent, rfl⟩ := hst
  unfold ZstSession.destroyCableComplete
  simp only
  generalize haddress : (s.cableObjects c).address = address
  have hin : (onHierarchy s fun h => { h with sent }).findInputPlug address.inputURI =
      s.findInputPlug address.inputURI := rfl
  have hobject : ((onHierarchy s fun h => { h with sent }).cableObjects c).address = address :=
    haddress
  rw [hobject, hin]
  cases s.findInputPlug address.inputURI with
  | none =>
    have hout : (onHierarchy s fun h => { h with sent }).findOutputPlug address.outputURI =
        s.findOutputPlug address.outputURI := rfl
    simp only [hout]
    split
    · exact enqueueCableDeactivation ⟨sent, rfl⟩ c
    · exact enqueueCableDeactivation ⟨sent, rfl⟩ c
  | some input =>
    have hout : ((onHierarchy s fun h => { h with sent }).plugRemoveCable input
        address).findOutputPlug address.outputURI =
          (s.plugRemoveCable input address).findOutputPlug address.outputURI := rfl
    simp only [hout]
    split
    · exact enqueueCableDeactivation ⟨sent, rfl⟩ c
    · exact enqueueCableDeactivation ⟨sent, rfl⟩ c

theorem destroyCable (hst : Silenced s t) (c : CableId) :
    Silenced (destroyCable s c) (destroyCable t c) := by
  have hobjects : t.cableObjects = s.cableObjects := by
    obtain ⟨sent, rfl⟩ := hst
    rfl
  unfold ZstStageSession.destroyCable
  rw [hobjects]
  exact (hst.broadcast _ none).destroyCableComplete c

theorem getChildCables_eq (hst : Silenced s t) (e : EntityId) :
    t.getChildCables e = s.getChildCables e := by
  unfold ZstSession.getChildCables
  rw [hst.muted.getChildEntities_eq]
  obtain ⟨sent, rfl⟩ := hst
  rfl

theorem disconnectCables (hst : Silenced s t) (entity : Option EntityId) :
    Silenced (disconnectCables s entity) (disconnectCables t entity) := by
  cases entity with
  | none => exact hst
  | some e =>
    unfold ZstStageSession.disconnectCables
    simp only [hst.getChildCables_eq]
    exact foldl (fun _ _ c hst => hst.destroyCable c) _ hst

theorem onEntityArriving (hst : Silenced s t) (e : EntityId) :
    Silenced (onHierarchy s fun h => onEntityArriving h e)
      (onHierarchy t fun h => onEntityArriving h e) := by
  have harriving := hst.broadcast (.entityCreateRequest (s.hierarchy.entities e).serialize)
    (findStageProxy s.hierarchy (s.hierarchy.entities e).uri.first)
  obtain ⟨sent, rfl⟩ := hst
  unfold ZstStageSession.onEntityArriving onHierarchy at *
  simp only at *
  split
  · exact ⟨sent, rfl⟩
  · exact harriving

theorem registerEntity (hst : Silenced s t) (e : EntityId) :
    Silenced (s.registerEntity e) (t.registerEntity e) := by
  unfold ZstSession.registerEntity
  rw [hst.muted.getChildEntities_eq]
  refine hst.of_muted ?_
  exact Muted.foldl (fun _ _ c hk => hk.modify c _) _ hst.muted

theorem processHierarchyEvent (hst : Silenced s t) (event : HierarchyEvent) {u : ZstSession}
    (hrun : processHierarchyEvent s event = .ok u) :
    ∃ v, processHierarchyEvent t event = .ok v ∧ Silenced u v := by
  have hderef : ∀ e, t.hierarchy.deref e = s.hierarchy.deref e := by
    obtain ⟨sent, rfl⟩ := hst
    intro e
    rfl
  have hfind : ∀ path, t.hierarchy.findEntity path = s.hierarchy.findEntity path := by
    obtain ⟨sent, rfl⟩ := hst
    intro path
    rfl
  cases event with
  | entityArriving e | performerArriving e =>
    obtain ⟨e', he, hrun⟩ := Library.bind_ok.mp hrun
    obtain rfl := Except.ok.inj hrun
    refine ⟨_, Library.bind_ok.mpr ⟨e', (hderef _).trans he, rfl⟩, ?_⟩
    exact (hst.onEntityArriving e').registerEntity e'
  | factoryArriving e =>
    obtain ⟨e', he, hrun⟩ := Library.bind_ok.mp hrun
    obtain rfl := Except.ok.inj hrun
    exact ⟨_, Library.bind_ok.mpr ⟨e', (hderef _).trans he, rfl⟩, hst.onEntityArriving e'⟩
  | entityLeaving path | performerLeaving path =>
    obtain rfl := Except.ok.inj hrun
    refine ⟨_, rfl, ?_⟩
    rw [hfind]
    exact hst.disconnectCables _
  | factoryLeaving path | entityUpdated e =>
    obtain rfl := Except.ok.inj hrun
    exact ⟨t, rfl, hst⟩

theorem modifyCable (hst : Silenced s t) (c : CableId) (f : ZstCable → ZstCable) :
    Silenced (s.modifyCable c f) (t.modifyCable c f) := by
  obtain ⟨sent, rfl⟩ := hst
  exact ⟨sent, rfl⟩

theorem processCableItem (hst : Silenced s t) (c : CableId) :
    Silenced (s.processCableItem c) (t.processCableItem c) := by
  have hobjects : t.cableObjects = s.cableObjects := by
    obtain ⟨sent, rfl⟩ := hst
    rfl
  unfold ZstSession.processCableItem
  rw [hobjects]
  refine foldl (fun u v event huv => ?_) _ (hst.modifyCable c _)
  obtain ⟨sent, rfl⟩ := huv
  cases event <;> exact ⟨sent, rfl⟩

theorem cableEvents (hst : Silenced s t) :
    Silenced s.processCableItems.reapCables t.processCableItems.reapCables := by
  have hitems : Silenced s.processCableItems t.processCableItems := by
    unfold ZstSession.processCableItems
    obtain ⟨sent, rfl⟩ := hst
    exact foldl (fun _ _ c huv => huv.processCableItem c) _ ⟨sent, rfl⟩
  generalize s.processCableItems = u at hitems ⊢
  obtain ⟨sent, hitems⟩ := hitems
  rw [hitems]
  exact ⟨sent, rfl⟩

end Silenced

/-! ## The event loop -/

/-- The steps of the event loop. -/
def drains : StageEvent → Bool
  | .hierarchyEvent | .synchronisableEvent | .cleanup | .forgetDead | .cableEvents => true
  | .receive _ | .respond _ _ | .heartbeatTimer => false

section Loop

variable {s t u : ZstSession}

/-- The event loop does not look at what was sent. -/
theorem Silenced.drain (hst : Silenced s t) {event : StageEvent} (hdrains : drains event = true)
    (hrun : step s event = .ok u) : ∃ v, step t event = .ok v ∧ Silenced u v := by
  cases event with
  | receive msg => cases hdrains
  | respond message response => cases hdrains
  | heartbeatTimer => cases hdrains
  | hierarchyEvent =>
    have hevents : t.hierarchy.hierarchyEvents = s.hierarchy.hierarchyEvents := by
      obtain ⟨sent, rfl⟩ := hst
      rfl
    simp only [ZstStage.step, hevents] at hrun ⊢
    split at hrun
    · obtain rfl := Except.ok.inj hrun
      exact ⟨t, rfl, hst⟩
    · rename_i event rest hpending
      have hpopped : Silenced (onHierarchy s fun h => { h with hierarchyEvents := rest })
          (onHierarchy t fun h => { h with hierarchyEvents := rest }) := by
        obtain ⟨sent, rfl⟩ := hst
        exact ⟨sent, rfl⟩
      exact hpopped.processHierarchyEvent event hrun
  | synchronisableEvent =>
    obtain rfl := Except.ok.inj hrun
    exact ⟨_, rfl, hst.of_muted (hst.muted.processItems 1)⟩
  | cleanup =>
    obtain rfl := Except.ok.inj hrun
    exact ⟨_, rfl, hst.of_muted (hst.muted.reapAll 1)⟩
  | forgetDead =>
    obtain rfl := Except.ok.inj hrun
    obtain ⟨sent, rfl⟩ := hst
    exact ⟨_, rfl, sent, rfl⟩
  | cableEvents =>
    obtain rfl := Except.ok.inj hrun
    exact ⟨_, rfl, hst.cableEvents⟩

theorem Silenced.run (hst : Silenced s t) {loop : List StageEvent}
    (hloop : ∀ event ∈ loop, drains event = true) (hrun : Library.run step s loop = .ok u) :
    ∃ v, Library.run step t loop = .ok v ∧ Silenced u v := by
  induction loop generalizing s t with
  | nil =>
    obtain rfl : s = u := by simpa using hrun
    exact ⟨t, rfl, hst⟩
  | cons event loop ih =>
    obtain ⟨w, hw, hrest⟩ := Library.run_cons_ok.mp hrun
    obtain ⟨w', hw', hlater⟩ := hst.drain (hloop event List.mem_cons_self) hw
    obtain ⟨v, hv, huv⟩ := ih hlater (fun e he => hloop e (List.mem_cons_of_mem _ he)) hrest
    exact ⟨v, Library.run_cons_ok.mpr ⟨w', hw', hv⟩, huv⟩

/-- Nothing that would take cables along is waiting. -/
def NoneLeaving (h : ZstHierarchy) : Prop :=
  ∀ event ∈ h.hierarchyEvents, ∀ path, event ≠ .entityLeaving path ∧ event ≠ .performerLeaving path

/-- The cable is there, and not on its way out. -/
structure Lingers (c : CableId) (s : ZstSession) : Prop where
  there : c ∈ s.cables
  calm : c ∉ s.synchronisableEvents
  kept : c ∉ s.cleanupOps

theorem Lingers.cableEvents {c : CableId} (hc : Lingers c s) :
    Lingers c s.processCableItems.reapCables := by
  have hitem : ∀ {v : ZstSession} {d : CableId}, d ∈ s.synchronisableEvents →
      c ∈ v.cables ∧ v.synchronisableEvents = [] ∧ c ∉ v.cleanupOps →
      let w := v.processCableItem d
      c ∈ w.cables ∧ w.synchronisableEvents = [] ∧ c ∉ w.cleanupOps := by
    intro v d hd hv
    have hne : c ≠ d := fun hcd => hc.calm (hcd ▸ hd)
    unfold ZstSession.processCableItem
    refine List.foldlRecOn (motive := fun (w : ZstSession) =>
      c ∈ w.cables ∧ w.synchronisableEvents = [] ∧ c ∉ w.cleanupOps) _ _ hv fun w hw event _ => ?_
    cases event with
    | destroyed =>
      refine ⟨hw.1, hw.2.1, fun hmem => ?_⟩
      rcases List.mem_append.mp hmem with hmem | hmem
      · exact hw.2.2 hmem
      · exact hne (List.mem_singleton.mp hmem)
    | activated | deactivated | updated => exact hw
  obtain ⟨hthere, hempty, hkept⟩ : c ∈ s.processCableItems.cables ∧
      s.processCableItems.synchronisableEvents = [] ∧ c ∉ s.processCableItems.cleanupOps :=
    List.foldlRecOn (motive := fun (w : ZstSession) =>
      c ∈ w.cables ∧ w.synchronisableEvents = [] ∧ c ∉ w.cleanupOps) _ _
      ⟨hc.there, rfl, hc.kept⟩ fun v hv d hd => hitem hd hv
  refine ⟨List.mem_filter.mpr ⟨hthere, by simpa using hkept⟩, ?_, by simp [ZstSession.reapCables]⟩
  simp [ZstSession.reapCables, hempty]

/-- Unless somebody leaves, a cable outlasts the event loop. -/
theorem Lingers.drain {c : CableId} (hc : Lingers c s) (hnone : NoneLeaving s.hierarchy)
    {event : StageEvent} (hdrains : drains event = true) (hrun : step s event = .ok t) :
    Lingers c t ∧ NoneLeaving t.hierarchy := by
  have hhierarchy : t = { s with hierarchy := t.hierarchy } →
      t.hierarchy.hierarchyEvents ⊆ s.hierarchy.hierarchyEvents →
      Lingers c t ∧ NoneLeaving t.hierarchy := fun ht hevents => by
    refine ⟨?_, fun event hevent => hnone event (hevents hevent)⟩
    rw [ht]
    exact ⟨hc.there, hc.calm, hc.kept⟩
  cases event with
  | receive msg => cases hdrains
  | respond message response => cases hdrains
  | heartbeatTimer => cases hdrains
  | hierarchyEvent =>
    simp only [ZstStage.step] at hrun
    split at hrun
    · obtain rfl := Except.ok.inj hrun
      exact ⟨hc, hnone⟩
    · rename_i event rest hevents
      have hrest : rest ⊆ s.hierarchy.hierarchyEvents := by
        rw [hevents]
        exact List.subset_cons_self event rest
      have hmem : event ∈ s.hierarchy.hierarchyEvents := hevents ▸ List.mem_cons_self
      have harriving : ∀ e, (onEntityArriving { s.hierarchy with hierarchyEvents := rest }
          e).hierarchyEvents = rest := fun e => by
        unfold onEntityArriving
        simp only [broadcast_eq]
        split <;> rfl
      cases event with
      | entityArriving e | performerArriving e =>
        obtain ⟨e, -, hrun⟩ := Library.bind_ok.mp hrun
        obtain rfl := Except.ok.inj hrun
        refine hhierarchy rfl ?_
        rw [(Mute.registerEntity _ e).hierarchyEvents]
        exact (harriving e).symm ▸ hrest
      | factoryArriving e =>
        obtain ⟨e, -, hrun⟩ := Library.bind_ok.mp hrun
        obtain rfl := Except.ok.inj hrun
        exact hhierarchy rfl ((harriving e).symm ▸ hrest)
      | entityLeaving path => exact absurd rfl (hnone _ hmem path).1
      | performerLeaving path => exact absurd rfl (hnone _ hmem path).2
      | factoryLeaving path | entityUpdated e =>
        obtain rfl := Except.ok.inj hrun
        exact hhierarchy rfl hrest
  | synchronisableEvent =>
    obtain rfl := Except.ok.inj hrun
    refine hhierarchy rfl ?_
    exact (Mute.processItems 1 s.hierarchy).hierarchyEvents ▸ List.Subset.refl _
  | cleanup =>
    obtain rfl := Except.ok.inj hrun
    refine hhierarchy rfl ?_
    exact (Mute.reapAll 1 s.hierarchy).hierarchyEvents ▸ List.Subset.refl _
  | forgetDead =>
    obtain rfl := Except.ok.inj hrun
    exact hhierarchy rfl (List.Subset.refl _)
  | cableEvents =>
    obtain rfl := Except.ok.inj hrun
    refine ⟨hc.cableEvents, ?_⟩
    rw [Standing.cableEvents_hierarchy]
    exact hnone

/-- The event loop brings no cables. -/
theorem drain_unplugs (wired : Wired s) {event : StageEvent} (hdrains : drains event = true)
    (hrun : step s event = .ok t) : Unplugs s t := by
  rcases (step_cables wired.cabled wired.indexed hrun).1 with hst | ⟨a, haccepts, -⟩
  · exact hst
  · cases event with
    | receive msg => cases hdrains
    | _ => exact haccepts.elim

theorem drains_unplugs (wired : Wired s) {loop : List StageEvent}
    (hloop : ∀ event ∈ loop, drains event = true) (hrun : Library.run step s loop = .ok t) :
    Unplugs s t := by
  induction loop generalizing s with
  | nil =>
    obtain rfl : s = t := by simpa using hrun
    exact .refl s
  | cons event loop ih =>
    obtain ⟨u, hu, hrest⟩ := Library.run_cons_ok.mp hrun
    have hfirst := drain_unplugs wired (hloop event List.mem_cons_self) hu
    exact hfirst.trans
      (ih (wired.step hu) (fun e he => hloop e (List.mem_cons_of_mem _ he)) hrest)

theorem Lingers.run {c : CableId} (hc : Lingers c s) (hnone : NoneLeaving s.hierarchy)
    {loop : List StageEvent} (hloop : ∀ event ∈ loop, drains event = true)
    (hrun : Library.run step s loop = .ok t) : Lingers c t := by
  induction loop generalizing s with
  | nil =>
    obtain rfl : s = t := by simpa using hrun
    exact hc
  | cons event loop ih =>
    obtain ⟨u, hu, hrest⟩ := Library.run_cons_ok.mp hrun
    obtain ⟨hcu, hnoneu⟩ := hc.drain hnone (hloop event List.mem_cons_self) hu
    exact ih hcu hnoneu (fun e he => hloop e (List.mem_cons_of_mem _ he)) hrest

end Loop

/-! ## Outcomes -/

/-- How a request ends in failure, with the steps that follow it: a check
refuses it at once, or its handshake is answered with an error, or is not
answered in time. -/
inductive Fails (s t : ZstSession) (msg : ZstStageMessage) (a : ZstCableAddress)
    (sender : EntityId) : List StageEvent → Prop
  | check (u : ZstSession) (signal : Signal) (loop : List StageEvent)
      (hanswer : createCableHandler s msg a sender = .ok (u, signal))
      (hok : signal ≠ .ok) (hempty : signal ≠ .empty)
      (hloop : ∀ event ∈ loop, drains event = true) : Fails s t msg a sender loop
  | handshake (message : Nat) (response : Option Content) (output input : EntityId)
      (cable : CableId) (before after : List StageEvent)
      (hnew : s.hierarchy.sent.length ≤ message)
      (hcallback : callback t.hierarchy message =
        some (.clientsConnected output input (.cable cable sender msg.id)))
      (herror : verifySignal response .ok = false)
      (hbefore : ∀ event ∈ before, drains event = true)
      (hafter : ∀ event ∈ after, drains event = true) :
      Fails s t msg a sender (before ++ .respond message response :: after)

/-- The second stage has the cables of the first one, at the same plugs, and
the same subscribers. -/
structure SameWiring (s t : ZstSession) : Prop where
  cables : ∀ a, a ∈ Snapshot.addresses t ↔ a ∈ Snapshot.addresses s
  plugs : ∀ e a, a ∈ (t.hierarchy.entities e).cables ↔ a ∈ (s.hierarchy.entities e).cables
  subscribers : ∀ e, (t.hierarchy.entities e).stageProxy.map StageProxy.connectedSubscriberPeers =
    (s.hierarchy.entities e).stageProxy.map StageProxy.connectedSubscriberPeers

theorem Silenced.sameWiring {s t : ZstSession} (hst : Silenced s t) : SameWiring s t := by
  obtain ⟨sent, rfl⟩ := hst
  exact ⟨fun _ => Iff.rfl, fun _ _ => Iff.rfl, fun _ => rfl⟩

section Outcomes

variable {s t u v : ZstSession} {msg : ZstStageMessage} {a : ZstCableAddress} {sender : EntityId}

/-- A handshake that fails is forgotten. -/
theorem respond_error {message : Nat} {response : Option Content} {output input : EntityId}
    {action : ConnectAction} (herror : verifySignal response .ok = false)
    (hcallback : callback s.hierarchy message = some (.clientsConnected output input action)) :
    step s (.respond message response) = .ok s := by
  simp only [ZstStage.step, hcallback, onRecvResponse, clientsConnected, herror]
  rfl

/-- A callback waits as long as only the event loop is at work. -/
theorem callback_waits (wired : Wired s) {message : Nat} {action : ResponseAction}
    (hcallback : callback s.hierarchy message = some action) {loop : List StageEvent}
    (hloop : ∀ event ∈ loop, drains event = true) (hrun : Library.run step s loop = .ok t) :
    callback t.hierarchy message = some action := by
  induction loop generalizing s with
  | nil =>
    obtain rfl : s = t := by simpa using hrun
    exact hcallback
  | cons event loop ih =>
    obtain ⟨u, hu, hrest⟩ := Library.run_cons_ok.mp hrun
    refine ih (wired.step hu) ?_ (fun e he => hloop e (List.mem_cons_of_mem _ he)) hrest
    have hsync : Naming.syncer s event = none := by
      cases event with
      | receive msg => cases hloop (.receive msg) List.mem_cons_self
      | _ => rfl
    obtain ⟨messages, -, hsent⟩ := (step_cables wired.cabled wired.indexed hu).2 hsync
    unfold callback at hcallback ⊢
    rw [hsent]
    obtain ⟨m, hm, haction⟩ := Option.bind_eq_some_iff.mp hcallback
    rw [List.getElem?_append_left (List.getElem?_eq_some_iff.mp hm).1, hm]
    exact haction

/-- What is left of a failed request is up to the event loop. -/
theorem Fails.loop (wired : Wired t) {path : List StageEvent} (hfails : Fails s t msg a sender path)
    (hrun : Library.run step t path = .ok v) : Library.run step t (path.filter drains) = .ok v := by
  have hall : ∀ {loop : List StageEvent}, (∀ event ∈ loop, drains event = true) →
      loop.filter drains = loop := List.filter_eq_self.mpr
  cases hfails with
  | check u signal loop hanswer hok hempty hloop => rwa [hall hloop]
  | handshake message response output input cable before after hnew hcallback herror hbefore
      hafter =>
    rw [List.filter_append, List.filter_cons_of_neg (by simp [drains]), hall hbefore, hall hafter]
    obtain ⟨w, hw, hrest⟩ := Library.run_append_ok.mp hrun
    obtain ⟨x, hx, hlast⟩ := Library.run_cons_ok.mp hrest
    rw [respond_error herror (callback_waits wired hcallback hbefore hw)] at hx
    obtain rfl := Except.ok.inj hx
    exact Library.run_append_ok.mpr ⟨w, hw, hlast⟩

theorem receive_cableRequest (hcontent : msg.content = .cableCreateRequest a)
    (hclient : getClientFromEndpointUUID s.hierarchy msg.originEndpointUUID = some sender)
    (hreceive : receive s msg = .ok t) : ∃ w signal,
      createCableHandler s msg a sender = .ok (w, signal) ∧
      t = onHierarchy w fun h => respond h msg signal := by
  have hrequest : ConnectReplies.IsConnectRequest msg.content := by
    rw [hcontent]
    trivial
  have hdispatch : ZstStageSession.dispatch s msg sender = createCableHandler s msg a sender := by
    unfold ZstStageSession.dispatch
    rw [hcontent]
  rw [ConnectReplies.receive_request s msg sender hrequest hclient, hdispatch] at hreceive
  cases hhandler : createCableHandler s msg a sender with
  | error fault =>
    rw [hhandler] at hreceive
    cases hreceive
  | ok result =>
    rw [hhandler] at hreceive
    exact ⟨result.1, result.2, rfl, (Except.ok.inj hreceive).symm⟩

/-- A refused request is only answered. -/
theorem receive_refused (hrefused : Refused s a) (hcontent : msg.content = .cableCreateRequest a)
    (hclient : getClientFromEndpointUUID s.hierarchy msg.originEndpointUUID = some sender)
    (hreceive : receive s msg = .ok t) : Silenced s t := by
  obtain ⟨w, signal, hhandler, rfl⟩ := receive_cableRequest hcontent hclient hreceive
  obtain ⟨error, -, -, hanswer⟩ := createCableHandler_of_refused s msg a sender hrefused
  obtain ⟨rfl, rfl⟩ := Prod.mk.inj (Except.ok.inj (hanswer.symm.trans hhandler))
  refine ⟨s.hierarchy.sent ++ responseMessages msg error, ?_⟩
  simp only [respond_eq]
  rfl

/-- Plugging and unplugging defers no event of the hierarchy. -/
theorem plugged_hierarchyEvents (s : ZstSession) (input output : EntityId) :
    (plugged s input output).hierarchy.hierarchyEvents = s.hierarchy.hierarchyEvents := by
  refine (Mute.createCable (makeRoom s input) input output).hierarchyEvents.trans ?_
  unfold makeRoom
  split
  · refine List.foldlRecOn (motive := fun (t : ZstSession) =>
      t.hierarchy.hierarchyEvents = s.hierarchy.hierarchyEvents) _ _ rfl fun t ht c _ => ?_
    refine (Mute.destroyCableComplete _ c).hierarchyEvents.trans (Eq.trans ?_ ht)
    simp only [onHierarchy, broadcast_eq]
  · rfl

/-- Finishing a request leaves the cables and the events of the hierarchy alone. -/
theorem cableConnectFinished_keeps {cable : CableId} {id : ZstMsgID} {signal : Signal}
    (hrun : cableConnectFinished s cable sender id signal = .ok t) :
    t = { s with hierarchy := t.hierarchy } ∧
      t.hierarchy.hierarchyEvents = s.hierarchy.hierarchyEvents := by
  refine ⟨(cableConnectFinished_sends hrun).1, ?_⟩
  obtain ⟨told, htold, -, rfl⟩ := cableConnectFinished_succeeded hrun
  simp only [replyWithSignal, whisperTo_eq]
  rcases htold with ⟨-, -, rfl⟩ | ⟨-, rfl⟩
  · rw [broadcast_eq]
  · rfl

/-- The new cable of a request that passes the checks. -/
theorem receive_lingers (wired : Wired s) (hnone : NoneLeaving s.hierarchy)
    (hcontent : msg.content = .cableCreateRequest a)
    (hclient : getClientFromEndpointUUID s.hierarchy msg.originEndpointUUID = some sender)
    (hreceive : receive s msg = .ok t) (hrefused : ¬ Refused s a) :
    Lingers s.nextCable t ∧ (t.cableObjects s.nextCable).address = a ∧
      NoneLeaving t.hierarchy := by
  obtain ⟨w, signal, hhandler, rfl⟩ := receive_cableRequest hcontent hclient hreceive
  obtain ⟨-, input, output, p, q, hfree, hinput, houtput, -, -, hfinish⟩ :=
    (createCableHandler_ok hhandler).resolve_left fun hkept => hrefused hkept.1
  have ha : a = ⟨(s.hierarchy.entities input).uri, (s.hierarchy.entities output).uri⟩ := by
    rw [wired.indexed.findEntity_uri (Option.filter_eq_some_iff.mp hinput).1,
      wired.indexed.findEntity_uri (Option.filter_eq_some_iff.mp houtput).1]
  obtain ⟨hplugs, hcable, -⟩ := plugged_plugs wired.cabled ha hfree
  have hkept : w = { plugged s input output with hierarchy := w.hierarchy } ∧
      w.hierarchy.hierarchyEvents = (plugged s input output).hierarchy.hierarchyEvents := by
    split at hfinish
    · exact cableConnectFinished_keeps hfinish
    · rw [hfinish, connectClients_eq]
      exact ⟨rfl, rfl⟩
  have hnew : s.nextCable ∉ (plugged s input output).synchronisableEvents ∧
      s.nextCable ∉ (plugged s input output).cleanupOps := by
    refine not_or.mp fun hpending => ?_
    exact Nat.lt_irrefl _ (wired.cabled.known _ (hplugs.pending _ hpending))
  have hthere := (ConnectReplies.plugged_keeps s input output).2.2
  rw [hcable] at hthere
  refine ⟨?_, ?_, fun event hevent => hnone event ?_⟩
  · rw [hkept.1]
    exact ⟨hthere, hnew.1, hnew.2⟩
  · rw [hkept.1]
    exact hplugs.new
  · simp only [onHierarchy, respond_eq] at hevent
    rwa [hkept.2, plugged_hierarchyEvents] at hevent

/-- A failed request leaves everything as it was if a check refused it, and
only then, unless somebody is leaving already. -/
theorem sameWiring_iff_refused (history path : List StageEvent)
    (hhistory : Library.run step opened history = .ok s)
    (hcontent : msg.content = .cableCreateRequest a)
    (hclient : getClientFromEndpointUUID s.hierarchy msg.originEndpointUUID = some sender)
    (hreceive : receive s msg = .ok t) (hfails : Fails s t msg a sender path)
    (hrun : Library.run step t path = .ok v)
    (hwithout : Library.run step s (path.filter drains) = .ok u) :
    (Refused s a → SameWiring u v) ∧
      (NoneLeaving s.hierarchy → SameWiring u v → Refused s a) := by
  have hs : Wired s := Wired.opened.run hhistory
  have hstep : ZstStage.step s (.receive msg) = .ok t := hreceive
  have ht : Wired t := hs.step hstep
  have hloop : ∀ event ∈ path.filter drains, drains event = true := fun event hevent =>
    (List.mem_filter.mp hevent).2
  have hv := hfails.loop ht hrun
  refine ⟨fun hrefused => ?_, fun hnone hsame => ?_⟩
  · have hsilenced := receive_refused hrefused hcontent hclient hreceive
    obtain ⟨w, hw, hwiring⟩ := hsilenced.run hloop hwithout
    obtain rfl : v = w := Except.ok.inj (hv.symm.trans hw)
    exact hwiring.sameWiring
  · by_contra hrefused
    obtain ⟨hlingers, haddress, hquiet⟩ :=
      receive_lingers hs hnone hcontent hclient hreceive hrefused
    -- the new cable outlasts the event loop, ...
    have hthere : a ∈ Snapshot.addresses v := by
      refine List.mem_map.mpr ⟨s.nextCable, (hlingers.run hquiet hloop hv).there, ?_⟩
      rw [(drains_unplugs ht hloop hv).address, haddress]
    -- ... and the stage has no other one of its address
    obtain ⟨c, hc, hca⟩ := List.mem_map.mp ((hsame.cables a).mp hthere)
    have hunplugs := drains_unplugs hs hloop hwithout
    rw [hunplugs.address] at hca
    refine hrefused (Or.inl ?_)
    unfold ZstSession.findCable
    rw [List.find?_isSome]
    exact ⟨c, hunplugs.cables c hc, by simpa using hca⟩

/-- The cable between plugs that are not there. -/
def stray : ZstCableAddress :=
  ⟨["bob", "in"], ["ada", "other"]⟩

def straying : ZstStageMessage :=
  { content := .cableCreateRequest stray, id := 3, originEndpointUUID := 1 }

theorem sameWiring_iff_refused_stray : ∃ s t u v,
    Library.run step opened plugs = .ok s ∧ receive s straying = .ok t ∧
      Library.run step t [.hierarchyEvent, .cableEvents] = .ok v ∧
      Library.run step s [.hierarchyEvent, .cableEvents] = .ok u ∧ Refused s stray ∧
      SameWiring u v := by
  obtain ⟨s, t, u, v, hs, hclient, ht, hfails, hv, hu, hrefused⟩ : ∃ s t u v,
      Library.run step opened plugs = .ok s ∧
      getClientFromEndpointUUID s.hierarchy straying.originEndpointUUID = some 0 ∧
      receive s straying = .ok t ∧
      Fails s t straying stray 0 [.hierarchyEvent, .cableEvents] ∧
      Library.run step t [.hierarchyEvent, .cableEvents] = .ok v ∧
      Library.run step s [.hierarchyEvent, .cableEvents] = .ok u ∧ Refused s stray :=
    ⟨_, _, _, _, rfl, rfl, rfl,
      .check _ .errCablePlugsNotFound _ rfl (by decide) (by decide) (by decide), rfl, rfl,
      by decide⟩
  exact ⟨s, t, u, v, hs, ht, hv, hu, hrefused,
    (sameWiring_iff_refused plugs _ hs rfl hclient ht hfails hv hu).1 hrefused⟩

/-- The client `bob` does not answer in time: the cable stays. -/
theorem timeout_not_sameWiring :
    ¬ ∀ (history path : List StageEvent) (s t u v : ZstSession) (msg : ZstStageMessage)
      (a : ZstCableAddress) (sender : EntityId), Library.run step opened history = .ok s →
      msg.content = .cableCreateRequest a →
      getClientFromEndpointUUID s.hierarchy msg.originEndpointUUID = some sender →
      receive s msg = .ok t → Fails s t msg a sender path → Library.run step t path = .ok v →
      Library.run step s (path.filter drains) = .ok u → SameWiring u v := by
  intro hall
  obtain ⟨s, t, u, v, hs, hclient, ht, hfails, hv, hu, hthere, hgone⟩ : ∃ s t u v,
      Library.run step opened plugs = .ok s ∧
      getClientFromEndpointUUID s.hierarchy 1 = some 0 ∧ receive s (plugging 3) = .ok t ∧
      Fails s t (plugging 3) lead 0 [.respond 4 none, .hierarchyEvent, .cableEvents] ∧
      Library.run step t [.respond 4 none, .hierarchyEvent, .cableEvents] = .ok v ∧
      Library.run step s [.hierarchyEvent, .cableEvents] = .ok u ∧
      lead ∈ Snapshot.addresses v ∧ lead ∉ Snapshot.addresses u :=
    ⟨_, _, _, _, rfl, rfl, rfl,
      .handshake 4 none 0 1 0 [] _ (by decide) rfl rfl (by decide) (by decide), rfl, rfl,
      by decide, by decide⟩
  have hsame := hall plugs _ s t u v (plugging 3) lead 0 hs rfl hclient ht hfails hv hu
  exact hgone ((hsame.cables lead).mp hthere)

end Outcomes

end Showtime.CableFailure
