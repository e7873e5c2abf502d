import Showtime.CableUpkeep
import Showtime.NamedEntities
/-!
# Renames while cables exist

A client renames or removes an entity while others have plugged cables into its
plugs. This module goes through the steps of the stage and says which of them
leave the cables in use at the paths of their plugs.
-/

namespace Showtime.RenamedCables

open ZstHierarchy ZstStageHierarchy ZstStageSession ZstStage Cabling CableSets Footprint Sending
open ConnectReplies (Replugged)
open NamedEntities (Renames)

/-! ## Moves that are clear of the cables -/

/-- The entity and what is below it have names, and no cable in use has a plug
among them, or a path below one of the stems. -/
def ClearOf (s : ZstSession) (e : EntityId) (stem : ZstURI → Prop) : Prop :=
  EndsNamed s.hierarchy e ∧ Spared s (s.hierarchy.Below e) (Under stem)

/-- The entity leaves from below nobody, or it is found at its path and clear of
the cables. -/
def LeavesClear (s : ZstSession) (e : EntityId) : Prop :=
  s.hierarchy.parent e = none ∨
    s.hierarchy.lookup (s.hierarchy.entities e).uri = some e ∧
      ClearOf s e (RemovalStem s.hierarchy e)

/-- The entity keeps its name, or gets another one clear of the cables. -/
def UpdatesClear (s : ZstSession) (buffer : EntityBuffer) (e : EntityId) : Prop :=
  Renames s.hierarchy e buffer →
    buffer.uri.last ≠ [] ∧ ClearOf s e (RenameStem s.hierarchy e buffer.uri.last)

/-- Whatever happened to the hierarchy, the cables in use do not notice it. -/
structure Harmless (s : ZstSession) (k : ZstHierarchy) : Prop where
  spares : Spares s k
  connected : ∀ e plug, isConnectedTo k e plug = isConnectedTo s.hierarchy e plug
  nowhere : k.lookup [] = none

section Moves

variable {s : ZstSession} {k : ZstHierarchy} {e : EntityId}

theorem not_under_nil {stem : ZstURI → Prop} (hstem : ∀ u, stem u → u ≠ []) :
    ¬ Under stem [] := by
  rintro ⟨u, hu, hprefix⟩
  exact hstem u hu (List.prefix_nil.mp hprefix)

theorem Harmless.of_passes {M R : EntityId → Prop} {T : ZstURI → Prop} (cohered : Cohered s)
    (indexed : Indexed s.hierarchy) (nowhere : s.hierarchy.lookup [] = none)
    (hk : Passes s.hierarchy M R T k) (hindexed : Indexed k)
    (hin : ∀ d, M d → s.hierarchy.lookup (s.hierarchy.entities d).uri = some d)
    (hspared : Spared s M T) (hsets : SameSets s.hierarchy k) (hT : ¬ T []) : Harmless s k where
  spares := spares_of_passes cohered indexed hk hin hspared hsets
  connected := isConnectedTo_passes cohered indexed hk hin hspared hsets
  nowhere := by
    cases hfind : k.lookup [] with
    | none => rfl
    | some x =>
      rcases hk.found [] x hfind with hold | hM
      · rw [nowhere] at hold
        cases hold
      · have hnil := hindexed.uri [] x hfind
        rcases hk.uri x with hsame | ⟨-, hpassed⟩
        · have hx := hin x hM
          rw [← hsame, hnil, nowhere] at hx
          cases hx
        · exact absurd (hnil ▸ hpassed) hT

/-- Nobody moves, and nobody's cables change. -/
theorem Harmless.of_still (cohered : Cohered s) (nowhere : s.hierarchy.lookup [] = none)
    (hroot : k.root = s.hierarchy.root) (hlookup : k.lookup = s.hierarchy.lookup)
    (huri : SameField Entity.uri s.hierarchy k)
    (hinput : SameField Entity.isInputPlug s.hierarchy k)
    (houtput : SameField Entity.isOutputPlug s.hierarchy k) (hsets : SameSets s.hierarchy k) :
    Harmless s k := by
  have hfind : ∀ path, k.findEntity path = s.hierarchy.findEntity path := fun path => by
    simp only [findEntity, hroot, hlookup, huri _]
  refine ⟨⟨fun c hc => ?_, fun c hc => ?_, hsets⟩, fun d plug => ?_, by rw [hlookup, nowhere]⟩
  · rw [← cohered.inputs c hc]
    simp only [ZstSession.findInputPlug, hfind, hinput _]
  · rw [← cohered.outputs c hc]
    simp only [ZstSession.findOutputPlug, hfind, houtput _]
  · simp only [isConnectedTo, hsets d, huri d, huri plug]

theorem Harmless.of_standing (cohered : Cohered s) (nowhere : s.hierarchy.lookup [] = none)
    (hk : Standing s.hierarchy k) (hsets : SameSets s.hierarchy k) : Harmless s k :=
  .of_still cohered nowhere hk.root hk.lookup (hk.field Entity.uri fun _ => rfl)
    (hk.field Entity.isInputPlug fun _ => rfl) (hk.field Entity.isOutputPlug fun _ => rfl) hsets

/-- What the stage says does not matter to the cables. -/
theorem Harmless.sends (hk : Harmless s k) (sent : List Outgoing) : Harmless s { k with sent } :=
  ⟨⟨hk.spares.inputs, hk.spares.outputs, hk.spares.sets⟩, hk.connected, hk.nowhere⟩

theorem Harmless.removeProxyEntity (cohered : Cohered s) (wired : Wired s)
    (nowhere : s.hierarchy.lookup [] = none) (hclear : LeavesClear s e) :
    Harmless s (s.hierarchy.removeProxyEntity stageOverrides e) := by
  have hsets := SameSets.removeProxyEntity s.hierarchy e
  rcases hclear with hparent | ⟨he, hnamed, hspared⟩
  · exact .of_standing cohered nowhere (.removeProxyEntity hparent) hsets
  · refine .of_passes cohered wired.indexed nowhere
      ((passes_removeProxyEntity wired.indexed he).mono Composed.under)
      (wired.indexed.removeProxyEntity (wired.indexed.lt_next he))
      (fun d hd => inTree_of_below wired.indexed he hd) hspared hsets (not_under_nil ?_)
    rintro u ⟨d, hd, rfl⟩
    exact hnamed d hd

/-- An update without another name brings a factory other creatables at most. -/
theorem updateProxyEntity_unnamed {h : ZstHierarchy} {buffer : EntityBuffer}
    (hrenames : ¬ Renames h e buffer) :
    h.updateProxyEntity stageOverrides e buffer = h ∨
      (buffer.entityType = .factory ∧ (h.entities e).entityType = .factory) ∧
        h.updateProxyEntity stageOverrides e buffer = (h.modify e fun x =>
          { x with creatables := buffer.creatables }).synchronisableHasEvent e := by
  by_cases hother : buffer.entityType = .factory ∧ (h.entities e).entityType ≠ .factory
  · unfold ZstHierarchy.updateProxyEntity
    rw [if_pos hother]
    exact Or.inl rfl
  obtain ⟨k, hk, hupdate⟩ := updateProxyEntity_cases stageOverrides h e buffer
  have hplace : (k.entities e).uri = (h.entities e).uri ∧
      (k.entities e).parentAddress = (h.entities e).parentAddress := by
    rcases hk with rfl | ⟨-, -, rfl⟩
    · exact ⟨rfl, rfl⟩
    · unfold synchronisableHasEvent
      split
      · simp only [modify_entities_self, and_self]
      · simp only [modify_entities_self, and_self]
  rcases hupdate with hupdate | ⟨huri, hparent, -⟩
  · rw [hupdate]
    exact hk.imp id fun ⟨hbuffer, hfactory, hk⟩ => ⟨⟨hbuffer, hfactory⟩, hk⟩
  · exact absurd ⟨not_and_not_right.mp hother, hplace.1 ▸ huri, hplace.2 ▸ hparent⟩ hrenames

/-- So nobody moves. -/
theorem updateProxyEntity_still {h : ZstHierarchy} {buffer : EntityBuffer}
    (hrenames : ¬ Renames h e buffer) :
    (h.updateProxyEntity stageOverrides e buffer).root = h.root ∧
      (h.updateProxyEntity stageOverrides e buffer).lookup = h.lookup ∧
      ∀ {β : Type} (f : Entity → β), (∀ x l, f { x with creatables := l } = f x) →
        SameField f h (h.updateProxyEntity stageOverrides e buffer) := by
  rcases updateProxyEntity_unnamed hrenames with hk | ⟨-, hk⟩
  · rw [hk]
    exact ⟨rfl, rfl, fun f _ => .refl h⟩
  · rw [hk]
    have hmodified : ∀ {β : Type} (f : Entity → β), (∀ x l, f { x with creatables := l } = f x) →
        SameField f h (h.modify e fun x => { x with creatables := buffer.creatables }) :=
      fun f hf => .modify h e _ fun x => hf x _
    unfold synchronisableHasEvent
    split
    · exact ⟨rfl, rfl, fun f hf => (hmodified f hf).trans fun _ => rfl⟩
    · exact ⟨rfl, rfl, hmodified⟩

theorem Harmless.updateProxyEntity (cohered : Cohered s) (wired : Wired s)
    (nowhere : s.hierarchy.lookup [] = none) {path : ZstURI} {buffer : EntityBuffer}
    (hfind : s.hierarchy.findEntity path = some e) (hclear : UpdatesClear s buffer e) :
    Harmless s (s.hierarchy.updateProxyEntity stageOverrides e buffer) := by
  have hsets := SameSets.updateProxyEntity s.hierarchy e buffer
  by_cases hrenames : Renames s.hierarchy e buffer
  · obtain ⟨hnew, hnamed, hspared⟩ := hclear hrenames
    have he := lookup_of_findEntity wired.indexed hfind
    refine .of_passes cohered wired.indexed nowhere
      ((passes_updateProxyEntity wired.indexed he buffer).mono Composed.under)
      (wired.indexed.updateProxyEntity (wired.indexed.lt_next he) buffer)
      (fun d hd => inTree_of_below wired.indexed he hd) hspared hsets (not_under_nil ?_)
    rintro u (rfl | ⟨-, rfl | rfl⟩ | ⟨d, hd, -, rfl⟩)
    · exact hnew
    · exact NamedEntities.add_ne_nil _ _
    · exact NamedEntities.add_ne_nil _ _
    · exact hnamed d hd
  · obtain ⟨hroot, hlookup, hkept⟩ := updateProxyEntity_still hrenames
    exact .of_still cohered nowhere hroot hlookup (hkept _ fun _ _ => rfl)
      (hkept _ fun _ _ => rfl) (hkept _ fun _ _ => rfl) hsets

end Moves

/-! ## Steps -/

/-- No cable in use has a plug that is about to be deactivated. -/
def DeactivatesClear (s : ZstSession) (e : EntityId) : Prop :=
  .deactivated ∈ (s.hierarchy.entities e).synchronisableEvents →
    ∀ c, CableInUse s c → (s.cableObjects c).input ≠ e ∧ (s.cableObjects c).output ≠ e

/-- No cable in use has the path that the reaper is about to erase. -/
def ErasesClear (s : ZstSession) (e : EntityId) : Prop :=
  ∀ c, CableInUse s c → (s.cableObjects c).address.inputURI ≠ (s.hierarchy.entities e).uri ∧
    (s.cableObjects c).address.outputURI ≠ (s.hierarchy.entities e).uri

/-- Who joins has a path, and whoever is renamed, removed, deactivated or erased
in the step is clear of the cables in use. -/
def SparesCables (s : ZstSession) : StageEvent → Prop
  | .receive msg =>
    match msg.content with
    | .clientJoinRequest performer _ => performer.uri ≠ []
    | .clientLeaveRequest _ _ | .entityDestroyRequest _ =>
      ∀ e ∈ leavers s.hierarchy (.receive msg), LeavesClear s e
    | .entityUpdateRequest buffer path =>
      ∀ e ∈ s.hierarchy.findEntity path, UpdatesClear s buffer e
    | _ => True
  | .heartbeatTimer =>
    ∀ e ∈ leavers s.hierarchy .heartbeatTimer, s.hierarchy.parent e = none
  | .synchronisableEvent => ∀ e ∈ s.hierarchy.synchronisableEvents.head?, DeactivatesClear s e
  | .cleanup => ∀ e ∈ s.hierarchy.cleanupOps.head?, ErasesClear s e
  | _ => True

/-- The stage finds the plugs of its cables, and finds nobody at the empty path. -/
structure PlugsFound (s : ZstSession) : Prop where
  cohered : Cohered s
  wired : Wired s
  nowhere : s.hierarchy.lookup [] = none

section Steps

variable {s t : ZstSession} {e : EntityId}

theorem keyed_of_nowhere {h : ZstHierarchy} (indexed : Indexed h) (nowhere : h.lookup [] = none) :
    Keyed h := by
  refine ⟨fun q e hq => indexed.findEntity_uri hq, fun q e hq => ?_, ?_⟩
  · rw [indexed.findEntity_eq] at hq
    exact indexed.lt_next hq
  · rw [indexed.findEntity_eq]
    exact nowhere

theorem PlugsFound.keyed (intact : PlugsFound s) : Keyed s.hierarchy :=
  keyed_of_nowhere intact.wired.indexed intact.nowhere

/-- What a message that removes or updates somebody comes to for the cables. -/
theorem PlugsFound.receive_move (intact : PlugsFound s) {msg : ZstStageMessage}
    (hmove : IsMove msg.content) (hclear : SparesCables s (.receive msg))
    (hrun : receive s msg = .ok t) :
    t = { s with hierarchy := t.hierarchy } ∧ Harmless s t.hierarchy := by
  obtain ⟨ht, hmoved⟩ := receive_moved hmove hrun
  refine ⟨ht, ?_⟩
  cases hmoved with
  | nobody sent hk =>
    rw [hk]
    exact (Harmless.of_standing intact.cohered intact.nowhere (.refl _) (.refl _)).sends sent
  | removed e sent he hk =>
    rw [hk]
    refine (Harmless.removeProxyEntity intact.cohered intact.wired intact.nowhere ?_).sends sent
    have hmem : e ∈ leavers s.hierarchy (.receive msg) := he ▸ List.mem_singleton_self e
    unfold SparesCables at hclear
    cases hcontent : msg.content with
    | clientLeaveRequest | entityDestroyRequest =>
      simp only [hcontent] at hclear
      exact hclear e hmem
    | _ => simp [leavers, hcontent] at hmem
  | updated buffer path e sent hcontent hfind hk =>
    rw [hk]
    unfold SparesCables at hclear
    simp only [hcontent] at hclear
    exact (Harmless.updateProxyEntity intact.cohered intact.wired intact.nowhere hfind
      (hclear e hfind)).sends sent

theorem PlugsFound.receive (intact : PlugsFound s) {msg : ZstStageMessage}
    (hclear : SparesCables s (.receive msg)) (hrun : receive s msg = .ok t) :
    Cohered t ∧ t.hierarchy.lookup [] = none := by
  by_cases hcalm : EntityPreserving msg.content
  · refine ⟨intact.cohered.receive_calm intact.wired hcalm hrun, ?_⟩
    rw [(ZstStage.receive_calm hcalm hrun).lookup]
    exact intact.nowhere
  by_cases hmove : IsMove msg.content
  · obtain ⟨ht, hharmless⟩ := intact.receive_move hmove hclear hrun
    refine ⟨?_, hharmless.nowhere⟩
    rw [ht]
    exact intact.cohered.spares hharmless.spares
  · have harrives : Arrives msg.content := by
      unfold SparesCables at hclear
      cases hcontent : msg.content with
      | clientJoinRequest performer address =>
        simp only [hcontent] at hclear
        exact hclear
      | entityCreateRequest => trivial
      | clientLeaveRequest | entityUpdateRequest | entityDestroyRequest =>
        rw [hcontent] at hmove
        exact absurd trivial hmove
      | _ =>
        rw [hcontent] at hcalm
        exact absurd trivial hcalm
    obtain ⟨ht, hk | ⟨x, huri, hnew, hcables, -, hk⟩⟩ :=
      receive_arrives_ok intact.keyed harrives hrun
    · refine ⟨intact.cohered.rests ht hk, ?_⟩
      rw [hk.lookup]
      exact intact.nowhere
    · have hgrows := intact.cohered.linked.grows_arrive intact.keyed hnew hcables
      refine ⟨intact.cohered.grown ht (hgrows.trans hk.grows), ?_⟩
      have hkeyed := intact.keyed.arrive hnew huri
      have hroot : (s.hierarchy.arrive x).root = none := intact.wired.indexed.root
      have hnowhere := hkeyed.nowhere
      unfold findEntity at hnowhere
      rw [hroot] at hnowhere
      rw [hk.lookup]
      exact hnowhere

/-- Entities that stand below nobody leave without moving. -/
theorem stageHeartbeatTimer_still
    (hclear : ∀ e ∈ leavers s.hierarchy .heartbeatTimer, s.hierarchy.parent e = none) :
    Standing s.hierarchy (stageHeartbeatTimer s.hierarchy) ∧
      SameSets s.hierarchy (stageHeartbeatTimer s.hierarchy) := by
  have hchecked := checkHeartbeats_standing s.hierarchy
  refine List.foldlRecOn (motive := fun (k : ZstHierarchy) => Standing s.hierarchy k ∧
    SameSets s.hierarchy k) _ _ ⟨hchecked, .checkHeartbeats _⟩ fun k hk e he => ?_
  refine ⟨hk.1.trans (.removeProxyEntity ?_), hk.2.trans (.removeProxyEntity k e)⟩
  rw [hk.1.parent_eq]
  exact hclear e he

theorem PlugsFound.heartbeatTimer (intact : PlugsFound s)
    (hclear : SparesCables s .heartbeatTimer) :
    Cohered (onHierarchy s stageHeartbeatTimer) ∧
      (stageHeartbeatTimer s.hierarchy).lookup [] = none := by
  obtain ⟨hstands, hsets⟩ := stageHeartbeatTimer_still hclear
  refine ⟨intact.cohered.grown rfl (.of_standing hstands hsets), ?_⟩
  rw [hstands.lookup]
  exact intact.nowhere

theorem Cohered.processHierarchyEvent (cohered : Cohered s) (cabled : Cabled s)
    {event : HierarchyEvent} (hrun : processHierarchyEvent s event = .ok t) : Cohered t := by
  cases event with
  | entityArriving e | performerArriving e =>
    obtain ⟨e, -, hrun⟩ := Library.bind_ok.mp hrun
    obtain rfl := Except.ok.inj hrun
    have harrived : Cohered (onHierarchy s fun h => onEntityArriving h e) :=
      cohered.rests rfl (onEntityArriving_rests s.hierarchy e)
    exact harrived.rests rfl (registerEntity_rests _ e)
  | factoryArriving e =>
    obtain ⟨e, -, hrun⟩ := Library.bind_ok.mp hrun
    obtain rfl := Except.ok.inj hrun
    exact cohered.rests rfl (onEntityArriving_rests _ e)
  | entityLeaving path | performerLeaving path =>
    obtain rfl := Except.ok.inj hrun
    unfold disconnectCables
    split
    · exact cohered
    · exact cohered.destroyCables cabled (mem_getChildCables s _)
  | factoryLeaving path | entityUpdated e =>
    obtain rfl := Except.ok.inj hrun
    exact cohered

theorem PlugsFound.synchronisableEvent (intact : PlugsFound s)
    (hclear : SparesCables s .synchronisableEvent) :
    SameSets s.hierarchy (processItems stageOverrides 1 s.hierarchy) := by
  cases hqueue : s.hierarchy.synchronisableEvents with
  | nil =>
    unfold processItems
    rw [hqueue]
    exact .refl _
  | cons e rest =>
    have he : e ∈ s.hierarchy.synchronisableEvents.head? := by
      rw [hqueue]
      rfl
    have hpopped : SameSets s.hierarchy { s.hierarchy with synchronisableEvents := rest } :=
      fun _ => rfl
    unfold processItems
    rw [hqueue]
    refine hpopped.trans (.processItem fun hdeactivated =>
      List.eq_nil_iff_forall_not_mem.mpr fun a ha => ?_)
    -- whoever lists a cable is one of its plugs
    obtain ⟨c, hc, -, hend⟩ := intact.cohered.plug_of_mem ha
    obtain ⟨hin, hout⟩ := hclear e he hdeactivated c hc
    exact hend.elim (fun heq => hin heq.symm) fun heq => hout heq.symm

/-- The reaper erases one path, and moves nobody. -/
theorem cleanup_places (h : ZstHierarchy) (e : EntityId) :
    (cleanup stageOverrides h e).root = h.root ∧
      (∀ q, q ≠ (h.entities e).uri → (cleanup stageOverrides h e).lookup q = h.lookup q) ∧
      (∀ q, h.lookup q = none → (cleanup stageOverrides h e).lookup q = none) ∧
      ∀ d, lone ((cleanup stageOverrides h e).entities d) = lone (h.entities d) := by
  have hstands : ∀ {k l : ZstHierarchy}, Standing k l → ∀ d, lone (l.entities d) =
      lone (k.entities d) := fun hk d =>
    congrArg (fun x : Entity => { x with children := [] }) (hk.entities d)
  rcases cleanup_cases h e with hk | hk | ⟨-, hk⟩
  · refine ⟨hk.root, fun q _ => by rw [hk.lookup], fun q hq => by rw [hk.lookup, hq], hstands hk⟩
  · refine ⟨hk.root, fun q hq => ?_, fun q hq => ?_, fun d => (hstands hk d).trans rfl⟩
    · rw [hk.lookup]
      exact Function.update_of_ne hq _ _
    · rw [hk.lookup]
      simp only [removeEntityFromLookup, Function.update_apply, hq, ite_self]
  · refine ⟨hk.root, fun q hq => ?_, fun q hq => ?_, fun d => (hstands hk d).trans ?_⟩
    · rw [hk.lookup]
      exact Function.update_of_ne hq _ _
    · rw [hk.lookup]
      simp only [bury, Function.update_apply, hq, ite_self]
    · rw [FindsOwned.bury_entities]
      split
      · rename_i hde
        rw [hde]
        rfl
      · rfl

theorem PlugsFound.cleanup (intact : PlugsFound s) (hclear : SparesCables s .cleanup) :
    Cohered (onHierarchy s (reapAll stageOverrides 1)) ∧
      (reapAll stageOverrides 1 s.hierarchy).lookup [] = none := by
  unfold onHierarchy
  cases hops : s.hierarchy.cleanupOps with
  | nil =>
    simp only [reapAll, hops]
    exact ⟨intact.cohered, intact.nowhere⟩
  | cons e rest =>
    simp only [reapAll, hops]
    have he : e ∈ s.hierarchy.cleanupOps.head? := by
      rw [hops]
      rfl
    obtain ⟨hroot, hlookup, hnone, hlone⟩ :=
      cleanup_places { s.hierarchy with cleanupOps := rest } e
    have hsets := SameSets.cleanup { s.hierarchy with cleanupOps := rest } e
    generalize ZstHierarchy.cleanup stageOverrides { s.hierarchy with cleanupOps := rest } e = k
      at hroot hlookup hnone hlone hsets ⊢
    have hfield : ∀ {β : Type} (f : Entity → β), (∀ x, f (lone x) = f x) →
        ∀ d, f (k.entities d) = f (s.hierarchy.entities d) := by
      intro β f hf d
      rw [← hf, hlone d, hf]
    have hfind : ∀ path, path ≠ (s.hierarchy.entities e).uri →
        k.findEntity path = s.hierarchy.findEntity path := fun path hpath => by
      simp only [findEntity, hroot, hlookup path hpath, hfield Entity.uri fun _ => rfl]
    refine ⟨intact.cohered.spares ⟨fun c hc => ?_, fun c hc => ?_, hsets⟩, hnone [] intact.nowhere⟩
    · rw [← intact.cohered.inputs c hc]
      simp only [ZstSession.findInputPlug, hfind _ (hclear e he c hc).1,
        hfield Entity.isInputPlug fun _ => rfl]
    · rw [← intact.cohered.outputs c hc]
      simp only [ZstSession.findOutputPlug, hfind _ (hclear e he c hc).2,
        hfield Entity.isOutputPlug fun _ => rfl]

/-- A step that is clear of the cables in use leaves them at the paths of their
plugs. -/
theorem PlugsFound.step (intact : PlugsFound s) {event : StageEvent} (hclear : SparesCables s event)
    (hrun : ZstStage.step s event = .ok t) : PlugsFound t := by
  have hwired := intact.wired.step hrun
  have hcohered : Cohered t ∧ t.hierarchy.lookup [] = none := by
    cases event with
    | receive msg => exact intact.receive hclear hrun
    | respond message response =>
      have ht := (respond_cables hrun).1
      simp only [ZstStage.step] at hrun
      split at hrun
      · have hrests := onRecvResponse_rests hrun
        refine ⟨intact.cohered.rests ht hrests, ?_⟩
        rw [hrests.lookup]
        exact intact.nowhere
      · obtain rfl := Except.ok.inj hrun
        exact ⟨intact.cohered, intact.nowhere⟩
    | heartbeatTimer =>
      obtain rfl := Except.ok.inj hrun
      exact intact.heartbeatTimer hclear
    | hierarchyEvent =>
      simp only [ZstStage.step] at hrun
      split at hrun
      · obtain rfl := Except.ok.inj hrun
        exact ⟨intact.cohered, intact.nowhere⟩
      · rename_i event rest hevents
        have hpopped : Cohered (onHierarchy s fun h => { h with hierarchyEvents := rest }) :=
          intact.cohered.grown rfl
            ⟨fun _ _ he => he, fun _ _ _ => rfl, fun _ _ _ => rfl, fun _ => rfl⟩
        refine ⟨hpopped.processHierarchyEvent
          ((Unplugs.of_hierarchy rfl).cabled intact.wired.cabled) hrun, ?_⟩
        rw [(Standing.processHierarchyEvent hrun).lookup]
        exact intact.nowhere
    | synchronisableEvent =>
      obtain rfl := Except.ok.inj hrun
      have hstands := Standing.processItems 1 s.hierarchy
      have hsets := intact.synchronisableEvent hclear
      refine ⟨intact.cohered.grown rfl (.of_standing hstands hsets), ?_⟩
      dsimp only [onHierarchy]
      rw [hstands.lookup]
      exact intact.nowhere
    | cleanup =>
      obtain rfl := Except.ok.inj hrun
      exact intact.cleanup hclear
    | forgetDead =>
      obtain rfl := Except.ok.inj hrun
      exact ⟨intact.cohered.rests rfl ⟨fun _ => rfl, rfl, rfl, rfl, rfl⟩, intact.nowhere⟩
    | cableEvents =>
      obtain rfl := Except.ok.inj hrun
      refine ⟨intact.cohered.cableEvents intact.wired.cabled, ?_⟩
      rw [Standing.cableEvents_hierarchy]
      exact intact.nowhere
  exact ⟨hcohered.1, hwired, hcohered.2⟩

end Steps

/-! ## Runs -/

theorem PlugsFound.opened : PlugsFound ZstStage.opened := by
  have bare : Bare ZstStage.opened := ⟨rfl, fun _ => rfl⟩
  refine ⟨⟨bare.linked, fun c hc => ?_, fun c hc => ?_⟩, .opened, rfl⟩
  · exact absurd hc.1 List.not_mem_nil
  · exact absurd hc.1 List.not_mem_nil

variable {s t : ZstSession}

theorem PlugsFound.run (intact : PlugsFound s) {events : List StageEvent}
    (hclear : Library.Along ZstStage.step SparesCables s events)
    (hrun : Library.run ZstStage.step s events = .ok t) : PlugsFound t :=
  Library.run_invariant (fun _ _ _ hu hclear hstep => hu.step hclear hstep) intact hclear hrun

/-- A message that moves somebody leaves the cables alone. A cable keeps its name
exactly if its plugs keep their paths. -/
theorem named_receive_iff {msg : ZstStageMessage} (hmove : IsMove msg.content)
    (hrun : receive s msg = .ok t) {c : CableId} (hnamed : AddressedByPlugs s c) :
    AddressedByPlugs t c ↔ (t.hierarchy.entities (s.cableObjects c).input).uri =
        (s.hierarchy.entities (s.cableObjects c).input).uri ∧
      (t.hierarchy.entities (s.cableObjects c).output).uri =
        (s.hierarchy.entities (s.cableObjects c).output).uri := by
  obtain ⟨ht, hmoved⟩ := receive_moved hmove hrun
  have hsets : SameSets s.hierarchy t.hierarchy := by
    cases hmoved with
    | nobody sent hk =>
      rw [hk]
      exact .refl _
    | removed e sent _ hk =>
      rw [hk]
      exact .removeProxyEntity s.hierarchy e
    | updated buffer _ e sent _ _ hk =>
      rw [hk]
      exact .updateProxyEntity s.hierarchy e buffer
  obtain ⟨haddress, hin, hout⟩ := hnamed
  have hobjects : t.cableObjects = s.cableObjects := by rw [ht]
  unfold AddressedByPlugs
  rw [hobjects, hsets, hsets, haddress, and_iff_left ⟨haddress ▸ hin, haddress ▸ hout⟩,
    ZstCableAddress.mk.injEq, eq_comm, @eq_comm _ (s.hierarchy.entities _).uri]

/-- As long as every step is clear of the cables in use, a cable has the paths of
its plugs for an address, and both list it, unless it waits for the reaper. Who
is connected to whom does not depend on the renames. -/
theorem named_of_clear {events : List StageEvent}
    (hclear : Library.Along step SparesCables ZstStage.opened events)
    (hrun : Library.run step ZstStage.opened events = .ok s) :
    (∀ c ∈ s.cables, AddressedByPlugs s c ↔ (s.cableObjects c).syncStatus = .activated) ∧
      ∀ msg buffer path t, msg.content = .entityUpdateRequest buffer path →
        SparesCables s (.receive msg) → receive s msg = .ok t →
        ∀ e plug, isConnectedTo t.hierarchy e plug = isConnectedTo s.hierarchy e plug := by
  have intact := PlugsFound.opened.run hclear hrun
  refine ⟨fun c hc => ⟨fun hnamed => ?_, fun hactivated => ?_⟩,
    fun msg buffer path t hcontent hclear hstep => ?_⟩
  · by_contra hgone
    exact intact.cohered.unlisted intact.wired.cabled hc (fun hused => hgone hused.2) _ hnamed.2.1
  · exact intact.cohered.named intact.wired.indexed ⟨hc, hactivated⟩
  · have hmove : IsMove msg.content := by
      rw [hcontent]
      trivial
    exact (intact.receive_move hmove hclear hstep).2.connected

instance (s : ZstSession) (c : CableId) : Decidable (AddressedByPlugs s c) :=
  inferInstanceAs (Decidable (_ ∧ _ ∧ _))

/-- `bob` gives a plug of his another name. -/
def renamesPlug (plug name : String) : ZstStageMessage :=
  { content := .entityUpdateRequest
      { entityType := .plug, uri := ["bob", name], direction := .inJack } ["bob", plug]
    id := 5
    originEndpointUUID := 2 }

/-- `bob` has one more plug, and a cable in the other one. -/
def pluggedIn : List StageEvent :=
  plugs ++
    [.receive
      { content := .entityCreateRequest
          { entityType := .plug, uri := ["bob", "aux"], direction := .inJack }
        id := 3
        originEndpointUUID := 2 },
      .receive (plugging 4)]

/-- The stage with the cable, of which the rename of the other plug is clear. -/
theorem pluggedIn_clear : ∃ s, Library.run step ZstStage.opened pluggedIn = .ok s ∧
    SparesCables s (.receive (renamesPlug "aux" "spare")) := by
  obtain ⟨s, hs, hcables, haddress, hin, hout, hfind, hchildren, huri, hparent⟩ :
      ∃ s, Library.run step ZstStage.opened pluggedIn = .ok s ∧ s.cables = [0] ∧
        (s.cableObjects 0).address = lead ∧ (s.cableObjects 0).input = 3 ∧
        (s.cableObjects 0).output = 2 ∧ s.hierarchy.findEntity ["bob", "aux"] = some 4 ∧
        (s.hierarchy.entities 4).children = [] ∧ (s.hierarchy.entities 4).uri = ["bob", "aux"] ∧
        (s.hierarchy.entities 4).parentAddress = ["bob"] :=
    ⟨_, rfl, rfl, rfl, rfl, rfl, rfl, rfl, rfl, rfl⟩
  refine ⟨s, hs, fun e he _ => ?_⟩
  obtain rfl : e = 4 := Option.some.inj (he.symm.trans hfind)
  have hbelow : ∀ d, s.hierarchy.Below 4 d → d = 4 := fun d hd => by
    rcases Relation.ReflTransGen.cases_head hd with heq | ⟨c, ⟨q, hq, -⟩, -⟩
    · exact heq.symm
    · rw [hchildren] at hq
      cases hq
  refine ⟨by decide, fun d hd => ?_, fun c hc => ?_⟩
  · rw [hbelow d hd, huri]
    decide
  · have hmem := hc.1
    rw [hcables] at hmem
    obtain rfl := List.mem_singleton.mp hmem
    have hstem : ∀ path, ¬ ["spare"] <+: path → ¬ ["bob", "spare"] <+: path →
        ¬ Under (RenameStem s.hierarchy 4 ["spare"]) path := by
      rintro path hname hbelow' ⟨u, rfl | ⟨-, rfl | rfl⟩ | ⟨d, hd, hne, -⟩, hprefix⟩
      · exact hname hprefix
      · rw [huri] at hprefix
        exact hbelow' hprefix
      · rw [hparent] at hprefix
        exact hbelow' hprefix
      · exact hne (hbelow d hd)
    rw [hin, hout, haddress]
    refine ⟨⟨fun h3 => ?_, fun h2 => ?_⟩, hstem _ (by decide) (by decide),
      hstem _ (by decide) (by decide)⟩
    · exact absurd (hbelow 3 h3) (by decide)
    · exact absurd (hbelow 2 h2) (by decide)

theorem named_of_clear_spare : ∃ s,
    Library.run step ZstStage.opened (pluggedIn ++ [.receive (renamesPlug "aux" "spare")]) =
      .ok s ∧ s.cables = [0] ∧
    ∀ c ∈ s.cables, AddressedByPlugs s c ↔ (s.cableObjects c).syncStatus = .activated := by
  obtain ⟨u, hu, hclear⟩ := pluggedIn_clear
  obtain ⟨s, hs, hcables⟩ : ∃ s, Library.run step ZstStage.opened
      (pluggedIn ++ [.receive (renamesPlug "aux" "spare")]) = .ok s ∧ s.cables = [0] :=
    ⟨_, rfl, rfl⟩
  have hstart : ∀ event ∈ pluggedIn, ∀ v, SparesCables v event := by
    simp [pluggedIn, plugs, joining, plugging, SparesCables]
  refine ⟨s, hs, hcables, (named_of_clear (Library.along_append.mpr ⟨?_, fun v hv => ?_⟩) hs).1⟩
  · exact Library.along_of_forall fun first event last v hsplit _ =>
      hstart event (hsplit ▸ List.mem_append_right first List.mem_cons_self) v
  · obtain rfl := Except.ok.inj (hu.symm.trans hv)
    exact ⟨hclear, fun _ _ => trivial⟩

/-- A plug that is renamed leaves its cable behind, and is not connected any more. -/
theorem renamed_leaves_cable :
    (¬ ∀ (events : List StageEvent) (s : ZstSession),
      Library.run step ZstStage.opened events = .ok s → ∀ c ∈ s.cables, AddressedByPlugs s c) ∧
    ¬ ∀ (events : List StageEvent) (s t : ZstSession) (msg : ZstStageMessage)
      (buffer : EntityBuffer) (path : ZstURI),
      Library.run step ZstStage.opened events = .ok s →
      msg.content = .entityUpdateRequest buffer path → receive s msg = .ok t →
      ∀ e plug, isConnectedTo t.hierarchy e plug = isConnectedTo s.hierarchy e plug := by
  constructor
  · intro hnamed
    have hstale := hnamed (plugs ++ [.receive (plugging 3), .receive (renamesPlug "in" "jack")])
      _ rfl 0 (by decide)
    exact absurd hstale (by decide)
  · intro hconnected
    have hsame := hconnected (plugs ++ [.receive (plugging 3)]) _ _ (renamesPlug "in" "jack") _ _
      rfl rfl rfl 3 2
    exact absurd hsame (by decide)

end Showtime.RenamedCables
