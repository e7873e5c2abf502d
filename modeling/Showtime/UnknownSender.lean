import Showtime.StageSession
import Showtime.TreeEdit
/-!
# Messages of strangers

What `ZstStageHierarchy::on_receive_msg` does with a message from an endpoint
that has no performer. The missing sender is only logged, and each handler
meets it in its own way.
-/

namespace Showtime.UnknownSender

open ZstHierarchy ZstStageHierarchy

/-! ## Who hears a broadcast -/

/-- The second hierarchy has the performers of the first one at the same
endpoints, and nothing was sent in between. -/
structure SameAudience (h k : ZstHierarchy) : Prop where
  proxies : k.proxies = h.proxies
  entityType : ∀ e, (k.entities e).entityType = (h.entities e).entityType
  stageProxy : ∀ e, (k.entities e).stageProxy = (h.entities e).stageProxy
  sent : k.sent = h.sent

namespace SameAudience

variable {h k l : ZstHierarchy}

theorem refl (h : ZstHierarchy) : SameAudience h h :=
  ⟨rfl, fun _ => rfl, fun _ => rfl, rfl⟩

theorem trans (hk : SameAudience h k) (kl : SameAudience k l) : SameAudience h l :=
  ⟨kl.proxies.trans hk.proxies, fun e => (kl.entityType e).trans (hk.entityType e),
    fun e => (kl.stageProxy e).trans (hk.stageProxy e), kl.sent.trans hk.sent⟩

theorem of_treeEdit (hk : TreeEdit h k) : SameAudience h k :=
  ⟨hk.proxies, hk.field Entity.entityType fun _ => rfl,
    hk.field Entity.stageProxy fun _ => rfl, hk.sent⟩

theorem of_modify (h : ZstHierarchy) (e : EntityId) (f : Entity → Entity)
    (htype : ∀ x, (f x).entityType = x.entityType)
    (hproxy : ∀ x, (f x).stageProxy = x.stageProxy) : SameAudience h (h.modify e f) := by
  refine ⟨rfl, fun d => ?_, fun d => ?_, rfl⟩
  · rw [modify_entities]
    split
    · rename_i hde
      rw [htype, hde]
    · rfl
  · rw [modify_entities]
    split
    · rename_i hde
      rw [hproxy, hde]
    · rfl

theorem foldl {α : Type} {f : ZstHierarchy → α → ZstHierarchy}
    (hf : ∀ h a, SameAudience h (f h a)) (items : List α) (h : ZstHierarchy) :
    SameAudience h (items.foldl f h) := by
  induction items generalizing h with
  | nil => exact .refl h
  | cons a items ih => exact (hf h a).trans (ih (f h a))

theorem synchronisableHasEvent (h : ZstHierarchy) (e : EntityId) :
    SameAudience h (h.synchronisableHasEvent e) := by
  unfold ZstHierarchy.synchronisableHasEvent
  split
  · exact ⟨rfl, fun _ => rfl, fun _ => rfl, rfl⟩
  · exact .refl h

theorem enqueueDeactivation (h : ZstHierarchy) (e : EntityId) :
    SameAudience h (h.enqueueDeactivation e) := by
  unfold ZstHierarchy.enqueueDeactivation
  split
  · have hstatus : SameAudience h (h.setActivationStatus e .deactivationQueued) :=
      of_modify h e _ (fun _ => rfl) fun _ => rfl
    have hdefer := of_modify (h.setActivationStatus e .deactivationQueued) e
      (fun x => { x with
        synchronisableEvents := x.synchronisableEvents ++ [.deactivated, .destroyed] })
      (fun _ => rfl) fun _ => rfl
    exact (hstatus.trans hdefer).trans (synchronisableHasEvent _ e)
  · exact .refl h

theorem deferHierarchyEvents (h : ZstHierarchy) (events : List HierarchyEvent) :
    SameAudience h { h with hierarchyEvents := events } :=
  ⟨rfl, fun _ => rfl, fun _ => rfl, rfl⟩

theorem removeProxyEntity (h : ZstHierarchy) (e : EntityId) :
    SameAudience h (h.removeProxyEntity stageOverrides e) := by
  unfold ZstHierarchy.removeProxyEntity
  split
  · have hremoved : SameAudience h (removeFromParent stageOverrides h e) := by
      unfold removeFromParent
      cases h.parent e with
      | none => exact .refl h
      | some p => exact of_treeEdit (TreeEdit.removeChild TreeEdit.stage_activation h p e)
    exact (hremoved.trans (deferHierarchyEvents _ _)).trans (foldl enqueueDeactivation _ _)
  · exact .refl h

theorem updateProxyEntity (h : ZstHierarchy) (e : EntityId) (buffer : EntityBuffer) :
    SameAudience h (h.updateProxyEntity stageOverrides e buffer) := by
  obtain ⟨k, hk, hupdate⟩ := updateProxyEntity_cases stageOverrides h e buffer
  have hcreatables : SameAudience h k := by
    rcases hk with rfl | ⟨-, -, rfl⟩
    · exact .refl k
    · refine .trans ?_ (synchronisableHasEvent _ e)
      exact of_modify h e _ (fun _ => rfl) fun _ => rfl
  rcases hupdate with hupdate | ⟨-, -, hupdate⟩
  · rwa [hupdate]
  · have hname := of_treeEdit
      (TreeEdit.setName TreeEdit.stage_activation (fun h _ _ => .refl h) k e buffer.uri.last)
    rw [hupdate]
    exact (hcreatables.trans hname).trans (deferHierarchyEvents _ _)

/-- Every performer of the first hierarchy hears a broadcast of the second. -/
theorem mem_broadcastMessages (hk : SameAudience h k) {e : EntityId} {proxy : StageProxy}
    (hmem : e ∈ getPerformers h) (hproxy : (h.entities e).stageProxy = some proxy)
    (content : Content) :
    { target := proxy.originEndpointUUID, content : Outgoing } ∈
      broadcastMessages k content none := by
  have hperformer : e ∈ getPerformers k := by
    simp only [getPerformers, List.mem_filter, hk.proxies, hk.entityType] at hmem ⊢
    exact hmem
  refine List.mem_flatMap.mpr ⟨e, hperformer, ?_⟩
  simp [whisperMessages, hk.stageProxy, hproxy]

end SameAudience

/-! ## What a stranger may cause -/

section Handlers

variable {h : ZstHierarchy} {msg : ZstStageMessage}

end Handlers

/-! ## All messages -/

end Showtime.UnknownSender
