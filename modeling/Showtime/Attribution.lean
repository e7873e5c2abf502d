import Showtime.Cabling
import Showtime.Departures
import Showtime.Naming
/-!
# Whose message it is

The stage finds the sender of a message by the UUID of its endpoint, among all
performer proxies that it still owns. A join is only checked for its path.
-/

namespace Showtime.Attribution

open ZstHierarchy ZstStageHierarchy ZstStageSession ZstStage
open Departures (members mem_members)
open Naming (endpointOf SameClients)
open UnknownSender (SameAudience)

/-! ## Endpoints -/

/-- The proxy is that of the performer at the endpoint, leaving or not. -/
def Carries (h : ZstHierarchy) (endpoint : Endpoint) (e : EntityId) : Prop :=
  e ∈ getPerformers h ∧ endpointOf h e = some endpoint

/-- `m_proxies` is a set of pointers: its order is that of the addresses. -/
def reordered (h : ZstHierarchy) (order : List EntityId) : ZstHierarchy :=
  { h with proxies := order }

/-- Members at one endpoint are the same, and the scan for the endpoint returns
the member, wherever the proxies lie. -/
structure Attributed (h : ZstHierarchy) : Prop where
  unique : ∀ d ∈ members h, ∀ e ∈ members h, ∀ endpoint,
    endpointOf h d = some endpoint → endpointOf h e = some endpoint → d = e
  found : ∀ e ∈ members h, ∀ endpoint, endpointOf h e = some endpoint →
    ∀ order, order.Perm h.proxies →
      getClientFromEndpointUUID (reordered h order) endpoint = some e

/-- A join from an endpoint that has a member is answered with an error and
changes nothing. -/
def RefusesSecond (s : ZstSession) : StageEvent → Prop
  | .receive msg =>
    match msg.content with
    | .clientJoinRequest performer address =>
      (∃ e ∈ members s.hierarchy, endpointOf s.hierarchy e = some msg.originEndpointUUID) →
        createClientHandler s.hierarchy msg performer address =
          .ok (s.hierarchy, .errStagePerformerAlreadyExists)
    | _ => True
  | _ => True

/-- Every state of the run attributes its messages, and every second join in it
is refused. -/
def Attributes (events : List StageEvent) : Prop :=
  ∀ first last s, events = first ++ last → Library.run step opened first = .ok s →
    Attributed s.hierarchy ∧ ∀ event ∈ last.head?, RefusesSecond s event

/-- A join from an endpoint that some proxy carries asks for a path that is taken. -/
def Sole (s : ZstSession) : StageEvent → Prop
  | .receive msg =>
    match msg.content with
    | .clientJoinRequest performer _ =>
      (getClientFromEndpointUUID s.hierarchy msg.originEndpointUUID).isSome →
        (s.hierarchy.findEntity performer.uri).isSome
    | _ => True
  | _ => True

instance (s : ZstSession) : ∀ event, Decidable (Sole s event)
  | .receive ⟨.clientJoinRequest performer _, _, endpoint⟩ =>
    inferInstanceAs (Decidable
      ((getClientFromEndpointUUID s.hierarchy endpoint).isSome →
        (s.hierarchy.findEntity performer.uri).isSome))
  | .receive ⟨.clientLeaveRequest _ _, _, _⟩ | .receive ⟨.entityUpdateRequest _ _, _, _⟩
  | .receive ⟨.entityDestroyRequest _, _, _⟩ | .receive ⟨.signalMessage _, _, _⟩
  | .receive ⟨.clientGraphHandshakeListen _ _, _, _⟩
  | .receive ⟨.clientGraphHandshakeStart _ _, _, _⟩
  | .receive ⟨.clientGraphHandshakeStop _, _, _⟩ | .receive ⟨.entityCreateRequest _, _, _⟩
  | .receive ⟨.entityObserveRequest _, _, _⟩ | .receive ⟨.entityTakeOwnershipRequest _ _, _, _⟩
  | .receive ⟨.factoryCreateEntityRequest _ _, _, _⟩
  | .receive ⟨.factoryCreateEntityAck _, _, _⟩ | .receive ⟨.cableCreateRequest _, _, _⟩
  | .receive ⟨.cableDestroyRequest _, _, _⟩ | .receive ⟨.serverStatusMessage, _, _⟩
  | .heartbeatTimer | .respond _ _ | .hierarchyEvent | .synchronisableEvent | .cleanup
  | .forgetDead | .cableEvents => inferInstanceAs (Decidable True)

section Scan

variable {h : ZstHierarchy} {endpoint : Endpoint} {e : EntityId}

theorem any_endpoint_iff :
    ((h.entities e).stageProxy.any fun proxy => proxy.originEndpointUUID = endpoint) = true ↔
      endpointOf h e = some endpoint := by
  unfold endpointOf
  cases (h.entities e).stageProxy <;> simp

/-- Whoever the scan returns carries the endpoint. -/
theorem carries_of_getClient (hclient : getClientFromEndpointUUID h endpoint = some e) :
    Carries h endpoint e := by
  unfold getClientFromEndpointUUID at hclient
  have hany := (List.find?_eq_some_iff_append.mp hclient).1
  exact ⟨List.mem_of_find?_eq_some hclient, any_endpoint_iff.mp hany⟩

theorem isSome_getClient_iff :
    (getClientFromEndpointUUID h endpoint).isSome ↔ ∃ e, Carries h endpoint e := by
  constructor
  · intro hsome
    obtain ⟨e, he⟩ := Option.isSome_iff_exists.mp hsome
    exact ⟨e, carries_of_getClient he⟩
  · rintro ⟨e, hmem, hendpoint⟩
    exact List.find?_isSome.mpr ⟨e, hmem, any_endpoint_iff.mpr hendpoint⟩

theorem carries_reordered {order : List EntityId} (horder : order.Perm h.proxies) :
    Carries (reordered h order) endpoint e ↔ Carries h endpoint e := by
  have hmem : e ∈ getPerformers (reordered h order) ↔ e ∈ getPerformers h := by
    unfold getPerformers reordered
    rw [List.mem_filter, List.mem_filter, horder.mem_iff]
  exact and_congr_left fun _ => hmem

/-- The scan may meet any of those who carry the endpoint first. -/
theorem getClient_first (order : List EntityId) (he : Carries h endpoint e) :
    getClientFromEndpointUUID (reordered h (e :: order)) endpoint = some e := by
  obtain ⟨hmem, hend⟩ := he
  have hperformer := (List.mem_filter.mp hmem).2
  unfold getClientFromEndpointUUID getPerformers reordered
  rw [List.filter_cons_of_pos (by exact hperformer)]
  exact List.find?_cons_of_pos (any_endpoint_iff.mpr hend)

end Scan

/-- No two proxies carry one endpoint. -/
def DistinctEndpoints (h : ZstHierarchy) : Prop :=
  ∀ endpoint d e, Carries h endpoint d → Carries h endpoint e → d = e

/-- Where no two proxies carry one endpoint, messages are attributed. -/
theorem DistinctEndpoints.attributed {h : ZstHierarchy} (distinct : DistinctEndpoints h) :
    Attributed h := by
  refine ⟨fun d hd e he endpoint hdend heend => ?_, fun e he endpoint hend order horder => ?_⟩
  · exact distinct endpoint d e ⟨(mem_members.mp hd).1, hdend⟩ ⟨(mem_members.mp he).1, heend⟩
  · have hcarries : Carries h endpoint e := ⟨(mem_members.mp he).1, hend⟩
    obtain ⟨d, hd⟩ := Option.isSome_iff_exists.mp
      (isSome_getClient_iff.mpr ⟨e, (carries_reordered horder).mpr hcarries⟩)
    rw [hd, distinct endpoint d e ((carries_reordered horder).mp (carries_of_getClient hd)) hcarries]

/-! ## One step -/

/-- The second hierarchy has at most the proxies of the first one, each with its
kind and its endpoint. -/
structure SameRoster (h k : ZstHierarchy) : Prop where
  proxies : ∀ e ∈ k.proxies, e ∈ h.proxies
  next : k.next = h.next
  entityType : ∀ e, (k.entities e).entityType = (h.entities e).entityType
  endpoint : ∀ e, endpointOf k e = endpointOf h e

namespace SameRoster

variable {h k l : ZstHierarchy}

theorem trans (hk : SameRoster h k) (kl : SameRoster k l) : SameRoster h l :=
  ⟨fun e he => hk.proxies e (kl.proxies e he), kl.next.trans hk.next,
    fun e => (kl.entityType e).trans (hk.entityType e),
    fun e => (kl.endpoint e).trans (hk.endpoint e)⟩

theorem standing (hk : Standing h k) : SameRoster h k :=
  ⟨fun _ he => hk.proxies ▸ he, hk.next, hk.field Entity.entityType fun _ => rfl,
    (SameClients.of_standing hk).endpoint⟩

theorem of_sameAudience (hk : SameAudience h k) (hnext : k.next = h.next) : SameRoster h k := by
  refine ⟨fun _ he => hk.proxies ▸ he, hnext, hk.entityType, fun e => ?_⟩
  unfold endpointOf
  rw [hk.stageProxy]

theorem subscribe (h : ZstHierarchy) (output input : EntityId) :
    SameRoster h (ZstStageSession.subscribe h output input) := by
  refine ⟨fun _ he => he, rfl, fun e => ?_, (SameClients.subscribe h output input).endpoint⟩
  unfold ZstStageSession.subscribe
  rw [modify_entities]
  split
  · rename_i heq
    rw [heq]
    rfl
  · rfl

theorem buries (h : ZstHierarchy) (e : EntityId) : SameRoster h (h.bury e) := by
  refine ⟨fun d hd => List.mem_of_mem_erase hd, rfl, fun d => ?_, fun d => ?_⟩
  · rw [FindsOwned.bury_entities]
    split
    · rename_i hde
      rw [hde]
    · rfl
  · unfold endpointOf
    rw [FindsOwned.bury_entities]
    split
    · rename_i hde
      rw [hde]
    · rfl

theorem carries (hk : SameRoster h k) {endpoint : Endpoint} {e : EntityId}
    (he : Carries k endpoint e) : Carries h endpoint e := by
  obtain ⟨hmem, hend⟩ := he
  simp only [getPerformers, List.mem_filter, hk.entityType] at hmem
  refine ⟨?_, (hk.endpoint e).symm.trans hend⟩
  simp only [getPerformers, List.mem_filter]
  exact ⟨hk.proxies e hmem.1, hmem.2⟩

end SameRoster

/-- One more proxy, whose place in the tree is left open. -/
structure Enlists (h : ZstHierarchy) (x : Entity) (k : ZstHierarchy) : Prop where
  proxies : k.proxies = h.proxies ++ [h.next]
  next : k.next = h.next + 1
  entityType : ∀ e, (k.entities e).entityType =
    if e = h.next then x.entityType else (h.entities e).entityType
  stageProxy : ∀ e, (k.entities e).stageProxy =
    if e = h.next then x.stageProxy else (h.entities e).stageProxy
  currentOwner : ∀ e, (k.entities e).currentOwner =
    if e = h.next then x.currentOwner else (h.entities e).currentOwner
  status : (k.entities h.next).syncStatus = .activated

/-- The new proxy is announced as activated. -/
theorem announce_status (h : ZstHierarchy) (e : EntityId) :
    ((h.announce e).entities e).syncStatus = .activated := by
  have hfold := Library.foldl_establishes
    (fun (k : ZstHierarchy) c => (k.setProxy c).setActivationStatus c .activated)
    (h.getChildEntities e) (fun _ => True) (fun c k => (k.entities c).syncStatus = .activated)
    (fun _ _ _ _ => trivial) (fun k _ c _ => by simp [setActivationStatus])
    (fun k _ c _ d hd => ?_) (s := h) trivial
  · exact hfold.2.2 e (self_mem_getChildEntities h e)
  · simp only [setActivationStatus, setProxy, modify_entities]
    split
    · rfl
    · exact hd

theorem marked_entities (h : ZstHierarchy) (c : EntityId) (status : ZstSyncStatus) (d : EntityId) :
    ((h.setProxy c).setActivationStatus c status).entities d =
      if d = c then { h.entities c with isProxy := true, syncStatus := status }
      else h.entities d := by
  by_cases hdc : d = c
  · simp [setActivationStatus, setProxy, hdc]
  · simp [setActivationStatus, setProxy, modify_entities, hdc]

/-- An announcement adds to the proxies and marks some of them. -/
theorem announce_same (h : ZstHierarchy) (e : EntityId) :
    (h.announce e).proxies = h.proxies ++ [e] ∧ (h.announce e).next = h.next ∧
      ∀ {β : Type} (f : Entity → β) (d : EntityId),
        (∀ x status, f { x with isProxy := true, syncStatus := status } = f x) →
          f ((h.announce e).entities d) = f (h.entities d) := by
  have hfold := List.foldlRecOn (motive := fun (k : ZstHierarchy) =>
    k.proxies = h.proxies ∧ k.next = h.next ∧
      ∀ {β : Type} (f : Entity → β) (d : EntityId),
        (∀ x status, f { x with isProxy := true, syncStatus := status } = f x) →
          f (k.entities d) = f (h.entities d))
    (h.getChildEntities e) (fun h c => (h.setProxy c).setActivationStatus c .activated)
    ⟨rfl, rfl, fun _ _ _ => rfl⟩ fun k ⟨hproxies, hnext, hsame⟩ c _ =>
      ⟨hproxies, hnext, fun f d hf => by
        rw [← hsame f d hf, marked_entities]
        split
        · rename_i hdc
          rw [hdc]
          exact hf _ _
        · rfl⟩
  obtain ⟨hproxies, hnext, hsame⟩ := hfold
  refine ⟨?_, hnext, hsame⟩
  unfold announce
  simp only [hproxies]

theorem addProxyEntity_enlists {h k : ZstHierarchy} {x : Entity}
    (hrun : h.addProxyEntity stageOverrides x = .ok k) : Enlists h x k := by
  have hcases := addProxyEntity_cases stageOverrides h x
  simp only at hcases
  rw [hrun] at hcases
  have hallocated : ∀ d, ((h.alloc x).1.setProxy h.next).entities d =
      if d = h.next then { x with isProxy := true } else h.entities d := fun d => by
    by_cases hd : d = h.next
    · simp [setProxy, alloc, hd]
    · simp only [setProxy, alloc, modify_entities, hd, if_false, Function.update_of_ne hd]
  have hfinish : ∀ l, TreeEdit ((h.alloc x).1.setProxy h.next) l →
      Enlists h x ((l.registerEntity h.next).announce h.next) := by
    intro l hl
    have hedit := hl.trans (TreeEdit.registerEntity l h.next)
    obtain ⟨hproxies, hnext, hsame⟩ := announce_same (l.registerEntity h.next) h.next
    refine ⟨?_, ?_, fun d => ?_, fun d => ?_, fun d => ?_, announce_status _ _⟩
    · rw [hproxies, hedit.proxies]
      rfl
    · rw [hnext, hedit.next]
      rfl
    · rw [hsame Entity.entityType d fun _ _ => rfl, hedit.field Entity.entityType fun _ => rfl,
        hallocated]
      split <;> rfl
    · rw [hsame Entity.stageProxy d fun _ _ => rfl, hedit.field Entity.stageProxy fun _ => rfl,
        hallocated]
      split <;> rfl
    · rw [hsame Entity.currentOwner d fun _ _ => rfl,
        hedit.field Entity.currentOwner fun _ => rfl, hallocated]
      split <;> rfl
  split at hcases
  · split at hcases
    · obtain rfl := Except.ok.inj hcases
      exact hfinish _ (TreeEdit.addChild TreeEdit.stage_activation _ _ _ true)
    · cases hcases
  · obtain rfl := Except.ok.inj hcases
    exact hfinish _ (.refl _)

namespace Enlists

variable {h k : ZstHierarchy} {x : Entity}

theorem endpointOf_eq (enlists : Enlists h x k) (e : EntityId) :
    endpointOf k e = if e = h.next then x.stageProxy.map StageProxy.originEndpointUUID
      else endpointOf h e := by
  unfold endpointOf
  rw [enlists.stageProxy]
  split <;> rfl

/-- Only the new proxy may carry an endpoint that it did not carry before. -/
theorem carries (enlists : Enlists h x k) {endpoint : Endpoint} {e : EntityId}
    (he : Carries k endpoint e) : Carries h endpoint e ∨
      e = h.next ∧ x.stageProxy.map StageProxy.originEndpointUUID = some endpoint := by
  obtain ⟨hmem, hend⟩ := he
  rw [enlists.endpointOf_eq] at hend
  split at hend
  · rename_i hnew
    exact Or.inr ⟨hnew, hend⟩
  · rename_i hold
    refine Or.inl ⟨?_, hend⟩
    simp only [getPerformers, List.mem_filter, enlists.proxies, enlists.entityType, List.mem_append,
      List.mem_singleton, hold, if_false, or_false] at hmem ⊢
    exact hmem

/-- The older proxies are scanned as before. -/
theorem carries_old (enlists : Enlists h x k) (owned : Owned h) {endpoint : Endpoint}
    {e : EntityId} (he : Carries h endpoint e) : Carries k endpoint e ∧ e ≠ h.next := by
  obtain ⟨hmem, hend⟩ := he
  have howned : e ∈ h.proxies := List.mem_of_mem_filter hmem
  have hold : e ≠ h.next := Nat.ne_of_lt (owned.allocated e howned)
  refine ⟨⟨?_, ?_⟩, hold⟩
  · simp only [getPerformers, List.mem_filter, enlists.proxies, enlists.entityType, if_neg hold,
      List.mem_append] at hmem ⊢
    exact ⟨Or.inl hmem.1, hmem.2⟩
  · rw [enlists.endpointOf_eq, if_neg hold]
    exact hend

end Enlists

/-- The endpoint of the join that a step accepts. -/
def Joining (h : ZstHierarchy) (event : StageEvent) (endpoint : Endpoint) : Prop :=
  ∃ msg performer address, event = .receive msg ∧
    msg.content = .clientJoinRequest performer address ∧
    h.findEntity performer.uri = none ∧ msg.originEndpointUUID = endpoint

/-- A step may enlist one new proxy, which has an endpoint if it joins. -/
theorem step_roster {s t : ZstSession} {event : StageEvent} (hrun : step s event = .ok t) :
    SameRoster s.hierarchy t.hierarchy ∨ ∃ x l, Enlists s.hierarchy x l ∧
      SameRoster l t.hierarchy ∧ ∀ endpoint,
        x.stageProxy.map StageProxy.originEndpointUUID = some endpoint →
          Joining s.hierarchy event endpoint := by
  cases step_shift hrun with
  | stands hk => exact Or.inl (.standing hk)
  | dequeues events _ hk =>
    have hpopped : SameRoster s.hierarchy { s.hierarchy with hierarchyEvents := events } :=
      ⟨fun _ he => he, rfl, fun _ => rfl, fun _ => rfl⟩
    exact Or.inl (hpopped.trans (.standing hk))
  | connects _ _ output input _ _ _ _ _ _ hk =>
    exact Or.inl ((SameRoster.subscribe _ output input).trans (.standing hk))
  | removes l hl hk =>
    have hremoved : SameRoster l
        ((leavers s.hierarchy event).foldl (removeProxyEntity stageOverrides) l) :=
      .of_sameAudience (.foldl SameAudience.removeProxyEntity _ l)
        (List.foldlRecOn (motive := fun (k : ZstHierarchy) => k.next = l.next) _ _ rfl
          fun k hk e _ => (SameProxies.removeProxyEntity k e).next.trans hk)
    exact Or.inl (((SameRoster.standing hl).trans hremoved).trans (.standing hk))
  | renames _ buffer _ proxy _ _ _ hk =>
    have hrenamed := SameRoster.of_sameAudience
      (SameAudience.updateProxyEntity s.hierarchy proxy buffer)
      (SameProxies.updateProxyEntity s.hierarchy proxy buffer).next
    exact Or.inl (hrenamed.trans (.standing hk))
  | joins msg performer address l hevent hcontent hfind hadd hk =>
    refine Or.inr ⟨_, l, addProxyEntity_enlists hadd, .standing hk, fun endpoint hend => ?_⟩
    exact ⟨msg, performer, address, hevent, hcontent, hfind, Option.some.inj hend⟩
  | creates _ buffer l _ _ _ _ hadd hk =>
    refine Or.inr ⟨_, l, addProxyEntity_enlists hadd, .standing hk, fun endpoint hend => ?_⟩
    cases hend
  | forgets path hk =>
    have hforgotten : SameRoster s.hierarchy (s.hierarchy.removeEntityFromLookup path) :=
      ⟨fun _ he => he, rfl, fun _ => rfl, fun _ => rfl⟩
    exact Or.inl (hforgotten.trans (.standing hk))
  | buries e _ hk => exact Or.inl ((SameRoster.buries _ e).trans (.standing hk))

/-- In every step only the performer that joins comes to carry an endpoint. -/
theorem step_carries {s t : ZstSession} {event : StageEvent} (hrun : step s event = .ok t)
    {endpoint : Endpoint} {e : EntityId} (he : Carries t.hierarchy endpoint e) :
    Carries s.hierarchy endpoint e ∨
      e = s.hierarchy.next ∧ Joining s.hierarchy event endpoint := by
  rcases step_roster hrun with hsame | ⟨x, l, enlists, hsame, hjoins⟩
  · exact Or.inl (hsame.carries he)
  · exact (enlists.carries (hsame.carries he)).imp_right fun ⟨hnew, hend⟩ =>
      ⟨hnew, hjoins endpoint hend⟩

/-- A proxy keeps its endpoint. -/
theorem step_endpoint {s t : ZstSession} {event : StageEvent} (hrun : step s event = .ok t)
    {e : EntityId} (he : e < s.hierarchy.next) :
    e < t.hierarchy.next ∧ endpointOf t.hierarchy e = endpointOf s.hierarchy e := by
  rcases step_roster hrun with hsame | ⟨x, l, enlists, hsame, -⟩
  · exact ⟨hsame.next ▸ he, hsame.endpoint e⟩
  · refine ⟨?_, ?_⟩
    · rw [hsame.next, enlists.next]
      exact Nat.lt_succ_of_lt he
    · rw [hsame.endpoint, enlists.endpointOf_eq, if_neg (Nat.ne_of_lt he)]

theorem run_endpoint {s t : ZstSession} {events : List StageEvent}
    (hrun : Library.run step s events = .ok t) {e : EntityId} (he : e < s.hierarchy.next) :
    e < t.hierarchy.next ∧ endpointOf t.hierarchy e = endpointOf s.hierarchy e := by
  refine Library.run_history (fun _ u => e < u.hierarchy.next ∧
    endpointOf u.hierarchy e = endpointOf s.hierarchy e) (fun _ u event v hu hstep => ?_)
    ⟨he, rfl⟩ hrun
  obtain ⟨hlt, hend⟩ := step_endpoint hstep hu.1
  exact ⟨hlt, hend.trans hu.2⟩

theorem DistinctEndpoints.step {s t : ZstSession} {event : StageEvent}
    (distinct : DistinctEndpoints s.hierarchy)
    (hsole : Sole s event) (hrun : ZstStage.step s event = .ok t) :
    DistinctEndpoints t.hierarchy := by
  -- an endpoint that joins is carried by nobody before
  have hfree : ∀ {endpoint}, Joining s.hierarchy event endpoint →
      ∀ e, ¬ Carries s.hierarchy endpoint e := by
    rintro endpoint ⟨msg, performer, address, rfl, hcontent, hfind, rfl⟩ e he
    simp only [Sole, hcontent] at hsole
    have htaken := hsole (isSome_getClient_iff.mpr ⟨e, he⟩)
    rw [hfind] at htaken
    cases htaken
  intro endpoint d e hd he
  rcases step_carries hrun hd with hd | ⟨rfl, hjoin⟩
  · rcases step_carries hrun he with he | ⟨-, hjoin⟩
    · exact distinct endpoint d e hd he
    · exact absurd hd (hfree hjoin d)
  · rcases step_carries hrun he with he | ⟨rfl, -⟩
    · exact absurd he (hfree hjoin e)
    · rfl

/-! ## Runs -/

/-- An accepted join leaves the performers with its endpoint that were there,
and adds a member. -/
theorem accepted_not_attributed {s t : ZstSession} {msg : ZstStageMessage}
    {performer : EntityBuffer} {address : String} (owned : Owned s.hierarchy)
    (hcontent : msg.content = .clientJoinRequest performer address)
    (hclient : (getClientFromEndpointUUID s.hierarchy msg.originEndpointUUID).isSome = true)
    (hfind : s.hierarchy.findEntity performer.uri = none)
    (hrun : step s (.receive msg) = .ok t) : ¬ Attributed t.hierarchy := by
  have hloud : ¬ EntityPreserving msg.content := by
    rw [hcontent]
    exact not_false
  obtain ⟨l, response, hdispatch, rfl⟩ := receive_not_calm hloud hrun
  have henlists : Enlists s.hierarchy
      (Entity.performerStageProxy performer address msg.originEndpointUUID) l := by
    unfold ZstStageHierarchy.dispatch at hdispatch
    rw [hcontent] at hdispatch
    dsimp only at hdispatch
    unfold createClientHandler at hdispatch
    rw [hfind] at hdispatch
    obtain ⟨k, hadd, hdone⟩ := Library.bind_ok.mp hdispatch
    obtain ⟨rfl, -⟩ := Prod.mk.inj (Except.ok.inj hdone)
    exact addProxyEntity_enlists hadd
  intro hattributed
  -- the new member
  have hmember : s.hierarchy.next ∈ members l := by
    refine mem_members.mpr ⟨?_, henlists.status⟩
    simp only [getPerformers, List.mem_filter, henlists.proxies, henlists.entityType, List.mem_append,
      List.mem_singleton, if_true, or_true, true_and]
    rfl
  have hendpoint : endpointOf l s.hierarchy.next = some msg.originEndpointUUID := by
    rw [henlists.endpointOf_eq, if_pos rfl]
    rfl
  -- the one that was there lies before it
  obtain ⟨d, hd⟩ := isSome_getClient_iff.mp hclient
  obtain ⟨hcarries, hne⟩ := henlists.carries_old owned hd
  rw [respond_eq] at hattributed
  have hfirst := getClient_first (l.proxies.erase d) hcarries
  have hfound := hattributed.found s.hierarchy.next hmember _ hendpoint (d :: l.proxies.erase d)
    (List.perm_cons_erase (List.mem_of_mem_filter hcarries.1)).symm
  exact hne (Option.some.inj (hfirst.symm.trans hfound))

/-- Messages are attributed in all states of a run, and every second join is
refused, if and only if each join from an endpoint that some proxy carries asks
for a path that is taken. -/
theorem attributes_iff_sole {events : List StageEvent} {t : ZstSession}
    (hrun : Library.run step opened events = .ok t) :
    Attributes events ↔ Library.Along step Sole opened events := by
  have howned : ∀ {first s}, Library.run step opened first = .ok s → Owned s.hierarchy :=
    fun hfirst => (Cabling.Wired.opened.run hfirst).owned
  constructor
  · intro hattributes
    refine Library.along_of_forall fun first event last s hsplit hfirst => ?_
    subst hsplit
    cases event with
    | receive msg =>
      cases hcontent : msg.content with
      | clientJoinRequest performer address =>
        simp only [Sole, hcontent]
        intro hclient
        by_contra hfind
        obtain ⟨u, hu, hrest⟩ := Library.run_append_ok.mp hrun
        obtain rfl := Except.ok.inj (hfirst.symm.trans hu)
        obtain ⟨v, hstep, -⟩ := Library.run_cons_ok.mp hrest
        refine accepted_not_attributed (howned hfirst) hcontent hclient
          (Option.not_isSome_iff_eq_none.mp hfind) hstep ?_
        exact (hattributes (first ++ [.receive msg]) last v (by simp)
          (Library.run_concat_ok.mpr ⟨s, hfirst, hstep⟩)).1
      | _ => simp only [Sole, hcontent]
    | _ => trivial
  · intro hsole first last s hsplit hfirst
    subst hsplit
    have hdistinct : DistinctEndpoints s.hierarchy := by
      refine Library.run_invariant (fun _ _ _ => DistinctEndpoints.step) ?_
        (Library.along_append.mp hsole).1
        hfirst
      rintro endpoint d e ⟨hd, -⟩
      simp [getPerformers, opened, ofList] at hd
    refine ⟨hdistinct.attributed, fun event hevent => ?_⟩
    obtain ⟨rest, rfl⟩ := List.head?_eq_some_iff.mp hevent
    have hnow := Library.along_append_cons hsole hfirst
    cases event with
    | receive msg =>
      cases hcontent : msg.content with
      | clientJoinRequest performer address =>
        simp only [RefusesSecond, Sole, hcontent] at hnow ⊢
        rintro ⟨e, he, hend⟩
        have htaken := hnow (isSome_getClient_iff.mpr ⟨e, (mem_members.mp he).1, hend⟩)
        unfold createClientHandler
        rw [if_pos htaken]
        rfl
      | _ => simp only [RefusesSecond, hcontent]
    | _ => trivial

/-- Two clients join, one of them tries again, leaves, and joins under a new name. -/
def oneByOne : List StageEvent :=
  [joining "ada" 1, joining "bob" 2, joining "ada" 1, leaving "ada" 1, .hierarchyEvent,
    .hierarchyEvent, .hierarchyEvent, .synchronisableEvent, .cleanup, joining "eve" 1]

theorem attributes_iff_sole_oneByOne : Attributes oneByOne := by
  obtain ⟨t, hrun⟩ : ∃ t, Library.run step opened oneByOne = .ok t := ⟨_, rfl⟩
  exact (attributes_iff_sole hrun).mpr (by decide)

/-- One endpoint joins twice, under two names, and is two members then. -/
theorem joinedTwice_not_attributes :
    ∃ t, Library.run step opened [joining "ada" 1, joining "eve" 1] = .ok t ∧
      members t.hierarchy = [0, 1] ∧ endpointOf t.hierarchy 0 = endpointOf t.hierarchy 1 ∧
      ¬ Attributes [joining "ada" 1, joining "eve" 1] := by
  refine ⟨_, rfl, by decide, by decide, fun hattributes => ?_⟩
  have htwice := (hattributes [joining "ada" 1, joining "eve" 1] [] _ (by simp) rfl).1
  exact absurd (htwice.unique 0 (by decide) 1 (by decide) 1 (by decide) (by decide)) (by decide)

end Showtime.Attribution
