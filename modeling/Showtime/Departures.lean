import Showtime.StageRun
import Showtime.UnknownSender
/-!
# Departures

A performer leaves the stage by its own request or when the heartbeat timer
gives it up. Both paths queue its deactivation; only the handler of the request
tells the other clients.
-/

namespace Showtime.Departures

open ZstHierarchy ZstStageHierarchy ZstStageSession ZstStage

/-! ## Members -/

/-- The performers of the stage that are not about to leave. -/
def members (h : ZstHierarchy) : List EntityId :=
  (getPerformers h).filter fun e => (h.entities e).isActivated

theorem mem_members {h : ZstHierarchy} {e : EntityId} :
    e ∈ members h ↔ e ∈ getPerformers h ∧ (h.entities e).syncStatus = .activated := by
  simp [members, Entity.isActivated]

/-- The timer gives a performer up. -/
def expires (x : Entity) : Bool :=
  (checkHeartbeat x).missedHeartbeats > maxMissedHeartbeats

/-- The members that have a client. -/
def clients (h : ZstHierarchy) : List EntityId :=
  (members h).filter fun e => (h.entities e).stageProxy.isSome

theorem mem_clients {h : ZstHierarchy} {c : EntityId} :
    c ∈ clients h ↔ c ∈ members h ∧ ∃ proxy, (h.entities c).stageProxy = some proxy := by
  simp [clients, Option.isSome_iff_exists]

/-- Everyone who is a client after the step is told of every performer that
stopped being a member in it. -/
def EveryoneTold (s t : ZstSession) : Prop :=
  ∀ e ∈ members s.hierarchy, e ∉ members t.hierarchy →
    ∀ c ∈ members t.hierarchy, ∀ proxy, (t.hierarchy.entities c).stageProxy = some proxy →
      ∃ m ∈ t.hierarchy.sent.drop s.hierarchy.sent.length,
        m.target = proxy.originEndpointUUID ∧
        ∃ reason, m.content = .clientLeaveRequest (s.hierarchy.entities e).uri reason

/-- A step by which performers leave: a request to leave, or the timer. -/
def IsDeparture : StageEvent → Prop
  | .receive msg =>
    match msg.content with
    | .clientLeaveRequest _ _ => True
    | _ => False
  | .heartbeatTimer => True
  | _ => False

def Announces (s : ZstSession) (event : StageEvent) : Prop :=
  IsDeparture event → ∀ t, step s event = .ok t → EveryoneTold s t

/-- No other member is below the performer, and it has no parent itself. -/
def StandsAlone (h : ZstHierarchy) (e : EntityId) : Prop :=
  h.parent e = none ∧ ∀ d ∈ members h, d ∈ h.getChildEntities e → d = e

instance (h : ZstHierarchy) (e : EntityId) : Decidable (StandsAlone h e) :=
  inferInstanceAs (Decidable (_ ∧ _))

/-- The performer that a message asks to remove: the one that sent it. -/
def leavers (h : ZstHierarchy) (msg : ZstStageMessage) : List EntityId :=
  match msg.content with
  | .clientLeaveRequest _ _ => (getClientFromEndpointUUID h msg.originEndpointUUID).toList
  | _ => []

/-- The timer gives up no member, or every client. -/
def NobodyLost (h : ZstHierarchy) : Prop :=
  (∀ e ∈ getPerformers h, expires (h.entities e) = true → e ∉ members h ∧ StandsAlone h e) ∨
    ∀ c ∈ clients h, expires (h.entities c) = true

instance (h : ZstHierarchy) : Decidable (NobodyLost h) :=
  inferInstanceAs (Decidable (_ ∨ _))

/-- A performer that leaves by request is alone, or its client is the only one,
and the timer gives up nobody behind the backs of the others. -/
def LeavesOpenly (s : ZstSession) : StageEvent → Prop
  | .receive msg => ∀ e ∈ leavers s.hierarchy msg,
      StandsAlone s.hierarchy e ∨ ∀ c ∈ clients s.hierarchy, c = e
  | .heartbeatTimer => NobodyLost s.hierarchy
  | _ => True

instance (s : ZstSession) : ∀ event, Decidable (LeavesOpenly s event)
  | .receive msg => inferInstanceAs (Decidable (∀ e ∈ leavers s.hierarchy msg, _))
  | .heartbeatTimer => inferInstanceAs (Decidable (NobodyLost s.hierarchy))
  | .respond _ _ | .hierarchyEvent | .synchronisableEvent | .cleanup | .forgetDead
  | .cableEvents => inferInstanceAs (Decidable True)

/-! ## What a removal does to the others -/

section Removal

variable {h k : ZstHierarchy}

theorem enqueueDeactivation_status (h : ZstHierarchy) (c d : EntityId) :
    ((h.enqueueDeactivation c).entities d).syncStatus =
      if d = c ∧ ((h.entities c).syncStatus = .activated ∨
        (h.entities c).syncStatus = .deactivating) then .deactivationQueued
      else (h.entities d).syncStatus := by
  have hevent : ∀ (k : ZstHierarchy) (e : EntityId),
      (k.synchronisableHasEvent e).entities = k.entities := by
    intro k e
    unfold synchronisableHasEvent
    split <;> rfl
  unfold enqueueDeactivation
  by_cases hactive : (h.entities c).syncStatus = .activated ∨
      (h.entities c).syncStatus = .deactivating
  · rw [if_pos hactive, hevent]
    by_cases hdc : d = c
    · simp [deferEvents, setActivationStatus, hdc, hactive]
    · simp [deferEvents, setActivationStatus, modify_entities, hdc]
  · rw [if_neg hactive]
    simp [hactive]

/-- Nobody is activated by the deactivation of others. -/
theorem foldl_enqueueDeactivation_inactive (items : List EntityId) {d : EntityId}
    (hd : (h.entities d).syncStatus ≠ .activated) :
    ((items.foldl enqueueDeactivation h).entities d).syncStatus ≠ .activated := by
  refine List.foldlRecOn (motive := fun (k : ZstHierarchy) =>
    (k.entities d).syncStatus ≠ .activated) _ _ hd fun k hk c _ => ?_
  rw [enqueueDeactivation_status]
  split
  · exact ZstSyncStatus.noConfusion
  · exact hk

theorem foldl_enqueueDeactivation_mem (items : List EntityId) {d : EntityId} (hd : d ∈ items) :
    ((items.foldl enqueueDeactivation h).entities d).syncStatus ≠ .activated := by
  induction items generalizing h with
  | nil => cases hd
  | cons c items ih =>
    rcases List.mem_cons.mp hd with rfl | hd
    · refine foldl_enqueueDeactivation_inactive items ?_
      rw [enqueueDeactivation_status]
      split
      · exact ZstSyncStatus.noConfusion
      · rename_i hnot
        exact fun hactive => hnot ⟨rfl, Or.inl hactive⟩
    · exact ih hd

theorem foldl_enqueueDeactivation_not_mem (items : List EntityId) {d : EntityId}
    (hd : d ∉ items) :
    ((items.foldl enqueueDeactivation h).entities d).syncStatus = (h.entities d).syncStatus := by
  induction items generalizing h with
  | nil => rfl
  | cons c items ih =>
    obtain ⟨hdc, hd⟩ := not_or.mp (mt List.mem_cons.mpr hd)
    rw [List.foldl_cons, ih hd, enqueueDeactivation_status, if_neg fun h => hdc h.1]

theorem removeFromParent_status (h : ZstHierarchy) (e d : EntityId) :
    ((removeFromParent stageOverrides h e).entities d).syncStatus = (h.entities d).syncStatus :=
  (SameProxies.removeFromParent h e).field Entity.syncStatus (fun _ => rfl) d

/-- A removal activates nobody. -/
theorem removeProxyEntity_inactive (e : EntityId) {d : EntityId}
    (hd : (h.entities d).syncStatus ≠ .activated) :
    ((h.removeProxyEntity stageOverrides e).entities d).syncStatus ≠ .activated := by
  unfold removeProxyEntity
  split
  · refine foldl_enqueueDeactivation_inactive _ ?_
    change ((removeFromParent stageOverrides h e).entities d).syncStatus ≠ .activated
    rw [removeFromParent_status]
    exact hd
  · exact hd

/-- The removed entity is about to leave. -/
theorem removeProxyEntity_self {e : EntityId} (hproxy : (h.entities e).isProxy = true) :
    ((h.removeProxyEntity stageOverrides e).entities e).syncStatus ≠ .activated := by
  have hself : ∀ l : ZstHierarchy, e ∈ l.getChildEntities e := by
    intro l
    unfold getChildEntities
    cases l.next <;> simp [descendants]
  unfold removeProxyEntity
  rw [if_pos hproxy]
  exact foldl_enqueueDeactivation_mem _ (hself _)

/-- Without a parent, nobody but what is below leaves. -/
theorem removeProxyEntity_other {e d : EntityId} (hparent : h.parent e = none)
    (hd : d ∉ h.getChildEntities e) :
    ((h.removeProxyEntity stageOverrides e).entities d).syncStatus =
      (h.entities d).syncStatus := by
  have hremove : h.removeFromParent stageOverrides e = h := by
    unfold removeFromParent
    rw [hparent]
  unfold removeProxyEntity
  split
  · unfold destroyEntityComplete
    simp only [hremove]
    refine foldl_enqueueDeactivation_not_mem _ ?_
    rw [(Standing.defersLeaving h (h.entities e)).getChildEntities_eq]
    exact hd
  · rfl

theorem removeProxyEntity_stageProxy (h : ZstHierarchy) (e d : EntityId) :
    ((h.removeProxyEntity stageOverrides e).entities d).stageProxy =
      (h.entities d).stageProxy :=
  (UnknownSender.SameAudience.removeProxyEntity h e).stageProxy d

theorem removeProxyEntity_sent (h : ZstHierarchy) (e : EntityId) :
    (h.removeProxyEntity stageOverrides e).sent = h.sent :=
  (UnknownSender.SameAudience.removeProxyEntity h e).sent

end Removal

/-! ## Leaving by request -/

/-- What the handler of a request to leave comes to. -/
theorem receive_leave {s t : ZstSession} {msg : ZstStageMessage} {path : ZstURI}
    {reason : ClientLeaveReason} (hcontent : msg.content = .clientLeaveRequest path reason)
    (hrun : receive s msg = .ok t) :
    ∃ e, getClientFromEndpointUUID s.hierarchy msg.originEndpointUUID = some e ∧
      t.hierarchy =
        let h := s.hierarchy.removeProxyEntity stageOverrides e
        respond (broadcast h (.clientLeaveRequest (h.entities e).uri reason)) msg .ok := by
  have hsession : ZstStageSession.onReceiveMsg s msg = .ok s := by
    unfold ZstStageSession.onReceiveMsg ZstStageSession.dispatch
    rw [hcontent]
    cases getClientFromEndpointUUID s.hierarchy msg.originEndpointUUID <;> rfl
  unfold receive at hrun
  obtain ⟨u, hu, hrun⟩ := Library.bind_ok.mp hrun
  obtain rfl := Except.ok.inj (hsession.symm.trans hu)
  obtain ⟨k, hhierarchy, hrun⟩ := Library.bind_ok.mp hrun
  obtain rfl := Except.ok.inj hrun
  unfold ZstStageHierarchy.onReceiveMsg at hhierarchy
  obtain ⟨⟨l, response⟩, hdispatch, hrespond⟩ := Library.bind_ok.mp hhierarchy
  obtain rfl := Except.ok.inj hrespond
  unfold ZstStageHierarchy.dispatch clientLeavingHandler at hdispatch
  rw [hcontent] at hdispatch
  obtain ⟨e, hderef, hleave⟩ := Library.bind_ok.mp hdispatch
  obtain ⟨rfl, rfl⟩ := Prod.mk.inj (Except.ok.inj hleave)
  exact ⟨e, deref_ok hderef, rfl⟩

theorem isProxy_of_mem_members {h : ZstHierarchy} (owned : Owned h) {e : EntityId}
    (he : e ∈ members h) : (h.entities e).isProxy = true :=
  owned.proxy e (List.mem_of_mem_filter (mem_members.mp he).1)

/-- A performer that leaves by request is announced to every other client. -/
theorem leave_announced {s t : ZstSession} (owned : Owned s.hierarchy) {msg : ZstStageMessage}
    {path : ZstURI} {reason : ClientLeaveReason}
    (hcontent : msg.content = .clientLeaveRequest path reason)
    (hopen : LeavesOpenly s (.receive msg)) (hrun : receive s msg = .ok t) : EveryoneTold s t := by
  obtain ⟨e, hclient, ht⟩ := receive_leave hcontent hrun
  have hsafe := hopen e (by simp [leavers, hcontent, hclient])
  have hremoved : SameProxies s.hierarchy (s.hierarchy.removeProxyEntity stageOverrides e) :=
    .removeProxyEntity _ e
  have hstanding : Standing (s.hierarchy.removeProxyEntity stageOverrides e) t.hierarchy := by
    rw [ht]
    exact (Standing.broadcast _ _ none).trans (Standing.respond _ msg .ok)
  have hperformers : getPerformers t.hierarchy = getPerformers s.hierarchy :=
    hstanding.getPerformers_eq.trans hremoved.getPerformers_eq
  have hstatus : ∀ d, (t.hierarchy.entities d).syncStatus =
      ((s.hierarchy.removeProxyEntity stageOverrides e).entities d).syncStatus := by
    intro d
    rw [ht, respond_eq, broadcast_eq]
  intro d hd hgone c hc proxy hproxy
  have hkept := mem_members.mp hc
  rw [hperformers, hstatus] at hkept
  have hproxy' : (s.hierarchy.entities c).stageProxy = some proxy := by
    rw [← removeProxyEntity_stageProxy s.hierarchy e c, ← hproxy]
    exact (hstanding.field Entity.stageProxy (fun _ => rfl) c).symm
  have hcmember : c ∈ members s.hierarchy := by
    refine mem_members.mpr ⟨hkept.1, ?_⟩
    by_contra hasleep
    exact removeProxyEntity_inactive e hasleep hkept.2
  rcases hsafe with halone | honly
  · -- only the performer itself has left, under its own path
    obtain rfl : d = e := by
      by_contra hde
      refine hgone (mem_members.mpr ⟨?_, ?_⟩)
      · rw [hperformers]
        exact (mem_members.mp hd).1
      · rw [hstatus, removeProxyEntity_other halone.1 fun hmem => hde (halone.2 d hd hmem)]
        exact (mem_members.mp hd).2
    have huri := (Standing.removeProxyEntity halone.1).field Entity.uri (fun _ => rfl) d
    refine ⟨{ target := proxy.originEndpointUUID
              content := .clientLeaveRequest (s.hierarchy.entities d).uri reason }, ?_, rfl,
      reason, rfl⟩
    rw [ht, respond_eq, broadcast_eq]
    simp only [removeProxyEntity_sent, List.append_assoc, List.drop_left, huri]
    refine List.mem_append_left _ (mem_broadcastMessages (e := c) _ ?_ ?_)
    · rw [hremoved.getPerformers_eq]
      exact hkept.1
    · rw [removeProxyEntity_stageProxy]
      exact hproxy'
  · obtain rfl := honly c (mem_clients.mpr ⟨hcmember, proxy, hproxy'⟩)
    exact absurd hkept.2 (removeProxyEntity_self (isProxy_of_mem_members owned hcmember))

/-! ## The heartbeat timer -/

section Timer

variable {h : ZstHierarchy}

theorem checkHeartbeats_status (h : ZstHierarchy) (d : EntityId) :
    ((checkHeartbeats h).1.entities d).syncStatus = (h.entities d).syncStatus := by
  unfold checkHeartbeats
  refine List.foldlRecOn (motive := fun (state : ZstHierarchy × List EntityId) =>
    (state.1.entities d).syncStatus = (h.entities d).syncStatus) _ _ rfl fun state hstate e _ => ?_
  refine Eq.trans ?_ hstate
  simp only [modify_entities]
  split
  · rename_i hde
    rw [hde]
    unfold checkHeartbeat
    split <;> rfl
  · rfl

theorem checkHeartbeats_sent (h : ZstHierarchy) : (checkHeartbeats h).1.sent = h.sent := by
  unfold checkHeartbeats
  exact List.foldlRecOn (motive := fun (state : ZstHierarchy × List EntityId) =>
    state.1.sent = h.sent) _ _ rfl fun state hstate e _ => hstate

/-- The timer collects the performers that expire. -/
theorem checkHeartbeats_removed (owned : Owned h) :
    (checkHeartbeats h).2 = (getPerformers h).filter fun e => expires (h.entities e) := by
  have hloop : ∀ (items : List EntityId) (k : ZstHierarchy) (removed : List EntityId),
      items.Nodup → (∀ e ∈ items, k.entities e = h.entities e) →
      (items.foldl (fun (state : ZstHierarchy × List EntityId) e =>
        let k := state.1.modify e checkHeartbeat
        (k, if (k.entities e).missedHeartbeats > maxMissedHeartbeats then state.2 ++ [e]
          else state.2)) (k, removed)).2 =
        removed ++ items.filter fun e => expires (h.entities e) := by
    intro items
    induction items with
    | nil => simp
    | cons e items ih =>
      intro k removed hnodup hsame
      obtain ⟨hnot, hnodup⟩ := List.nodup_cons.mp hnodup
      have hsame' : ∀ d ∈ items, (k.modify e checkHeartbeat).entities d = h.entities d := by
        intro d hd
        have hde : d ≠ e := by
          rintro rfl
          exact hnot hd
        rw [modify_entities_of_ne k _ hde]
        exact hsame d (List.mem_cons_of_mem _ hd)
      rw [List.foldl_cons]
      refine (ih _ _ hnodup hsame').trans ?_
      rw [modify_entities_self, hsame e List.mem_cons_self, List.filter_cons]
      unfold expires
      split
      · rename_i hexpired
        simp [hexpired]
      · rename_i hexpired
        simp [hexpired]
  exact hloop _ h [] (owned.nodup.filter _) fun _ _ => rfl

/-- Giving performers up activates nobody, and tells nobody. -/
theorem removals_keep (removed : List EntityId) (h : ZstHierarchy) :
    let k := removed.foldl (removeProxyEntity stageOverrides) h
    SameProxies h k ∧ k.sent = h.sent ∧
      (∀ d, (k.entities d).stageProxy = (h.entities d).stageProxy) ∧
      ∀ d, (h.entities d).syncStatus ≠ .activated → (k.entities d).syncStatus ≠ .activated := by
  induction removed generalizing h with
  | nil => exact ⟨.refl h, rfl, fun _ => rfl, fun _ hd => hd⟩
  | cons e removed ih =>
    obtain ⟨hsame, hsent, hproxy, hinactive⟩ := ih (h.removeProxyEntity stageOverrides e)
    refine ⟨.trans (.removeProxyEntity h e) hsame, hsent.trans (removeProxyEntity_sent h e),
      fun d => (hproxy d).trans (removeProxyEntity_stageProxy h e d), fun d hd => ?_⟩
    exact hinactive d (removeProxyEntity_inactive e hd)

/-- Whoever is given up is about to leave. -/
theorem removals_self {removed : List EntityId} {d : EntityId} (hd : d ∈ removed)
    (hproxy : (h.entities d).isProxy = true) :
    ((removed.foldl (removeProxyEntity stageOverrides) h).entities d).syncStatus ≠ .activated := by
  induction removed generalizing h with
  | nil => cases hd
  | cons e removed ih =>
    rcases List.mem_cons.mp hd with rfl | hd
    · exact (removals_keep removed _).2.2.2 d (removeProxyEntity_self hproxy)
    · exact ih hd ((SameProxies.removeProxyEntity h e).isProxy d hproxy)

/-- Whoever is not below a performer without a parent stays when it is given up. -/
theorem removals_other (h : ZstHierarchy) (removed : List EntityId) {d : EntityId}
    (halone : ∀ e ∈ removed, h.parent e = none ∧ d ∉ h.getChildEntities e) :
    ((removed.foldl (removeProxyEntity stageOverrides) h).entities d).syncStatus =
      (h.entities d).syncStatus := by
  induction removed generalizing h with
  | nil => rfl
  | cons e removed ih =>
    obtain ⟨hparent, hd⟩ := halone e List.mem_cons_self
    have hstanding : Standing h (h.removeProxyEntity stageOverrides e) :=
      .removeProxyEntity hparent
    rw [List.foldl_cons, ih _ fun c hc => ?_]
    · exact removeProxyEntity_other hparent hd
    · rw [hstanding.parent_eq, hstanding.getChildEntities_eq]
      exact halone c (List.mem_cons_of_mem _ hc)

end Timer

/-- What the timer leaves of the stage. -/
theorem timer_keeps {s t : ZstSession} (hrun : step s .heartbeatTimer = .ok t) :
    getPerformers t.hierarchy = getPerformers s.hierarchy ∧
      t.hierarchy.sent = s.hierarchy.sent ∧
      (∀ d, (t.hierarchy.entities d).stageProxy = (s.hierarchy.entities d).stageProxy) ∧
      ∀ d ∈ members t.hierarchy, d ∈ members s.hierarchy := by
  obtain rfl := Except.ok.inj hrun
  have hstanding := checkHeartbeats_standing s.hierarchy
  obtain ⟨hsame, hsent, hproxy, hinactive⟩ :=
    removals_keep (checkHeartbeats s.hierarchy).2 (checkHeartbeats s.hierarchy).1
  have hperformers := hsame.getPerformers_eq.trans hstanding.getPerformers_eq
  refine ⟨hperformers, hsent.trans (checkHeartbeats_sent _), fun d => (hproxy d).trans
    (hstanding.field Entity.stageProxy (fun _ => rfl) d), fun d hd => ?_⟩
  obtain ⟨hperformer, hactive⟩ := mem_members.mp hd
  refine mem_members.mpr ⟨hperformers ▸ hperformer, ?_⟩
  by_contra hasleep
  refine hinactive d ?_ hactive
  rw [checkHeartbeats_status]
  exact hasleep

/-- An expired performer is no member after the timer. -/
theorem timer_removes {s t : ZstSession} (owned : Owned s.hierarchy)
    (hrun : step s .heartbeatTimer = .ok t) {e : EntityId} (he : e ∈ getPerformers s.hierarchy)
    (hexpired : expires (s.hierarchy.entities e) = true) : e ∉ members t.hierarchy := by
  obtain rfl := Except.ok.inj hrun
  have hremoved : e ∈ (checkHeartbeats s.hierarchy).2 := by
    rw [checkHeartbeats_removed owned]
    exact List.mem_filter.mpr ⟨he, hexpired⟩
  intro hmem
  refine removals_self (h := (checkHeartbeats s.hierarchy).1) hremoved ?_ (mem_members.mp hmem).2
  exact (owned.standing (checkHeartbeats_standing _)).proxy e
    ((checkHeartbeats_standing s.hierarchy).proxies ▸ List.mem_of_mem_filter he)

/-- A member that does not expire stays, if those that do are alone. -/
theorem timer_spares {s t : ZstSession} (owned : Owned s.hierarchy)
    (hrun : step s .heartbeatTimer = .ok t)
    (halone : ∀ e ∈ getPerformers s.hierarchy, expires (s.hierarchy.entities e) = true →
      StandsAlone s.hierarchy e) {d : EntityId} (hd : d ∈ members s.hierarchy)
    (hspared : expires (s.hierarchy.entities d) = false) : d ∈ members t.hierarchy := by
  obtain ⟨hperformers, -⟩ := timer_keeps hrun
  obtain rfl := Except.ok.inj hrun
  have hstanding := checkHeartbeats_standing s.hierarchy
  refine mem_members.mpr ⟨?_, ?_⟩
  · rw [hperformers]
    exact (mem_members.mp hd).1
  · refine (removals_other (checkHeartbeats s.hierarchy).1 (checkHeartbeats s.hierarchy).2
      fun e he => ?_).trans ?_
    · rw [checkHeartbeats_removed owned] at he
      obtain ⟨hperformer, hexpired⟩ := List.mem_filter.mp he
      obtain ⟨hparent, hbelow⟩ := halone e hperformer hexpired
      rw [hstanding.parent_eq, hstanding.getChildEntities_eq]
      refine ⟨hparent, fun hmem => ?_⟩
      rw [hbelow d hd hmem, hexpired] at hspared
      cases hspared
    · rw [checkHeartbeats_status]
      exact (mem_members.mp hd).2

/-- A timer that loses nobody has nothing to announce, or nobody to tell. -/
theorem timer_announced {s t : ZstSession} (owned : Owned s.hierarchy)
    (hopen : NobodyLost s.hierarchy) (hrun : step s .heartbeatTimer = .ok t) :
    EveryoneTold s t := by
  obtain ⟨-, -, hproxy, hmembers⟩ := timer_keeps hrun
  intro e he hgone c hc proxy hcproxy
  rcases hopen with hnone | hall
  · refine absurd (timer_spares owned hrun (fun d hd h => (hnone d hd h).2) he ?_) hgone
    by_contra hexpired
    exact (hnone e (mem_members.mp he).1 (by simpa using hexpired)).1 he
  · have hcmember := hmembers c hc
    have hexpired := hall c (mem_clients.mpr ⟨hcmember, proxy, (hproxy c) ▸ hcproxy⟩)
    exact absurd hc (timer_removes owned hrun (mem_members.mp hcmember).1 hexpired)

/-- Where no performer is below another, the timer loses somebody as soon as
one member expires and the client of another does not. -/
theorem timer_announced_iff {s t : ZstSession} (owned : Owned s.hierarchy)
    (hrun : step s .heartbeatTimer = .ok t)
    (halone : ∀ e ∈ getPerformers s.hierarchy, expires (s.hierarchy.entities e) = true →
      StandsAlone s.hierarchy e) :
    EveryoneTold s t ↔ NobodyLost s.hierarchy := by
  refine ⟨fun hannounced => ?_, fun hopen => timer_announced owned hopen hrun⟩
  obtain ⟨-, hsent, hproxy, -⟩ := timer_keeps hrun
  by_contra hlost
  obtain ⟨hsome, hother⟩ := not_or.mp hlost
  push Not at hsome hother
  obtain ⟨e, he, hexpired, hmember⟩ := hsome
  obtain ⟨c, hc, hspared⟩ := hother
  obtain ⟨hcmember, proxy, hcproxy⟩ := mem_clients.mp hc
  have hemember : e ∈ members s.hierarchy := by
    by_contra hnot
    exact hmember hnot (halone e he hexpired)
  have hstays := timer_spares owned hrun halone hcmember (by simpa using hspared)
  obtain ⟨m, hm, -⟩ := hannounced e hemember (timer_removes owned hrun he hexpired) c hstays
    proxy ((hproxy c).trans hcproxy)
  rw [hsent, List.drop_length] at hm
  cases hm

/-! ## Whole runs -/

/-- In a run whose steps give nobody up behind the clients' backs, every
departure is announced to every client that stays. -/
theorem departures_announced (events : List StageEvent)
    (hopen : Library.Along step LeavesOpenly opened events) :
    Library.Along step Announces opened events := by
  refine Library.along_of_invariant (fun s => Owned s.hierarchy)
    (fun s event t owned _ hrun => owned.step hrun) (fun s event owned hcondition => ?_)
    owned_opened hopen
  intro hdeparture t hrun
  cases event with
  | receive msg =>
    unfold IsDeparture at hdeparture
    cases hcontent : msg.content with
    | clientLeaveRequest path reason => exact leave_announced owned hcontent hcondition hrun
    | _ =>
      simp only [hcontent] at hdeparture
  | heartbeatTimer => exact timer_announced owned hcondition hrun
  | _ => exact hdeparture.elim

theorem departures_announced_leave :
    Library.Along step Announces opened [joining "ada" 1, joining "bob" 2, leaving "bob" 2] :=
  departures_announced _ (by decide)

/-- The client `bob` is not heard from after it joined. -/
def silence : List StageEvent :=
  [joining "ada" 1, joining "bob" 2] ++
    (List.replicate 10 [heartbeat 1, .heartbeatTimer]).flatten ++ [heartbeat 1]

/-- The timer gives `bob` up, and `ada` is not told. -/
theorem silence_unannounced :
    ¬ Library.Along step Announces opened (silence ++ [.heartbeatTimer]) := by
  intro hannounces
  obtain ⟨u, hrun, hgone⟩ : ∃ u, Library.run step opened silence = .ok u ∧
      ¬ EveryoneTold u (onHierarchy u stageHeartbeatTimer) := by
    refine ⟨_, rfl, fun hannounced => ?_⟩
    obtain ⟨m, hm, -⟩ := hannounced 1 (by decide) (by decide) 0 (by decide) ⟨1, "", []⟩ rfl
    exact absurd hm (List.not_mem_nil)
  exact hgone (Library.along_append_cons hannounces hrun trivial _ rfl)

end Showtime.Departures
