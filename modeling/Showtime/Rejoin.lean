import Showtime.Waking
/-!
# Rejoining the stage

A join wakes the root and its children and then activates everything below the
root; leaving puts the root and its children to sleep again. What the one
counts on and what the other leaves behind in the lookup table decides which
entities a second join still finds.
-/

namespace Showtime.Rejoin

open ZstHierarchy ZstClientHierarchy ZstClient Library

/-! ## A join -/

/-- What `join_stage_complete` does before the activations. -/
def wakeRoot (h : ZstHierarchy) (root : EntityId) : ZstHierarchy :=
  publish (okLink true) (((nearEntities h root).foldl wake h).enqueueActivation root)
    { target := 0, content := .signalMessage .clientSync }

theorem joinHierarchy_eq (fuel : Nat) (h : ZstHierarchy) (root : EntityId)
    (behaviour : SendBehaviour) :
    joinHierarchy fuel h root behaviour =
      (activateAll (overrides (okLink true) fuel) fuel behaviour
        (((wakeRoot h root).getChildEntities root).drop 1) (wakeRoot h root)).enqueueActivation
          root := rfl

section Join

variable {h k : ZstHierarchy} {root : EntityId}

theorem enqueueActivation_or (h : ZstHierarchy) (e : EntityId) :
    h.enqueueActivation e = h ∨ h.enqueueActivation e = wake h e := by
  by_cases hstatus : (h.entities e).syncStatus = .activating
  · right
    have hsame : h.setActivationStatus e .activating = h := by
      unfold setActivationStatus ZstHierarchy.modify
      rw [← hstatus]
      exact congrArg (fun entities => { h with entities }) (Function.update_eq_self e h.entities)
    unfold wake
    rw [hsame]
  · left
    unfold enqueueActivation
    rw [if_neg hstatus]

theorem enqueueActivation_waking (hk : Waking h k) {e : EntityId}
    (hregistered : (h.entities e).registered = true) :
    Waking h (k.enqueueActivation e) ∧ Progress k (k.enqueueActivation e) ∧
      ∀ d, (k.entities d).syncStatus ≠ .activated →
        ((k.enqueueActivation e).entities d).syncStatus ≠ .activated := by
  rcases enqueueActivation_or k e with heq | heq
  · rw [heq]
    exact ⟨hk, .refl k, fun _ hd => hd⟩
  · have hreg : (k.entities e).registered = true := by
      rw [hk.field Entity.registered (fun _ => rfl), hregistered]
    rw [heq]
    refine ⟨hk.wake hregistered, progress_wake hreg, fun d hd => ?_⟩
    rw [wake_status hreg]
    split
    · simp
    · exact hd

theorem wake_sent (h : ZstHierarchy) (e : EntityId) : (wake h e).sent = h.sent :=
  enqueueActivation_sent _ e

theorem wakeRoot_waking (hk : Waking h k)
    (hregistered : ∀ e ∈ nearEntities h root, (h.entities e).registered = true) :
    Waking h (wakeRoot k root) ∧ Progress k (wakeRoot k root) ∧
      (∀ e ∈ nearEntities h root, Awake (wakeRoot k root) e) ∧
      (∀ d, (k.entities d).syncStatus ≠ .activated →
        ((wakeRoot k root).entities d).syncStatus ≠ .activated) ∧
      (wakeRoot k root).sent =
        k.sent ++ [{ target := 0, content := .signalMessage .clientSync }] := by
  have hnear : nearEntities k root = nearEntities h root := by
    unfold nearEntities
    rw [hk.childEntities_eq]
  have hreg : ∀ l, Waking h l → ∀ e ∈ nearEntities h root, (l.entities e).registered = true := by
    intro l hl e he
    rw [hl.field Entity.registered fun _ => rfl]
    exact hregistered e he
  obtain ⟨⟨hwaking, hprogress, hasleep⟩, -, hawake⟩ := foldl_establishes wake
    (nearEntities h root)
    (fun l => Waking h l ∧ Progress k l ∧ ∀ d, (k.entities d).syncStatus ≠ .activated →
      (l.entities d).syncStatus ≠ .activated)
    (fun e l => Awake l e)
    (fun l hl e he => by
      refine ⟨hl.1.wake (hregistered e he), hl.2.1.trans (progress_wake (hreg l hl.1 e he)),
        fun d hd => ?_⟩
      rw [wake_status (hreg l hl.1 e he)]
      split
      · simp
      · exact hl.2.2 d hd)
    (fun l hl e he => awake_wake (hreg l hl.1 e he))
    (fun l hl e he b hb => (progress_wake (hreg l hl.1 e he)).awake b hb)
    ⟨hk, .refl k, fun _ hd => hd⟩
  obtain ⟨hlast, hprogress', hasleep'⟩ := enqueueActivation_waking hwaking
    (hregistered root List.mem_cons_self)
  unfold wakeRoot
  rw [hnear]
  refine ⟨hlast.publish _ (by simp), (hprogress.trans hprogress').trans (progress_publish _ _ _),
    fun e he => (progress_publish _ _ _).awake e (hprogress'.awake e (hawake e he)),
    fun d hd => hasleep' d (hasleep d hd), ?_⟩
  change (((nearEntities h root).foldl wake k).enqueueActivation root).sent ++ _ = _
  rw [enqueueActivation_sent, sent_foldl wake_sent]

/-- The answers to the requests wake whoever they activate. -/
theorem answerRequests_waking (tree : RegisteredTree h) (fuel : Nat) (hk : Waking h k) :
    let l := answerRequests fuel (okLink true) k (k.sent.drop h.sent.length)
    Waking h l ∧ Progress k l ∧ l.sent = k.sent ∧ ∀ e, CompletionRequested h k e → Awake l e := by
  intro l
  obtain ⟨messages, hsent, hactions⟩ := hk.sent
  have hdrop : k.sent.drop h.sent.length = messages := by rw [hsent, List.drop_left]
  have hmem : ∀ action ∈ messages.filterMap Outgoing.onRecvResponse,
      ∃ e, action = .entityActivated e none ∧ h.InTree e := by
    intro action haction
    obtain ⟨m, hm, hrecv⟩ := List.mem_filterMap.mp haction
    exact hactions m hm action hrecv
  have hstep : ∀ (n : ZstHierarchy) (e : EntityId),
      onRecvResponse (overrides (okLink true) fuel) (okLink true) n (.entityActivated e none)
        (some (.signalMessage .ok)) = ZstClientHierarchy.activateEntityComplete n e :=
    fun _ _ => rfl
  obtain ⟨⟨hwaking, hprogress, hsame⟩, -, hawake⟩ := foldl_establishes
    (fun n action => onRecvResponse (overrides (okLink true) fuel) (okLink true) n action
      (some (.signalMessage .ok)))
    (messages.filterMap Outgoing.onRecvResponse)
    (fun n => Waking h n ∧ Progress k n ∧ n.sent = k.sent)
    (fun action n => ∀ e, action = .entityActivated e none → Awake n e)
    (fun n hn action haction => by
      obtain ⟨e, rfl, he⟩ := hmem action haction
      obtain ⟨hnext, hnextProgress, -⟩ := activateEntityComplete_waking tree hn.1 he
      rw [hstep]
      exact ⟨hnext, hn.2.1.trans hnextProgress,
        (activateEntityComplete_sent n e).trans hn.2.2⟩)
    (fun n hn action haction => by
      obtain ⟨e, rfl, he⟩ := hmem action haction
      rintro d hd
      cases hd
      rw [hstep]
      exact (activateEntityComplete_waking tree hn.1 he).2.2 e (self_mem_getChildEntities _ e))
    (fun n hn action haction other hother d hd => by
      obtain ⟨e, rfl, he⟩ := hmem action haction
      rw [hstep]
      exact (activateEntityComplete_waking tree hn.1 he).2.1.awake d (hother d hd))
    ⟨hk, .refl k, rfl⟩
  have hl : l = (messages.filterMap Outgoing.onRecvResponse).foldl
      (fun n action => onRecvResponse (overrides (okLink true) fuel) (okLink true) n action
        (some (.signalMessage .ok))) k := by
    simp only [l, answerRequests, hdrop]
  rw [hl]
  refine ⟨hwaking, hprogress, hsame, fun e he => ?_⟩
  obtain ⟨m, hm, hrecv⟩ := he
  rw [hdrop] at hm
  exact hawake _ (List.mem_filterMap.mpr ⟨m, hm, hrecv⟩) e rfl

end Join

/-! ## While entities are put to sleep -/

/-- The second hierarchy comes from the first by deactivations of local entities,
which are queued, waiting for the reaper or done. -/
structure DeactivatedFrom (h k : ZstHierarchy) : Prop where
  entities : ∀ e, idle (k.entities e) = idle (h.entities e)
  lookup : ∀ q, k.lookup q = none ∨ k.lookup q = h.lookup q
  root : k.root = h.root
  hierarchyEvents : k.hierarchyEvents = []
  deadIDs : k.deadIDs = []
  events : ∀ e, (k.entities e).synchronisableEvents = [] ∨
    (k.entities e).synchronisableEvents = [.deactivated, .destroyed] ∧
      (k.entities e).syncStatus = .deactivationQueued
  queued : ∀ e, (k.entities e).synchronisableEvents ≠ [] → e ∈ k.synchronisableEvents
  owned : ∀ e, e ∈ k.synchronisableEvents ∨ e ∈ k.cleanupOps →
    (h.entities e).isProxy = false

/-- The entity is off the lookup table, or will be once the events are drained. -/
def GoneOnceDrained (h k : ZstHierarchy) (e : EntityId) : Prop :=
  (k.entities e).synchronisableEvents ≠ [] ∨ e ∈ k.cleanupOps ∨
    k.lookup (h.entities e).uri = none

namespace DeactivatedFrom

variable {h k : ZstHierarchy} (v : Overrides)

theorem of_drained (hh : Drained h) : DeactivatedFrom h h :=
  ⟨fun _ => rfl, fun _ => Or.inr rfl, rfl, hh.hierarchyEvents, hh.deadIDs,
    fun e => Or.inl (hh.events e), fun e hne => absurd (hh.events e) hne,
    by simp [hh.synchronisableEvents, hh.cleanupOps]⟩

theorem field {β : Type} (hk : DeactivatedFrom h k) (f : Entity → β) (hf : ∀ x, f (idle x) = f x)
    (e : EntityId) : f (k.entities e) = f (h.entities e) := by
  rw [← hf, hk.entities e, hf]

/-- An entity whose deactivation is queued. -/
def queueDeactivation (x : Entity) : Entity :=
  { x with
    syncStatus := .deactivationQueued
    synchronisableEvents := x.synchronisableEvents ++ [.deactivated, .destroyed] }

theorem enqueueDeactivation_eq {e : EntityId} (hregistered : (k.entities e).registered = true)
    (hstatus : (k.entities e).syncStatus = .activated ∨
      (k.entities e).syncStatus = .deactivating) :
    k.enqueueDeactivation e =
      { k.modify e queueDeactivation with
        synchronisableEvents := k.synchronisableEvents ++ [e] } := by
  unfold enqueueDeactivation
  rw [if_pos hstatus]
  simp [setActivationStatus, deferEvents, synchronisableHasEvent, hregistered,
    ZstHierarchy.modify, queueDeactivation]

theorem enqueueDeactivation (hk : DeactivatedFrom h k) {e : EntityId}
    (hregistered : (h.entities e).registered = true) (howned : (h.entities e).isProxy = false) :
    DeactivatedFrom h (k.enqueueDeactivation e) ∧
      (∀ d, GoneOnceDrained h k d → GoneOnceDrained h (k.enqueueDeactivation e) d) ∧
      ((k.entities e).syncStatus = .activated → GoneOnceDrained h (k.enqueueDeactivation e) e) ∧
      ∀ d, (k.entities d).syncStatus = .activated → d ≠ e →
        ((k.enqueueDeactivation e).entities d).syncStatus = .activated := by
  have hreg : (k.entities e).registered = true := by
    rw [hk.field Entity.registered (fun _ => rfl), hregistered]
  by_cases hstatus : (k.entities e).syncStatus = .activated ∨
      (k.entities e).syncStatus = .deactivating
  · have hown : (k.entities e).synchronisableEvents = [] := by
      rcases hk.events e with hnil | ⟨-, hqueued⟩
      · exact hnil
      · rw [hqueued] at hstatus
        simp at hstatus
    have hentities : ∀ d, ((k.modify e queueDeactivation).entities d) =
        if d = e then queueDeactivation (k.entities e) else k.entities d :=
      fun d => modify_entities k e d _
    have hevents : (queueDeactivation (k.entities e)).synchronisableEvents =
        [.deactivated, .destroyed] := by
      simp [queueDeactivation, hown]
    rw [enqueueDeactivation_eq hreg hstatus]
    refine ⟨{ hk with
      entities := fun d => ?_
      events := fun d => ?_
      queued := fun d => ?_
      owned := fun d => ?_ }, fun d hd => ?_, fun _ => ?_, fun d hd hne => ?_⟩
    · change idle ((k.modify e queueDeactivation).entities d) = _
      rw [hentities, ← hk.entities d]
      split
      · rename_i hde
        rw [hde]
        rfl
      · rfl
    · change ((k.modify e queueDeactivation).entities d).synchronisableEvents = [] ∨
        ((k.modify e queueDeactivation).entities d).synchronisableEvents = _ ∧
          ((k.modify e queueDeactivation).entities d).syncStatus = _
      rw [hentities]
      split
      · exact Or.inr ⟨hevents, rfl⟩
      · exact hk.events d
    · change ((k.modify e queueDeactivation).entities d).synchronisableEvents ≠ [] →
        d ∈ k.synchronisableEvents ++ [e]
      rw [hentities]
      split
      · rename_i hde
        simp [hde]
      · exact fun hne => List.mem_append_left _ (hk.queued d hne)
    · rintro (hd | hd)
      · rcases List.mem_append.mp hd with hd | hd
        · exact hk.owned d (Or.inl hd)
        · rw [List.mem_singleton.mp hd]
          exact howned
      · exact hk.owned d (Or.inr hd)
    · rcases hd with hd | hd
      · left
        change ((k.modify e queueDeactivation).entities d).synchronisableEvents ≠ []
        rw [hentities]
        split
        · simp [hevents]
        · exact hd
      · exact Or.inr hd
    · left
      change ((k.modify e queueDeactivation).entities e).synchronisableEvents ≠ []
      rw [hentities, if_pos rfl, hevents]
      simp
    · change ((k.modify e queueDeactivation).entities d).syncStatus = _
      rw [hentities, if_neg hne]
      exact hd
  · have hsame : k.enqueueDeactivation e = k := by
      unfold ZstHierarchy.enqueueDeactivation
      rw [if_neg hstatus]
    rw [hsame]
    exact ⟨hk, fun _ hd => hd, fun hactivated => absurd (Or.inl hactivated) hstatus,
      fun _ hd _ => hd⟩

/-- One item of the module's queue. -/
theorem processItem (hk : DeactivatedFrom h k) {e : EntityId} {rest : List EntityId}
    (hqueue : k.synchronisableEvents = e :: rest) :
    DeactivatedFrom h (ZstHierarchy.processItem v { k with synchronisableEvents := rest } e) ∧
      (∀ d, GoneOnceDrained h k d →
        GoneOnceDrained h
          (ZstHierarchy.processItem v { k with synchronisableEvents := rest } e) d) ∧
      (ZstHierarchy.processItem v { k with synchronisableEvents := rest } e).synchronisableEvents =
        rest := by
  have hrest : ∀ d, (k.entities d).synchronisableEvents ≠ [] → d ≠ e → d ∈ rest := by
    intro d hd hne
    have hmem := hk.queued d hd
    rw [hqueue] at hmem
    exact (List.mem_cons.mp hmem).resolve_left hne
  rcases hk.events e with hown | ⟨hown, -⟩
  · have hitem : ZstHierarchy.processItem v { k with synchronisableEvents := rest } e =
        { k with
          synchronisableEvents := rest
          freedAccess := k.freedAccess || !k.live e } := by
      simp [ZstHierarchy.processItem, hk.deadIDs, hown, processOwnEvents]
    rw [hitem]
    refine ⟨{ hk with queued := fun d hd => ?_, owned := fun d hd => hk.owned d ?_ },
      fun _ hd => hd, rfl⟩
    · refine hrest d hd ?_
      rintro rfl
      exact hd hown
    · rw [hqueue]
      exact hd.imp (List.mem_cons_of_mem e) id
  · let gone (x : Entity) : Entity :=
      { onDeactivation x with syncStatus := .destroyed, synchronisableEvents := [] }
    have hgone : ∀ x, idle (gone x) = idle x := by
      intro x
      simp only [gone, onDeactivation, idle]
      split <;> rfl
    have hitem : ZstHierarchy.processItem v { k with synchronisableEvents := rest } e =
        { k.modify e gone with
          synchronisableEvents := rest
          cleanupOps := k.cleanupOps ++ [e]
          freedAccess := k.freedAccess || !k.live e } := by
      by_cases hplug : (k.entities e).entityType = .plug <;>
        simp [ZstHierarchy.processItem, hk.deadIDs, hown, processOwnEvents, processEvent,
          onSynchronisableDestroyed, setActivationStatus, onDeactivation, Entity.isActivated,
          ZstHierarchy.modify, gone, hplug]
    have hentities : ∀ d, ((k.modify e gone).entities d) =
        if d = e then gone (k.entities e) else k.entities d := fun d => modify_entities k e d _
    rw [hitem]
    refine ⟨{ hk with
      entities := fun d => ?_
      events := fun d => ?_
      queued := fun d => ?_
      owned := fun d hd => hk.owned d ?_ }, fun d hd => ?_, rfl⟩
    · change idle ((k.modify e gone).entities d) = _
      rw [hentities, ← hk.entities d]
      split
      · rename_i hde
        rw [hde, hgone]
      · rfl
    · change ((k.modify e gone).entities d).synchronisableEvents = [] ∨
        ((k.modify e gone).entities d).synchronisableEvents = _ ∧
          ((k.modify e gone).entities d).syncStatus = _
      rw [hentities]
      split
      · exact Or.inl rfl
      · exact hk.events d
    · change ((k.modify e gone).entities d).synchronisableEvents ≠ [] → d ∈ rest
      rw [hentities]
      split
      · exact fun hne => absurd rfl hne
      · rename_i hde
        exact fun hne => hrest d hne hde
    · rw [hqueue]
      rcases hd with hd | hd
      · exact Or.inl (List.mem_cons_of_mem e hd)
      · rcases List.mem_append.mp hd with hd | hd
        · exact Or.inr hd
        · exact Or.inl (by simp [List.mem_singleton.mp hd])
    · by_cases hde : d = e
      · exact Or.inr (Or.inl (by simp [hde]))
      · rcases hd with hd | hd | hd
        · left
          change ((k.modify e gone).entities d).synchronisableEvents ≠ []
          rw [hentities, if_neg hde]
          exact hd
        · exact Or.inr (Or.inl (List.mem_append_left _ hd))
        · exact Or.inr (Or.inr hd)

theorem processItems (fuel : Nat) (hk : DeactivatedFrom h k)
    (hfuel : k.synchronisableEvents.length ≤ fuel) :
    DeactivatedFrom h (ZstHierarchy.processItems v fuel k) ∧
      (∀ d, GoneOnceDrained h k d → GoneOnceDrained h (ZstHierarchy.processItems v fuel k) d) ∧
      (ZstHierarchy.processItems v fuel k).synchronisableEvents = [] := by
  induction fuel generalizing k with
  | zero => exact ⟨hk, fun _ hd => hd, List.length_eq_zero_iff.mp (Nat.le_zero.mp hfuel)⟩
  | succ fuel ih =>
    unfold ZstHierarchy.processItems
    split
    · rename_i hqueue
      exact ⟨hk, fun _ hd => hd, hqueue⟩
    · rename_i e rest hqueue
      obtain ⟨hitem, hdoomed, hrest⟩ := hk.processItem v hqueue
      have hlength : rest.length ≤ fuel := by
        rw [hqueue, List.length_cons] at hfuel
        omega
      obtain ⟨hlast, hdoomed', hnil⟩ := ih hitem (by rw [hrest]; exact hlength)
      exact ⟨hlast, fun d hd => hdoomed' d (hdoomed d hd), hnil⟩

/-- A cleanup callback of a local entity only erases its key. -/
theorem cleanup (hk : DeactivatedFrom h k) {e : EntityId} {rest : List EntityId}
    (hops : k.cleanupOps = e :: rest) :
    DeactivatedFrom h (ZstHierarchy.cleanup v { k with cleanupOps := rest } e) ∧
      (∀ d, GoneOnceDrained h k d →
        GoneOnceDrained h (ZstHierarchy.cleanup v { k with cleanupOps := rest } e) d) ∧
      (ZstHierarchy.cleanup v { k with cleanupOps := rest } e).cleanupOps = rest ∧
      (ZstHierarchy.cleanup v { k with cleanupOps := rest } e).synchronisableEvents =
        k.synchronisableEvents := by
  have howned : (k.entities e).isProxy = false := by
    rw [hk.field Entity.isProxy fun _ => rfl]
    exact hk.owned e (Or.inr (by simp [hops]))
  have huri : (k.entities e).uri = (h.entities e).uri := hk.field Entity.uri (fun _ => rfl) e
  have hclean : ZstHierarchy.cleanup v { k with cleanupOps := rest } e =
      { k with
        cleanupOps := rest
        lookup := Function.update k.lookup (h.entities e).uri none
        freedAccess := k.freedAccess || !k.live e } := by
    simp [ZstHierarchy.cleanup, hk.deadIDs, howned, removeEntityFromLookup, huri]
  rw [hclean]
  refine ⟨{ hk with lookup := fun q => ?_, owned := fun d hd => hk.owned d ?_ },
    fun d hd => ?_, rfl, rfl⟩
  · change Function.update k.lookup (h.entities e).uri none q = none ∨
      Function.update k.lookup (h.entities e).uri none q = h.lookup q
    by_cases hq : q = (h.entities e).uri
    · left
      rw [hq, Function.update_self]
    · rw [Function.update_of_ne hq]
      exact hk.lookup q
  · rw [hops]
    exact hd.imp id (List.mem_cons_of_mem e)
  · have hgone : ∀ d, k.lookup (h.entities d).uri = none ∨ d = e →
        Function.update k.lookup (h.entities e).uri none (h.entities d).uri = none := by
      rintro d (hnone | rfl)
      · by_cases hd : (h.entities d).uri = (h.entities e).uri
        · rw [hd, Function.update_self]
        · rw [Function.update_of_ne hd, hnone]
      · exact Function.update_self _ _ _
    rcases hd with hd | hd | hd
    · exact Or.inl hd
    · rw [hops] at hd
      rcases List.mem_cons.mp hd with hde | hd
      · exact Or.inr (Or.inr (hgone d (Or.inr hde)))
      · exact Or.inr (Or.inl hd)
    · exact Or.inr (Or.inr (hgone d (Or.inl hd)))

theorem reapAll (fuel : Nat) (hk : DeactivatedFrom h k) (hfuel : k.cleanupOps.length ≤ fuel) :
    DeactivatedFrom h (ZstHierarchy.reapAll v fuel k) ∧
      (∀ d, GoneOnceDrained h k d → GoneOnceDrained h (ZstHierarchy.reapAll v fuel k) d) ∧
      (ZstHierarchy.reapAll v fuel k).cleanupOps = [] ∧
      (ZstHierarchy.reapAll v fuel k).synchronisableEvents = k.synchronisableEvents := by
  induction fuel generalizing k with
  | zero => exact ⟨hk, fun _ hd => hd, List.length_eq_zero_iff.mp (Nat.le_zero.mp hfuel), rfl⟩
  | succ fuel ih =>
    unfold ZstHierarchy.reapAll
    split
    · rename_i hops
      exact ⟨hk, fun _ hd => hd, hops, rfl⟩
    · rename_i e rest hops
      obtain ⟨hclean, hdoomed, hrest, hqueue⟩ := hk.cleanup v hops
      have hlength : rest.length ≤ fuel := by
        rw [hops, List.length_cons] at hfuel
        omega
      obtain ⟨hlast, hdoomed', hnil, hqueue'⟩ := ih hclean (by rw [hrest]; exact hlength)
      exact ⟨hlast, fun d hd => hdoomed' d (hdoomed d hd), hnil, hqueue'.trans hqueue⟩

/-- A drain takes the deactivated entities off the lookup table. -/
theorem processEvents (fuel : Nat) (hk : DeactivatedFrom h k) :
    DeactivatedFrom h (ZstClientHierarchy.processEvents v fuel k) ∧
      Drained (ZstClientHierarchy.processEvents v fuel k) ∧
      ∀ d, GoneOnceDrained h k d →
        (ZstClientHierarchy.processEvents v fuel k).lookup (h.entities d).uri = none := by
  have hevents : k.hierarchyEvents.foldl processHierarchyEvent { k with hierarchyEvents := [] } =
      k := by
    rw [hk.hierarchyEvents]
    exact congrArg (fun events => { k with hierarchyEvents := events }) hk.hierarchyEvents.symm
  obtain ⟨hitems, hdoomed, hnil⟩ :=
    hk.processItems v (k.synchronisableEvents.length + fuel) (Nat.le_add_right _ _)
  unfold ZstClientHierarchy.processEvents
  rw [hevents]
  dsimp only
  generalize ZstHierarchy.processItems v (k.synchronisableEvents.length + fuel) k = l
    at hitems hdoomed hnil ⊢
  obtain ⟨hreaped, hdoomed', hops, hqueue⟩ :=
    hitems.reapAll v (l.cleanupOps.length + fuel) (Nat.le_add_right _ _)
  have hown : ∀ e, ((ZstHierarchy.reapAll v (l.cleanupOps.length + fuel) l).entities
      e).synchronisableEvents = [] := by
    intro e
    by_contra hne
    have hmem := hreaped.queued e hne
    rw [hqueue, hnil] at hmem
    cases hmem
  refine ⟨{ hreaped with deadIDs := rfl },
    ⟨hreaped.hierarchyEvents, hqueue.trans hnil, hops, rfl, hown⟩, fun d hd => ?_⟩
  rcases hdoomed' d (hdoomed d hd) with hd | hd | hd
  · exact absurd (hown d) hd
  · rw [hops] at hd
    cases hd
  · exact hd

end DeactivatedFrom

/-! ## Joins and leaves of a client -/

section Client

variable (fuel : Nat) (client : ZstClient) (root : EntityId)

theorem processEvents_hierarchy :
    (ZstClient.processEvents fuel client).hierarchy =
      ZstClientHierarchy.processEvents (overrides (okLink client.connectedToStage) fuel) fuel
        client.hierarchy := by
  have hevent : ∀ (s : ZstSession) (c : CableId) (event : SynchronisableEvent),
      (s.processCableEvent c event).hierarchy = s.hierarchy := by
    intro s c event
    cases event <;> rfl
  have hitem : ∀ (s : ZstSession) (c : CableId), (s.processCableItem c).hierarchy =
      s.hierarchy := fun s c =>
    List.foldlRecOn (motive := fun t : ZstSession => t.hierarchy = s.hierarchy) _ _ rfl
      fun t ht event _ => (hevent t c event).trans ht
  have hitems : ∀ s : ZstSession, s.processCableItems.hierarchy = s.hierarchy := fun s =>
    List.foldlRecOn (motive := fun t : ZstSession => t.hierarchy = s.hierarchy) _ _ rfl
      fun t ht c _ => (hitem t c).trans ht
  exact hitems _

/-- The hierarchy once the join request is sent. -/
def joinRequested : ZstHierarchy :=
  publish (okLink true) client.hierarchy
    { target := 0
      content :=
        .clientJoinRequest (client.hierarchy.entities root).serialize client.reliableAddress }

/-- What a completed join does after `join_stage_complete`. -/
def finishJoin (behaviour : SendBehaviour) (since : Nat) (h : ZstHierarchy) : ZstHierarchy :=
  let v := overrides (okLink true) fuel
  let h := if behaviour = .syncReply then ZstClientHierarchy.processEvents v fuel h else h
  ZstClientHierarchy.processEvents v fuel
    (answerRequests fuel (okLink true) h (h.sent.drop since))

/-- Not connected and not about to be. -/
def Offline : Prop :=
  client.isConnecting = false ∧ client.connectedToStage = false

theorem joinStageComplete_eq (behaviour : SendBehaviour) :
    (joinStageComplete fuel client root behaviour).hierarchy =
        (if behaviour = .syncReply then
          ZstClientHierarchy.processEvents (overrides (okLink true) fuel) fuel
            (joinHierarchy fuel client.hierarchy root behaviour)
        else joinHierarchy fuel client.hierarchy root behaviour) ∧
      (joinStageComplete fuel client root behaviour).connectedToStage = true := by
  unfold joinStageComplete
  dsimp only
  split
  · rw [processEvents_hierarchy, onHierarchy_hierarchy, onHierarchy_connectedToStage]
    exact ⟨rfl, rfl⟩
  · rw [onHierarchy_hierarchy]
    exact ⟨rfl, rfl⟩

variable {client}

theorem join_eq (hoffline : Offline client) {behaviour : SendBehaviour}
    (hb : behaviour ≠ .publish) :
    (join fuel client root behaviour).hierarchy =
        finishJoin fuel behaviour client.hierarchy.sent.length
          (joinHierarchy fuel (joinRequested client root) root behaviour) ∧
      (join fuel client root behaviour).connectedToStage = true := by
  have hjoin : joinStage fuel client root behaviour =
      joinStageComplete fuel
        ({ client with isConnecting := true }.onHierarchy fun _ => joinRequested client root)
        root behaviour := by
    unfold joinStage
    rw [hoffline.1, hoffline.2]
    simp only [Bool.or_self, Bool.false_eq_true, if_false, if_neg hb]
    rfl
  obtain ⟨hhierarchy, hconnected⟩ := joinStageComplete_eq fuel
    (({ client with isConnecting := true } : ZstClient).onHierarchy
      fun _ => joinRequested client root) root behaviour
  rw [← hjoin] at hhierarchy hconnected
  refine ⟨?_, hconnected⟩
  unfold join
  dsimp only
  rw [processEvents_hierarchy, onHierarchy_connectedToStage, hconnected, onHierarchy_hierarchy,
    hhierarchy, onHierarchy_hierarchy]
  rfl

/-- The hierarchy once the leave request is sent. -/
def leaveRequested (client : ZstClient) (root : EntityId) : ZstHierarchy :=
  publish (okLink true) client.hierarchy
    { target := 0, content := .clientLeaveRequest (client.hierarchy.entities root).uri .quit }

/-- What leaving queues for the root and its children. -/
def sleepRoot (h : ZstHierarchy) (root : EntityId) : ZstHierarchy :=
  ((nearEntities h root).foldl enqueueDeactivation h).enqueueDeactivation root

theorem leaveStage_eq (hconnected : client.connectedToStage = true) :
    (leaveStage fuel client root).hierarchy =
        ZstClientHierarchy.processEvents (overrides (okLink false) fuel) fuel
          (sleepRoot (leaveRequested client root) root) ∧
      Offline (leaveStage fuel client root) := by
  have hleave : leaveStageComplete fuel
      { client.onHierarchy (fun _ => leaveRequested client root) with isConnecting := false }
      root .publish =
      { client.onHierarchy (fun _ => sleepRoot (leaveRequested client root) root) with
        isConnecting := false
        connectedToStage := false } := by
    unfold leaveStageComplete
    rw [if_pos (by exact hconnected)]
    rfl
  have heq : leaveStage fuel client root = ZstClient.processEvents fuel
      { client.onHierarchy (fun _ => sleepRoot (leaveRequested client root) root) with
        isConnecting := false
        connectedToStage := false } := by
    rw [← hleave]
    unfold leaveStage
    rw [if_pos hconnected]
    rfl
  rw [heq, processEvents_hierarchy]
  exact ⟨rfl, rfl, rfl⟩

end Client

theorem Drained.publish {h : ZstHierarchy} (hh : Drained h) (link : StageLink) (m : Outgoing) :
    Drained (ZstClientHierarchy.publish link h m) := by
  unfold ZstClientHierarchy.publish
  split
  · exact ⟨hh.hierarchyEvents, hh.synchronisableEvents, hh.cleanupOps, hh.deadIDs, hh.events⟩
  · exact hh

/-- Leaving and draining takes the root and its children off the table. -/
theorem sleepRoot_leaving {h : ZstHierarchy} {root : EntityId} (hh : Drained h)
    (hnear : ∀ e ∈ nearEntities h root, (h.entities e).registered = true ∧
      (h.entities e).isProxy = false ∧ (h.entities e).syncStatus = .activated)
    (v : Overrides) (fuel : Nat) :
    let l := ZstClientHierarchy.processEvents v fuel (sleepRoot h root)
    DeactivatedFrom h l ∧ Drained l ∧
      ∀ e ∈ nearEntities h root, l.lookup (h.entities e).uri = none := by
  obtain ⟨⟨hleaving, -⟩, -, hdoomed⟩ := foldl_establishes enqueueDeactivation
    (nearEntities h root)
    (fun k => DeactivatedFrom h k ∧ ∀ e ∈ nearEntities h root,
      (k.entities e).syncStatus = .activated ∨ GoneOnceDrained h k e)
    (fun e k => GoneOnceDrained h k e)
    (fun k hk e he => by
      obtain ⟨hnext, hkeep, hdoomed, hothers⟩ :=
        hk.1.enqueueDeactivation (hnear e he).1 (hnear e he).2.1
      refine ⟨hnext, fun d hd => ?_⟩
      rcases hk.2 d hd with hstatus | hgone
      · by_cases hde : d = e
        · rw [hde] at hstatus ⊢
          exact Or.inr (hdoomed hstatus)
        · exact Or.inl (hothers d hstatus hde)
      · exact Or.inr (hkeep d hgone))
    (fun k hk e he => by
      obtain ⟨-, hkeep, hdoomed, -⟩ :=
        hk.1.enqueueDeactivation (hnear e he).1 (hnear e he).2.1
      exact (hk.2 e he).elim hdoomed (hkeep e))
    (fun k hk e he d hd =>
      (hk.1.enqueueDeactivation (hnear e he).1 (hnear e he).2.1).2.1 d hd)
    ⟨DeactivatedFrom.of_drained hh, fun e he => Or.inl (hnear e he).2.2⟩
  have hroot := hnear root List.mem_cons_self
  obtain ⟨hlast, hkeep, -⟩ := hleaving.enqueueDeactivation hroot.1 hroot.2.1
  obtain ⟨hl, hdrained, hgone⟩ := hlast.processEvents v fuel
  exact ⟨hl, hdrained, fun e he => hgone e (hkeep e (hdoomed e he))⟩

/-- The rest of a join keeps who is awake, and wakes whoever was requested. -/
theorem finishJoin_waking {h k : ZstHierarchy} (tree : RegisteredTree h) (fuel : Nat)
    (behaviour : SendBehaviour) (hk : Waking h k) :
    let l := finishJoin fuel behaviour h.sent.length k
    Waking h l ∧ Progress k l ∧ Drained l ∧ l.sent = k.sent ∧
      ∀ e, CompletionRequested h k e → Awake l e := by
  have hdrain : ∃ m, m = (if behaviour = .syncReply then
        ZstClientHierarchy.processEvents (overrides (okLink true) fuel) fuel k else k) ∧
      Waking h m ∧ Progress k m ∧ m.sent = k.sent := by
    refine ⟨_, rfl, ?_⟩
    split
    · obtain ⟨hm, hprogress, -, hsent⟩ :=
        processEvents_waking (overrides (okLink true) fuel) fuel hk
      exact ⟨hm, hprogress, hsent⟩
    · exact ⟨hk, .refl k, rfl⟩
  obtain ⟨m, hm, hwaking, hprogress, hsent⟩ := hdrain
  obtain ⟨hanswered, hanswers, hsent', hawake⟩ := answerRequests_waking tree fuel hwaking
  obtain ⟨hlast, hlastProgress, hdrained, hsent''⟩ :=
    processEvents_waking (overrides (okLink true) fuel) fuel hanswered
  unfold finishJoin
  dsimp only
  rw [← hm]
  refine ⟨hlast, (hprogress.trans hanswers).trans hlastProgress, hdrained,
    hsent''.trans (hsent'.trans hsent), fun e he => ?_⟩
  exact hlastProgress.awake e (hawake e (hprogress.requested he))

/-! ## The first join -/

/-- A client that has a tree below its root performer and has not joined yet. -/
structure NeverJoined (client : ZstClient) (root : EntityId) : Prop where
  offline : Offline client
  tree : RegisteredTree client.hierarchy
  rooted : client.hierarchy.root = some root
  allocated : ∀ e, client.hierarchy.InTree e → e < client.hierarchy.next
  owned : ∀ e, client.hierarchy.Below root e → (client.hierarchy.entities e).isProxy = false
  deactivated : ∀ e, client.hierarchy.Below root e →
    (client.hierarchy.entities e).syncStatus = .deactivated
  drained : Drained client.hierarchy

/-- What a completed join owes to the tree `h` below the root. -/
structure TreeJoined (h : ZstHierarchy) (root : EntityId) (before after : ZstHierarchy) :
    Prop where
  found : ∀ d, h.Below root d → after.findEntity (h.entities d).uri = some d
  activated : ∀ d, h.Below root d → (after.entities d).syncStatus = .activated
  named : ∀ d, h.Below root d → d ≠ root → AskedToCreate before after (h.entities d).uri

namespace NeverJoined

variable {client : ZstClient} {root : EntityId} (fresh : NeverJoined client root)

include fresh

theorem inTree : client.hierarchy.InTree root :=
  (fresh.tree.root root fresh.rooted).1

theorem near_below {e : EntityId} (he : e ∈ nearEntities client.hierarchy root) :
    client.hierarchy.Below root e := by
  rcases List.mem_cons.mp he with rfl | he
  · exact .refl
  · exact .single (fresh.tree.hasChild_of_mem he)

theorem near_registered {e : EntityId} (he : e ∈ nearEntities client.hierarchy root) :
    (client.hierarchy.entities e).registered = true :=
  fresh.tree.registered (fresh.tree.inTree_of_below fresh.inTree (fresh.near_below he))

theorem requested : Waking client.hierarchy (joinRequested client root) :=
  (Waking.of_drained fresh.drained).publish _ (by simp)

theorem items {e : EntityId} (he : e ∈ (client.hierarchy.getChildEntities root).drop 1) :
    client.hierarchy.InTree e ∧ (client.hierarchy.entities e).parentAddress ≠ [] := by
  obtain ⟨hbelow, hne⟩ := (fresh.tree.mem_drop_one fresh.allocated fresh.inTree).mp he
  exact ⟨fresh.tree.inTree_of_below fresh.inTree hbelow,
    fresh.tree.address_of_below fresh.inTree hbelow hne⟩

/-- Waking the root names nobody. -/
theorem wakeRoot_unnamed (path : ZstURI) :
    ¬AskedToCreate client.hierarchy (wakeRoot (joinRequested client root) root) path := by
  have hsent := (wakeRoot_waking fresh.requested fun e he => fresh.near_registered he).2.2.2.2
  rintro ⟨m, hm, buffer, hcontent, -⟩
  rw [hsent] at hm
  have hrequest : (joinRequested client root).sent = client.hierarchy.sent ++
      [{ target := 0
         content := .clientJoinRequest (client.hierarchy.entities root).serialize
           client.reliableAddress }] := rfl
  rw [hrequest, List.append_assoc, List.drop_left] at hm
  simp only [List.cons_append, List.nil_append, List.mem_cons, List.not_mem_nil, or_false] at hm
  rcases hm with rfl | rfl <;> simp at hcontent

/-- The hierarchy after the activations of the first join. -/
theorem activations (fuel : Nat) (behaviour : SendBehaviour) :
    ∃ a, a = activateAll (overrides (okLink true) fuel) fuel behaviour
        ((client.hierarchy.getChildEntities root).drop 1)
        (wakeRoot (joinRequested client root) root) ∧
      Waking client.hierarchy a ∧
      joinHierarchy fuel (joinRequested client root) root behaviour =
        a.enqueueActivation root ∧
      ∀ e ∈ nearEntities client.hierarchy root, Awake a e := by
  obtain ⟨hwoken, -, hnear, -⟩ :=
    wakeRoot_waking fresh.requested fun e he => fresh.near_registered he
  obtain ⟨hall, hprogress⟩ := activateAll_progress fresh.tree (overrides (okLink true) fuel) fuel
    (fun e he => fresh.items he) behaviour hwoken
  refine ⟨_, rfl, hall, ?_, fun e he => hprogress.awake e (hnear e he)⟩
  rw [joinHierarchy_eq, hwoken.getChildEntities_eq]

/-- Asynchronously, the first join activates and names the whole tree. -/
theorem activations_async (fuel : Nat) {behaviour : SendBehaviour}
    (hb : behaviour ≠ .syncReply) :
    ∀ e ∈ (client.hierarchy.getChildEntities root).drop 1,
      AskedToCreate client.hierarchy (activateAll (overrides (okLink true) fuel) fuel behaviour
        ((client.hierarchy.getChildEntities root).drop 1)
        (wakeRoot (joinRequested client root) root)) (client.hierarchy.entities e).uri ∧
      CompletionRequested client.hierarchy (activateAll (overrides (okLink true) fuel) fuel
        behaviour ((client.hierarchy.getChildEntities root).drop 1)
        (wakeRoot (joinRequested client root) root)) e := by
  obtain ⟨hwoken, -, -, hasleep, -⟩ :=
    wakeRoot_waking fresh.requested fun e he => fresh.near_registered he
  refine activateAll_async fresh.tree _ fuel (fun e he => fresh.items he) hb hwoken ?_
  intro e he
  refine hasleep e ?_
  have hbelow := ((fresh.tree.mem_drop_one fresh.allocated fresh.inTree).mp he).1
  change (client.hierarchy.entities e).syncStatus ≠ .activated
  rw [fresh.deactivated e hbelow]
  simp

/-- The first activation of a synchronous join. -/
theorem activations_sync (fuel : Nat) {c : EntityId} {others : List EntityId}
    (hchildren : client.hierarchy.childEntities root = c :: others) :
    ∃ rest, (client.hierarchy.getChildEntities root).drop 1 = c :: rest ∧
      ∃ first, first = activateEntity (overrides (okLink true) fuel) (okLink true) fuel
          (wakeRoot (joinRequested client root) root) c .syncReply ∧
        Waking client.hierarchy first ∧ Drained first ∧
        (∀ e ∈ nearEntities client.hierarchy root, Awake first e) ∧
        (∀ path, AskedToCreate client.hierarchy first path ↔
          ∃ d ∈ client.hierarchy.getChildEntities c, (client.hierarchy.entities d).uri = path) ∧
        ∀ d ∈ client.hierarchy.getChildEntities c, Awake first d := by
  obtain ⟨n, hcons⟩ := getChildEntities_eq_cons (fresh.allocated root fresh.inTree)
  have hitems : ∃ rest, (client.hierarchy.getChildEntities root).drop 1 = c :: rest := by
    rw [hcons, hchildren]
    cases n with
    | zero => exact ⟨_, rfl⟩
    | succ n => exact ⟨_, rfl⟩
  obtain ⟨rest, hrest⟩ := hitems
  obtain ⟨hwoken, -, hnear, hasleep, -⟩ :=
    wakeRoot_waking fresh.requested fun e he => fresh.near_registered he
  have hc : c ∈ (client.hierarchy.getChildEntities root).drop 1 := by
    rw [hrest]
    exact List.mem_cons_self
  have hstatus : ((wakeRoot (joinRequested client root) root).entities c).syncStatus ≠
      .activated := by
    have hbelow := ((fresh.tree.mem_drop_one fresh.allocated fresh.inTree).mp hc).1
    refine hasleep c ?_
    change (client.hierarchy.entities c).syncStatus ≠ .activated
    rw [fresh.deactivated c hbelow]
    simp
  obtain ⟨hfirst, hprogress, hnamed, hsync, -⟩ := activateEntity_waking fresh.tree
    (overrides (okLink true) fuel) fuel hwoken (fresh.items hc).1 (fresh.items hc).2 hstatus
    .syncReply
  refine ⟨rest, hrest, _, rfl, hfirst, (hsync rfl).1,
    fun e he => hprogress.awake e (hnear e he), fun path => ?_, (hsync rfl).2⟩
  rw [hnamed]
  exact or_iff_right (fresh.wakeRoot_unnamed path)

/-- The first join keeps the tree, and it wakes the root and its children. -/
theorem firstJoin (fuel : Nat) {behaviour : SendBehaviour} (hb : behaviour ≠ .publish) :
    ∃ a, a = activateAll (overrides (okLink true) fuel) fuel behaviour
        ((client.hierarchy.getChildEntities root).drop 1)
        (wakeRoot (joinRequested client root) root) ∧
      Waking client.hierarchy (join fuel client root behaviour).hierarchy ∧
      Drained (join fuel client root behaviour).hierarchy ∧
      (∀ e ∈ nearEntities client.hierarchy root,
        Awake (join fuel client root behaviour).hierarchy e) ∧
      (∀ path, AskedToCreate client.hierarchy (join fuel client root behaviour).hierarchy path ↔
        AskedToCreate client.hierarchy a path) ∧
      ∀ e, Awake a e ∨ CompletionRequested client.hierarchy a e →
        Awake (join fuel client root behaviour).hierarchy e := by
  obtain ⟨a, ha, hwaking, hjoin, hnear⟩ := fresh.activations fuel behaviour
  obtain ⟨hlast, hlastProgress, -⟩ :=
    enqueueActivation_waking hwaking (fresh.near_registered List.mem_cons_self)
  obtain ⟨hend, hprogress, hdrained, hsent, hrequested⟩ :=
    finishJoin_waking fresh.tree fuel behaviour hlast
  rw [← hjoin, ← (join_eq fuel root fresh.offline hb).1] at hend hprogress hdrained hsent hrequested
  have hawake : ∀ e, Awake a e ∨ CompletionRequested client.hierarchy a e →
      Awake (join fuel client root behaviour).hierarchy e := by
    rintro e (he | he)
    · exact hprogress.awake e (by rw [hjoin]; exact hlastProgress.awake e he)
    · exact hrequested e (by rw [hjoin]; exact hlastProgress.requested he)
  refine ⟨a, ha, hend, hdrained, fun e he => hawake e (Or.inl (hnear e he)), fun path => ?_, hawake⟩
  unfold AskedToCreate
  rw [hsent, hjoin, enqueueActivation_sent]

/-- Two different children are found. -/
theorem children_ne {c d : EntityId} {others : List EntityId}
    (hchildren : client.hierarchy.childEntities root = c :: d :: others) : c ≠ d := by
  have hnodup : (client.hierarchy.childEntities root).Nodup := by
    unfold childEntities
    split
    · refine (fresh.tree.nodup root fresh.inTree).filterMap fun q q' e hq hq' => ?_
      unfold getChildByURI at hq hq'
      rw [if_pos (fresh.tree.registered fresh.inTree), fresh.tree.findEntity_eq] at hq hq'
      rw [← (fresh.tree.keyed q e hq).1, (fresh.tree.keyed q' e hq').1]
    · exact List.nodup_nil
  rw [hchildren] at hnodup
  intro heq
  simp [heq] at hnodup

/-- The first join does its duty exactly if it is asynchronous or if the root
has at most one child. -/
theorem treeJoined_first_iff (fuel : Nat) {behaviour : SendBehaviour}
    (hb : behaviour ≠ .publish) :
    TreeJoined client.hierarchy root client.hierarchy (join fuel client root behaviour).hierarchy ↔
      behaviour = .asyncReply ∨ (client.hierarchy.childEntities root).length ≤ 1 := by
  obtain ⟨a, rfl, hwaking, hdrained, hnear, hnamed, hawake⟩ := fresh.firstJoin fuel hb
  have hfound : ∀ d, client.hierarchy.Below root d →
      (join fuel client root behaviour).hierarchy.findEntity (client.hierarchy.entities d).uri =
        some d := by
    intro d hd
    rw [hwaking.findEntity_eq, fresh.tree.findEntity_eq]
    exact fresh.tree.inTree_of_below fresh.inTree hd
  have htree : ∀ d, d ∈ (client.hierarchy.getChildEntities root).drop 1 ↔
      client.hierarchy.Below root d ∧ d ≠ root :=
    fun d => fresh.tree.mem_drop_one fresh.allocated fresh.inTree
  -- it is enough that the activations reach everything below the root
  have hjoined : (∀ e ∈ (client.hierarchy.getChildEntities root).drop 1,
      AskedToCreate client.hierarchy (join fuel client root behaviour).hierarchy
          (client.hierarchy.entities e).uri ∧
        Awake (join fuel client root behaviour).hierarchy e) →
      TreeJoined client.hierarchy root client.hierarchy
        (join fuel client root behaviour).hierarchy := by
    intro hall
    refine ⟨hfound, fun d hd => activated_of_awake hdrained ?_,
      fun d hd hne => (hall d ((htree d).mpr ⟨hd, hne⟩)).1⟩
    by_cases hne : d = root
    · rw [hne]
      exact hnear root List.mem_cons_self
    · exact (hall d ((htree d).mpr ⟨hd, hne⟩)).2
  by_cases hsync : behaviour = .syncReply
  · subst hsync
    have hasync : ¬SendBehaviour.syncReply = .asyncReply := by simp
    rw [or_iff_right hasync]
    cases hchildren : client.hierarchy.childEntities root with
    | nil =>
      refine iff_of_true (hjoined fun e he => ?_) (by simp)
      obtain ⟨n, hcons⟩ := getChildEntities_eq_cons (fresh.allocated root fresh.inTree)
      rw [hcons, hchildren] at he
      cases he
    | cons c others =>
      obtain ⟨rest, hrest, first, hfirst, hfirstWaking, hfirstDrained, hfirstNear, hfirstNamed,
        hfirstAwake⟩ := fresh.activations_sync fuel hchildren
      have hitems : ∀ e ∈ rest, client.hierarchy.InTree e ∧
          (client.hierarchy.entities e).parentAddress ≠ [] := fun e he =>
        fresh.items (by rw [hrest]; exact List.mem_cons_of_mem c he)
      have hloop : activateAll (overrides (okLink true) fuel) fuel .syncReply
          ((client.hierarchy.getChildEntities root).drop 1)
          (wakeRoot (joinRequested client root) root) =
          activateAll (overrides (okLink true) fuel) fuel .syncReply rest first := by
        rw [hrest, hfirst]
        rfl
      rw [hloop] at hnamed hawake
      cases others with
      | nil =>
        refine iff_of_true (hjoined fun e he => ?_) (by simp)
        have hec : e ∈ client.hierarchy.getChildEntities c := by
          obtain ⟨n, hcons⟩ := getChildEntities_eq_cons (fresh.allocated root fresh.inTree)
          rw [hcons, hchildren] at he
          have hbelow := fresh.tree.below_of_mem_descendants (by simpa using he)
          have hc : client.hierarchy.InTree c :=
            (fresh.items (by rw [hrest]; exact List.mem_cons_self)).1
          exact (fresh.tree.mem_getChildEntities fresh.allocated hc).mpr hbelow
        obtain ⟨-, hprogress⟩ := activateAll_progress fresh.tree
          (overrides (okLink true) fuel) fuel hitems .syncReply hfirstWaking
        refine ⟨(hnamed _).mpr (hprogress.named ((hfirstNamed _).mpr ⟨e, hec, rfl⟩)),
          hawake e (Or.inl (hprogress.awake e (hfirstAwake e hec)))⟩
      | cons d others =>
        -- the second child is activated by the first drain, before its turn comes
        refine iff_of_false (fun hduty => ?_) (by simp)
        have hmem : ∀ e ∈ [c, d], e ∈ client.hierarchy.childEntities root := by
          intro e he
          rw [hchildren]
          simp only [List.mem_cons, List.not_mem_nil, or_false] at he
          rcases he with rfl | rfl <;> simp
        have hc := fresh.tree.hasChild_of_mem (hmem c (by simp))
        have hd := fresh.tree.hasChild_of_mem (hmem d (by simp))
        have hdTree := fresh.tree.inTree_of_below fresh.inTree (.single hd)
        have hcRoot := fresh.tree.ne_of_below_child fresh.inTree hc .refl
        have hdRoot := fresh.tree.ne_of_below_child fresh.inTree hd .refl
        refine activateAll_sync_unnamed fresh.tree (overrides (okLink true) fuel) fuel hitems
          hdTree (fun e he hed => ?_) hfirstWaking hfirstDrained
          (hfirstNear d (List.mem_cons_of_mem _ (hmem d (by simp)))) (fun hnow => ?_)
          ((hnamed _).mp (hduty.named d (.single hd) hdRoot))
        · have he' := (htree e).mp (by rw [hrest]; exact List.mem_cons_of_mem c he)
          exact fresh.tree.eq_of_child_below fresh.inTree hd he'.1 he'.2 hed
        · obtain ⟨e, he, huri⟩ := (hfirstNamed _).mp hnow
          have hce := fresh.tree.below_of_mem_descendants he
          have heTree := fresh.tree.inTree_of_below
            (fresh.tree.inTree_of_below fresh.inTree (.single hc)) hce
          have hed : e = d := by
            unfold InTree at heTree hdTree
            rw [huri] at heTree
            exact Option.some.inj (heTree.symm.trans hdTree)
          exact fresh.children_ne hchildren
            (fresh.tree.eq_of_child_below fresh.inTree hd (.single hc) hcRoot (hed ▸ hce))
  · have hasync : behaviour = .asyncReply := by
      cases behaviour <;> simp_all
    refine iff_of_true (hjoined fun e he => ?_) (Or.inl hasync)
    obtain ⟨hname, hrequest⟩ := fresh.activations_async fuel hsync e he
    exact ⟨(hnamed _).mpr hname, hawake e (Or.inr hrequest)⟩

end NeverJoined
/-! ## Later joins -/

/-- The root of the tree `h` no longer finds any of its children. -/
structure LostChildren (h : ZstHierarchy) (root : EntityId) (client : ZstClient) : Prop where
  offline : Offline client
  drained : Drained client.hierarchy
  rooted : client.hierarchy.root = some root
  same : idle (client.hierarchy.entities root) = idle (h.entities root)
  lost : ∀ q ∈ (h.entities root).children, client.hierarchy.lookup q = none

section Cycles

variable {h : ZstHierarchy} {root : EntityId} (fuel : Nat) {client : ZstClient}
  {behaviour : SendBehaviour}

/-- A root that does not find its children has none. -/
theorem childEntities_of_lost (hregistered : (h.entities root).registered = true)
    (hroot : h.root = some root)
    (hlost : ∀ q ∈ (h.entities root).children, q ≠ (h.entities root).uri ∧ h.lookup q = none) :
    h.childEntities root = [] := by
  unfold childEntities
  split
  · refine List.filterMap_eq_nil_iff.mpr fun q hq => ?_
    simp [getChildByURI, hregistered, findEntity, hroot, (hlost q hq).1.symm, hlost q hq]
  · rfl

namespace LostChildren

variable (alone : LostChildren h root client) (tree : RegisteredTree h) (hroot : h.InTree root)

include alone

theorem field {β : Type} (f : Entity → β) (hf : ∀ x, f (idle x) = f x) :
    f (client.hierarchy.entities root) = f (h.entities root) := by
  rw [← hf, alone.same, hf]

include tree hroot

theorem registered : (client.hierarchy.entities root).registered = true := by
  rw [alone.field Entity.registered fun _ => rfl]
  exact tree.registered hroot

theorem childEntities : client.hierarchy.childEntities root = [] := by
  refine childEntities_of_lost (alone.registered tree hroot) alone.rooted fun q hq => ?_
  rw [alone.field Entity.children fun _ => rfl] at hq
  rw [alone.field Entity.uri fun _ => rfl]
  obtain ⟨c, s, -, -, rfl⟩ := tree.child root hroot q hq
  exact ⟨by simp, alone.lost _ hq⟩

/-- A join of a root without children wakes the root, and nothing else. -/
theorem join (hb : behaviour ≠ .publish) :
    Waking client.hierarchy (ZstClient.join fuel client root behaviour).hierarchy ∧
      Drained (ZstClient.join fuel client root behaviour).hierarchy ∧
      ((ZstClient.join fuel client root behaviour).hierarchy.entities root).syncStatus =
        .activated := by
  have hchildren := alone.childEntities tree hroot
  have hregistered := alone.registered tree hroot
  have hnear : ∀ e ∈ nearEntities client.hierarchy root,
      (client.hierarchy.entities e).registered = true := by
    intro e he
    simp only [nearEntities, hchildren, List.mem_singleton] at he
    rw [he]
    exact hregistered
  have hrequested : Waking client.hierarchy (joinRequested client root) :=
    (Waking.of_drained alone.drained).publish _ (by simp)
  obtain ⟨hwoken, -, hawake, -, hsent⟩ := wakeRoot_waking hrequested hnear
  obtain ⟨hlast, hlastProgress, -⟩ := enqueueActivation_waking hwoken hregistered
  have hitems : (client.hierarchy.getChildEntities root).drop 1 = [] := by
    unfold getChildEntities
    cases client.hierarchy.next <;> simp [descendants, hchildren]
  have hjoin : joinHierarchy fuel (joinRequested client root) root behaviour =
      (wakeRoot (joinRequested client root) root).enqueueActivation root := by
    rw [joinHierarchy_eq, hwoken.getChildEntities_eq, hitems]
    rfl
  -- neither of the two messages waits for a response
  have hquiet : ∀ k : ZstHierarchy,
      k.sent = (wakeRoot (joinRequested client root) root).sent →
      answerRequests fuel (okLink true) k (k.sent.drop client.hierarchy.sent.length) = k := by
    intro k hk
    have hrequest : (joinRequested client root).sent = client.hierarchy.sent ++
        [{ target := 0
           content := .clientJoinRequest (client.hierarchy.entities root).serialize
             client.reliableAddress }] := rfl
    unfold answerRequests
    rw [hk, hsent, hrequest, List.append_assoc, List.drop_left]
    rfl
  rw [(join_eq fuel root alone.offline hb).1, hjoin]
  unfold finishJoin
  dsimp only
  generalize hv : overrides (okLink true) fuel = v
  obtain ⟨hdrain, hdrainProgress, -, hdrainSent⟩ := processEvents_waking v fuel hlast
  split
  · rw [hquiet _ (hdrainSent.trans (enqueueActivation_sent _ _))]
    obtain ⟨hend, hprogress, hdrained, -⟩ := processEvents_waking v fuel hdrain
    exact ⟨hend, hdrained, activated_of_awake hdrained (hprogress.awake root
      (hdrainProgress.awake root (hlastProgress.awake root (hawake root List.mem_cons_self))))⟩
  · rw [hquiet _ (enqueueActivation_sent _ _)]
    obtain ⟨hend, hprogress, hdrained, -⟩ := processEvents_waking v fuel hlast
    exact ⟨hend, hdrained, activated_of_awake hdrained (hprogress.awake root
      (hlastProgress.awake root (hawake root List.mem_cons_self)))⟩

end LostChildren

/-- Leaving after a join takes the children that the root has found off the table. -/
theorem alone_of_leave {k : ZstHierarchy}
    (hconnected : client.connectedToStage = true) (hdrained : Drained client.hierarchy)
    (hk : Waking k client.hierarchy) (hkroot : k.root = some root)
    (hsame : idle (k.entities root) = idle (h.entities root))
    (hnear : ∀ e ∈ nearEntities k root, (k.entities e).registered = true ∧
      (k.entities e).isProxy = false ∧ Awake client.hierarchy e)
    (hlost : ∀ q ∈ (h.entities root).children,
      k.lookup q = none ∨ ∃ c ∈ k.childEntities root, (k.entities c).uri = q) :
    LostChildren h root (leaveStage fuel client root) := by
  obtain ⟨hleave, hoffline⟩ := leaveStage_eq fuel root hconnected
  have hnearEq : nearEntities (leaveRequested client root) root = nearEntities k root := by
    change nearEntities client.hierarchy root = _
    unfold nearEntities
    rw [hk.childEntities_eq]
  obtain ⟨hleaving, hlast, hgone⟩ := sleepRoot_leaving
    (hdrained.publish (okLink true)
      { target := 0, content := .clientLeaveRequest (client.hierarchy.entities root).uri .quit })
    (fun e he => by
      obtain ⟨hregistered, howned, hawake⟩ := hnear e (by rw [← hnearEq]; exact he)
      refine ⟨?_, ?_, activated_of_awake hdrained hawake⟩
      · exact (hk.field Entity.registered (fun _ => rfl) e).trans hregistered
      · exact (hk.field Entity.isProxy (fun _ => rfl) e).trans howned)
    (overrides (okLink false) fuel) fuel
  rw [← leaveRequested, ← hleave] at hleaving hlast hgone
  refine ⟨hoffline, hlast, ?_, ?_, fun q hq => ?_⟩
  · rw [hleaving.root]
    exact hk.root.trans hkroot
  · rw [hleaving.entities]
    exact (hk.entities root).trans hsame
  · rcases hlost q hq with hnone | ⟨c, hc, huri⟩
    · rcases hleaving.lookup q with hq | hq
      · exact hq
      · rw [hq]
        exact (congrFun hk.lookup q).trans hnone
    · have hcgone := hgone c (by rw [hnearEq]; exact List.mem_cons_of_mem _ hc)
      have huri' : ((leaveRequested client root).entities c).uri = q :=
        (hk.field Entity.uri (fun _ => rfl) c).trans huri
      rwa [huri'] at hcgone

/-- One cycle of a client: a join and a leave. -/
def cycle (root : EntityId) (client : ZstClient) (behaviour : SendBehaviour) : ZstClient :=
  leaveStage fuel (join fuel client root behaviour) root

theorem NeverJoined.cycle (fresh : NeverJoined client root) (hb : behaviour ≠ .publish) :
    LostChildren client.hierarchy root (Rejoin.cycle fuel root client behaviour) := by
  obtain ⟨-, -, hwaking, hdrained, hnear, -⟩ := fresh.firstJoin fuel hb
  refine alone_of_leave fuel (join_eq fuel root fresh.offline hb).2
    hdrained hwaking fresh.rooted rfl (fun e he => ⟨fresh.near_registered he,
      fresh.owned e (fresh.near_below he), hnear e he⟩) (fun q hq => Or.inr ?_)
  obtain ⟨c, s, hlookup, -⟩ := fresh.tree.child root fresh.inTree q hq
  exact ⟨c, fresh.tree.mem_childEntities fresh.inTree ⟨q, hq, hlookup⟩,
    (fresh.tree.keyed q c hlookup).1⟩

theorem LostChildren.cycle (alone : LostChildren h root client) (tree : RegisteredTree h)
    (hroot : h.InTree root) (howned : (h.entities root).isProxy = false)
    (hb : behaviour ≠ .publish) : LostChildren h root
    (Rejoin.cycle fuel root client behaviour) := by
  obtain ⟨hwaking, hdrained, hstatus⟩ := alone.join fuel tree hroot hb
  refine alone_of_leave fuel (join_eq fuel root alone.offline hb).2 hdrained hwaking
    alone.rooted alone.same (fun e he => ?_) (fun q hq => Or.inl (alone.lost q hq))
  simp only [nearEntities, alone.childEntities tree hroot, List.mem_singleton] at he
  rw [he]
  refine ⟨alone.registered tree hroot, ?_, Or.inl hstatus⟩
  rw [alone.field Entity.isProxy fun _ => rfl]
  exact howned

theorem NeverJoined.cycles (fresh : NeverJoined client root) {first : SendBehaviour}
    {later : List SendBehaviour} (hfirst : first ≠ .publish) (hlater : ∀ b ∈ later, b ≠ .publish) :
    LostChildren client.hierarchy root
      ((first :: later).foldl (Rejoin.cycle fuel root) client) := by
  rw [List.foldl_cons]
  refine List.foldlRecOn (motive := LostChildren client.hierarchy root) _ _
    (fresh.cycle fuel hfirst) fun other alone b hb => ?_
  exact alone.cycle fuel fresh.tree fresh.inTree (fresh.owned root .refl) (hlater b hb)

/-- A later join does its duty exactly if the root never had a child. -/
theorem LostChildren.treeJoined_later_iff {built : ZstClient} (fresh : NeverJoined built root)
    (alone : LostChildren built.hierarchy root client) (hb : behaviour ≠ .publish) :
    TreeJoined built.hierarchy root client.hierarchy
        (ZstClient.join fuel client root behaviour).hierarchy ↔
      built.hierarchy.childEntities root = [] := by
  obtain ⟨hwaking, hdrained, hstatus⟩ := alone.join fuel fresh.tree fresh.inTree hb
  have hrootUri : (client.hierarchy.entities root).uri = (built.hierarchy.entities root).uri :=
    alone.field Entity.uri fun _ => rfl
  constructor
  · intro hduty
    refine List.eq_nil_iff_forall_not_mem.mpr fun c hc => ?_
    obtain ⟨q, hq, hlookup⟩ := fresh.tree.hasChild_of_mem hc
    have hfound := hduty.found c (.single ⟨q, hq, hlookup⟩)
    obtain ⟨-, s, -, -, huri⟩ := fresh.tree.child root fresh.inTree q hq
    rw [(fresh.tree.keyed q c hlookup).1, hwaking.findEntity_eq] at hfound
    simp [findEntity, alone.rooted, hrootUri, huri] at hfound
    have hlost := alone.lost q hq
    rw [huri, hfound] at hlost
    cases hlost
  · intro hchildren
    have honly : ∀ d, built.hierarchy.Below root d → d = root := by
      intro d hd
      rcases Relation.ReflTransGen.cases_head hd with rfl | ⟨c, hc, -⟩
      · rfl
      · have hmem := fresh.tree.mem_childEntities fresh.inTree hc
        rw [hchildren] at hmem
        cases hmem
    refine ⟨fun d hd => ?_, fun d hd => ?_, fun d hd hne => absurd (honly d hd) hne⟩
    · rw [honly d hd, hwaking.findEntity_eq]
      simp [findEntity, alone.rooted, hrootUri]
    · rw [honly d hd]
      exact hstatus

end Cycles

/-- After some cycles, a further join puts the whole tree on the stage again
exactly if the root has no children, or if there was no cycle before it and it
is asynchronous or the root has a single child. -/
theorem rejoined_iff (fuel : Nat) (client : ZstClient) (root : EntityId)
    (fresh : NeverJoined client root) (cycles : List SendBehaviour) (last : SendBehaviour)
    (hreply : ∀ b ∈ last :: cycles, b ≠ .publish) :
    TreeJoined client.hierarchy root (cycles.foldl (cycle fuel root) client).hierarchy
        (join fuel (cycles.foldl (cycle fuel root) client) root last).hierarchy ↔
      client.hierarchy.childEntities root = [] ∨
        cycles = [] ∧
          (last = .asyncReply ∨ (client.hierarchy.childEntities root).length ≤ 1) := by
  have hlast : last ≠ .publish := hreply last List.mem_cons_self
  cases cycles with
  | nil =>
    rw [List.foldl_nil, fresh.treeJoined_first_iff fuel hlast]
    constructor
    · exact fun hcondition => Or.inr ⟨rfl, hcondition⟩
    · rintro (hnil | ⟨-, hcondition⟩)
      · exact Or.inr (by simp [hnil])
      · exact hcondition
  | cons first later =>
    have alone := fresh.cycles fuel (hreply first (by simp)) fun b hb =>
      hreply b (List.mem_cons_of_mem _ (List.mem_cons_of_mem _ hb))
    rw [alone.treeJoined_later_iff fuel fresh hlast]
    simp

/-- A performer with a synthesiser and its output. -/
def soloTree : ZstHierarchy :=
  ofList
    [ { entityType := .performer, uri := ["ada"], registered := true
        children := [["ada", "synth"]] },
      { entityType := .component, uri := ["ada", "synth"], parentAddress := ["ada"]
        registered := true, children := [["ada", "synth", "out"]] },
      { entityType := .plug, uri := ["ada", "synth", "out"], parentAddress := ["ada", "synth"]
        registered := true, direction := .outJack } ] (some 0)

def soloClient : ZstClient where
  session :=
    { hierarchy := soloTree
      cableObjects := fun _ => { address := ⟨[], []⟩, input := 0, output := 0 } }

theorem soloTree_entities (e : EntityId) :
    (soloTree.entities e).isProxy = false ∧ (soloTree.entities e).syncStatus = .deactivated ∧
      (soloTree.entities e).synchronisableEvents = [] := by
  match e with
  | 0 => decide
  | 1 => decide
  | 2 => decide
  | n + 3 => exact ⟨rfl, rfl, rfl⟩

theorem soloClient_fresh : NeverJoined soloClient 0 where
  offline := ⟨rfl, rfl⟩
  tree := registeredTree_ofList (by decide) (by decide) (by decide) (by decide) (by decide)
  rooted := rfl
  allocated := fun _ he => (ofList_lookup he).1
  owned := fun e _ => (soloTree_entities e).1
  deactivated := fun e _ => (soloTree_entities e).2.1
  drained := ⟨rfl, rfl, rfl, rfl, fun e => (soloTree_entities e).2.2⟩

theorem rejoined_iff_solo :
    TreeJoined soloTree 0 soloTree (join 4 soloClient 0 .asyncReply).hierarchy ↔
      soloTree.childEntities 0 = [] ∨ ([] : List SendBehaviour) = [] ∧
        (SendBehaviour.asyncReply = .asyncReply ∨ (soloTree.childEntities 0).length ≤ 1) :=
  rejoined_iff 4 soloClient 0 soloClient_fresh [] .asyncReply (by simp)

/-- After one cycle the performer's synthesiser is gone from the lookup table,
and the second join neither finds nor announces it. -/
theorem rejoin_forgets_children :
    ¬ TreeJoined soloTree 0 (cycle 4 0 soloClient .asyncReply).hierarchy
      (join 4 (cycle 4 0 soloClient .asyncReply) 0 .asyncReply).hierarchy := by
  intro hjoined
  have hchild : soloTree.Below 0 1 := .single ⟨["ada", "synth"], by decide, by decide⟩
  have hfound := hjoined.found 1 hchild
  have hnone : (join 4 (cycle 4 0 soloClient .asyncReply) 0 .asyncReply).hierarchy.findEntity
      ["ada", "synth"] = none := by
    decide
  exact absurd (hnone.symm.trans hfound) (by simp)

end Showtime.Rejoin
