import Showtime.Connection
import Showtime.Library.Run
import Showtime.Tree
/-!
# Waking a tree

Activations, synchronous and not, keep a tree as it is: they only queue, run
and announce further activations. This module says which entities a step wakes
and which it names to the stage.
-/

namespace Showtime.Rejoin

open ZstHierarchy ZstClientHierarchy ZstClient Library

/-- An entity without the data that activation and deactivation change. -/
def idle (x : Entity) : Entity :=
  { x with
    sessionAdaptor := false
    syncStatus := .deactivated
    synchronisableEvents := []
    cables := []
    canFire := false }

/-- Nothing is queued anywhere. -/
structure Drained (h : ZstHierarchy) : Prop where
  hierarchyEvents : h.hierarchyEvents = []
  synchronisableEvents : h.synchronisableEvents = []
  cleanupOps : h.cleanupOps = []
  deadIDs : h.deadIDs = []
  events : ∀ e, (h.entities e).synchronisableEvents = []

/-! ## While entities are woken -/

/-- The second hierarchy comes from the first by activations, some of which may
still be queued or wait for a response. -/
structure Waking (h k : ZstHierarchy) : Prop where
  entities : ∀ e, idle (k.entities e) = idle (h.entities e)
  lookup : k.lookup = h.lookup
  next : k.next = h.next
  root : k.root = h.root
  hierarchyEvents : k.hierarchyEvents = []
  cleanupOps : k.cleanupOps = []
  deadIDs : k.deadIDs = []
  events : ∀ e, ∀ event ∈ (k.entities e).synchronisableEvents, event = .activated
  queued : ∀ e, (k.entities e).synchronisableEvents ≠ [] → e ∈ k.synchronisableEvents
  sent : ∃ messages, k.sent = h.sent ++ messages ∧ ∀ m ∈ messages, ∀ action,
    m.onRecvResponse = some action → ∃ e, action = .entityActivated e none ∧ h.InTree e

/-- The entity is activated, or will be once the events are drained. -/
def Awake (h : ZstHierarchy) (e : EntityId) : Prop :=
  (h.entities e).syncStatus = .activated ∨ (h.entities e).synchronisableEvents ≠ []

/-- A message since the first hierarchy asks the stage to create the entity at
the path. -/
def AskedToCreate (h k : ZstHierarchy) (path : ZstURI) : Prop :=
  ∃ m ∈ k.sent.drop h.sent.length, ∃ buffer,
    m.content = .entityCreateRequest buffer ∧ buffer.uri = path

/-- The response to some message since the first hierarchy completes the
activation of the entity. -/
def CompletionRequested (h k : ZstHierarchy) (e : EntityId) : Prop :=
  ∃ m ∈ k.sent.drop h.sent.length, m.onRecvResponse = some (.entityActivated e none)

/-- The second hierarchy is further on its way: nobody falls asleep again, and
no message is taken back. -/
structure Progress (h k : ZstHierarchy) : Prop where
  awake : ∀ e, Awake h e → Awake k e
  sent : h.sent <+: k.sent

namespace Progress

variable {h k l : ZstHierarchy}

theorem refl (h : ZstHierarchy) : Progress h h :=
  ⟨fun _ he => he, List.prefix_refl _⟩

theorem trans (hk : Progress h k) (kl : Progress k l) : Progress h l :=
  ⟨fun e he => kl.awake e (hk.awake e he), hk.sent.trans kl.sent⟩

theorem named (hk : Progress k l) {path : ZstURI} (hnamed : AskedToCreate h k path) :
    AskedToCreate h l path := by
  obtain ⟨m, hm, hcontent⟩ := hnamed
  exact ⟨m, (hk.sent.drop _).subset hm, hcontent⟩

theorem requested (hk : Progress k l) {e : EntityId} (he : CompletionRequested h k e) :
    CompletionRequested h l e := by
  obtain ⟨m, hm, haction⟩ := he
  exact ⟨m, (hk.sent.drop _).subset hm, haction⟩

end Progress

namespace Waking

variable {h k : ZstHierarchy}

theorem of_drained (hh : Drained h) : Waking h h :=
  ⟨fun _ => rfl, rfl, rfl, rfl, hh.hierarchyEvents, hh.cleanupOps, hh.deadIDs,
    fun e event hevent => by simp [hh.events e] at hevent,
    fun e hne => absurd (hh.events e) hne, [], by simp, by simp⟩

theorem field {β : Type} (hk : Waking h k) (f : Entity → β) (hf : ∀ x, f (idle x) = f x)
    (e : EntityId) : f (k.entities e) = f (h.entities e) := by
  rw [← hf, hk.entities e, hf]

theorem findEntity_eq (hk : Waking h k) (path : ZstURI) :
    k.findEntity path = h.findEntity path := by
  simp only [findEntity, hk.root, hk.lookup, hk.field Entity.uri fun _ => rfl]

theorem sameShape (hk : Waking h k) : SameShape h k :=
  ⟨hk.next, hk.findEntity_eq, hk.field Entity.registered fun _ => rfl,
    hk.field Entity.isComponent fun _ => rfl, hk.field Entity.children fun _ => rfl⟩

theorem childEntities_eq (hk : Waking h k) (e : EntityId) :
    k.childEntities e = h.childEntities e :=
  hk.sameShape.childEntities_eq e

theorem getChildEntities_eq (hk : Waking h k) (e : EntityId) :
    k.getChildEntities e = h.getChildEntities e :=
  hk.sameShape.getChildEntities_eq e

/-- An entity may change where activation changes it, but for its own events. -/
theorem modify (hk : Waking h k) (e : EntityId) (f : Entity → Entity)
    (hidle : idle (f (k.entities e)) = idle (k.entities e))
    (hevents : (f (k.entities e)).synchronisableEvents = (k.entities e).synchronisableEvents) :
    Waking h (k.modify e f) := by
  have hown : ∀ d, ((k.modify e f).entities d).synchronisableEvents =
      (k.entities d).synchronisableEvents := by
    intro d
    rw [modify_entities]
    split
    · rename_i hde
      rw [hevents, hde]
    · rfl
  refine { hk with entities := fun d => ?_, events := fun d => ?_, queued := fun d => ?_ }
  · rw [modify_entities]
    split
    · rename_i hde
      rw [hidle, hde, hk.entities]
    · exact hk.entities d
  · rw [hown]
    exact hk.events d
  · rw [hown]
    exact hk.queued d

theorem publish (hk : Waking h k) (link : StageLink) {m : Outgoing}
    (hm : ∀ action, m.onRecvResponse = some action →
      ∃ e, action = .entityActivated e none ∧ h.InTree e) :
    Waking h (ZstClientHierarchy.publish link k m) := by
  unfold ZstClientHierarchy.publish
  split
  · obtain ⟨messages, hsent, hactions⟩ := hk.sent
    refine { hk with sent := ⟨messages ++ [m], by simp [hsent], ?_⟩ }
    intro n hn
    rcases List.mem_append.mp hn with hn | hn
    · exact hactions n hn
    · rw [List.mem_singleton.mp hn]
      exact hm
  · exact hk

end Waking

/-! ## What a step leaves alone -/

theorem progress_modify (h : ZstHierarchy) (e : EntityId) (f : Entity → Entity)
    (hstatus : ∀ x, (f x).syncStatus = x.syncStatus)
    (hevents : ∀ x, (f x).synchronisableEvents = x.synchronisableEvents) :
    Progress h (h.modify e f) := by
  refine ⟨fun d hd => ?_, List.prefix_refl _⟩
  unfold Awake at hd ⊢
  rw [modify_entities]
  split
  · rename_i hde
    rw [hstatus, hevents, ← hde]
    exact hd
  · exact hd

theorem progress_foldl {α : Type} {f : ZstHierarchy → α → ZstHierarchy}
    (hf : ∀ h a, Progress h (f h a)) (items : List α) (h : ZstHierarchy) :
    Progress h (items.foldl f h) := by
  induction items generalizing h with
  | nil => exact .refl h
  | cons a items ih => exact (hf h a).trans (ih (f h a))

theorem progress_publish (link : StageLink) (h : ZstHierarchy) (m : Outgoing) :
    Progress h (publish link h m) := by
  unfold publish
  split
  · exact ⟨fun _ he => he, List.prefix_append _ _⟩
  · exact .refl h

theorem progress_onEntityArriving (h : ZstHierarchy) (e : EntityId) :
    Progress h (onEntityArriving h e) := by
  have hsession : Progress h (registerSession h e) := by
    refine progress_foldl (fun h c => ?_) _ h
    exact progress_modify h c _ (fun _ => rfl) fun _ => rfl
  refine hsession.trans (progress_foldl (fun h c => ?_) _ _)
  unfold initArrivingPlug
  split
  · exact progress_modify h c _ (fun _ => rfl) fun _ => rfl
  · exact .refl h

theorem Waking.onEntityArriving {h k : ZstHierarchy} (hk : Waking h k) (e : EntityId) :
    Waking h (ZstClientHierarchy.onEntityArriving k e) := by
  have hsession : Waking h (registerSession k e) :=
    List.foldlRecOn (motive := Waking h) _ _ hk fun l hl c _ => hl.modify c _ rfl rfl
  refine List.foldlRecOn (motive := Waking h) _ _ hsession fun l hl c _ => ?_
  unfold initArrivingPlug
  split
  · exact hl.modify c _ rfl rfl
  · exact hl

/-! ## Waking an entity -/

/-- An entity whose activation is queued. -/
def queueActivation (x : Entity) : Entity :=
  { x with
    syncStatus := .activationQueued
    synchronisableEvents := x.synchronisableEvents ++ [.activated] }

theorem wake_eq {h : ZstHierarchy} {e : EntityId} (hregistered : (h.entities e).registered = true) :
    wake h e =
      { h.modify e queueActivation with
        synchronisableEvents := h.synchronisableEvents ++ [e] } := by
  simp [wake, enqueueActivation, setActivationStatus, deferEvents, synchronisableHasEvent,
    hregistered, ZstHierarchy.modify, queueActivation]

theorem wake_status {h : ZstHierarchy} {e : EntityId}
    (hregistered : (h.entities e).registered = true) (d : EntityId) :
    ((wake h e).entities d).syncStatus =
      if d = e then .activationQueued else (h.entities d).syncStatus := by
  rw [wake_eq hregistered]
  change ((h.modify e queueActivation).entities d).syncStatus = _
  rw [modify_entities]
  split <;> rfl

theorem wake_events {h : ZstHierarchy} {e : EntityId}
    (hregistered : (h.entities e).registered = true) (d : EntityId) :
    ((wake h e).entities d).synchronisableEvents =
      if d = e then (h.entities e).synchronisableEvents ++ [.activated]
      else (h.entities d).synchronisableEvents := by
  rw [wake_eq hregistered]
  change ((h.modify e queueActivation).entities d).synchronisableEvents = _
  rw [modify_entities]
  split <;> rfl

theorem awake_wake {h : ZstHierarchy} {e : EntityId}
    (hregistered : (h.entities e).registered = true) : Awake (wake h e) e := by
  right
  rw [wake_events hregistered, if_pos rfl]
  simp

theorem progress_wake {h : ZstHierarchy} {e : EntityId}
    (hregistered : (h.entities e).registered = true) : Progress h (wake h e) := by
  refine ⟨fun d hd => ?_, by rw [wake_eq hregistered]; exact List.prefix_refl _⟩
  by_cases hde : d = e
  · rw [hde]
    exact awake_wake hregistered
  · unfold Awake
    rw [wake_status hregistered, wake_events hregistered, if_neg hde, if_neg hde]
    exact hd

theorem Waking.wake {h k : ZstHierarchy} (hk : Waking h k) {e : EntityId}
    (hregistered : (h.entities e).registered = true) : Waking h (ZstClient.wake k e) := by
  have hreg : (k.entities e).registered = true := by
    rw [hk.field Entity.registered (fun _ => rfl), hregistered]
  refine
    { lookup := by rw [wake_eq hreg]; exact hk.lookup
      next := by rw [wake_eq hreg]; exact hk.next
      root := by rw [wake_eq hreg]; exact hk.root
      hierarchyEvents := by rw [wake_eq hreg]; exact hk.hierarchyEvents
      cleanupOps := by rw [wake_eq hreg]; exact hk.cleanupOps
      deadIDs := by rw [wake_eq hreg]; exact hk.deadIDs
      sent := by rw [wake_eq hreg]; exact hk.sent
      entities := fun d => ?_
      events := fun d event hevent => ?_
      queued := fun d hd => ?_ }
  · rw [wake_eq hreg]
    change idle ((k.modify e queueActivation).entities d) = _
    rw [modify_entities, ← hk.entities d]
    split
    · rename_i hde
      rw [hde]
      rfl
    · rfl
  · rw [wake_events hreg] at hevent
    split at hevent
    · rcases List.mem_append.mp hevent with hevent | hevent
      · exact hk.events e event hevent
      · exact List.mem_singleton.mp hevent
    · exact hk.events d event hevent
  · rw [wake_events hreg] at hd
    rw [wake_eq hreg]
    change d ∈ k.synchronisableEvents ++ [e]
    split at hd
    · rename_i hde
      simp [hde]
    · exact List.mem_append_left _ (hk.queued d hd)

/-! ## Activating an entity -/

section Activation

variable {h k : ZstHierarchy} (tree : RegisteredTree h)

theorem addEntityToLookup_eq (hk : Waking h k) {e : EntityId} (he : h.InTree e) :
    k.addEntityToLookup e = k := by
  have hlookup : k.lookup (k.entities e).uri = some e := by
    rw [hk.lookup, hk.field Entity.uri fun _ => rfl]
    exact he
  unfold addEntityToLookup
  rw [← hlookup, Function.update_eq_self]

include tree

theorem registerEntity_waking (hk : Waking h k) {e : EntityId} (he : h.InTree e) :
    Waking h (k.registerEntity e) := by
  unfold registerEntity
  rw [addEntityToLookup_eq hk he]
  have hregistered : (k.entities e).registered = true := by
    rw [hk.field Entity.registered (fun _ => rfl), tree.registered he]
  refine hk.modify e _ ?_ rfl
  rw [← hregistered]

theorem inTree_of_mem (hk : Waking h k) {e c : EntityId} (he : h.InTree e)
    (hc : c ∈ k.getChildEntities e) : h.InTree c := by
  rw [hk.getChildEntities_eq] at hc
  exact tree.inTree_of_below he (tree.below_of_mem_descendants hc)

/-- The completed activation of an entity wakes everything below it. -/
theorem activateEntityComplete_waking (hk : Waking h k) {e : EntityId} (he : h.InTree e) :
    Waking h (ZstClientHierarchy.activateEntityComplete k e) ∧
      Progress k (ZstClientHierarchy.activateEntityComplete k e) ∧
      ∀ c ∈ h.getChildEntities e,
        Awake (ZstClientHierarchy.activateEntityComplete k e) c := by
  have hpass : ∀ l, Waking h l → ∀ c ∈ k.getChildEntities e,
      ((l.addEntityToLookup c).setActivationStatus c .activating).enqueueActivation c =
        ZstClient.wake l c := by
    intro l hl c hc
    rw [addEntityToLookup_eq hl (inTree_of_mem tree hk he hc)]
    rfl
  have hreg : ∀ l, Waking h l → ∀ c ∈ k.getChildEntities e, (l.entities c).registered = true := by
    intro l hl c hc
    rw [hl.field Entity.registered (fun _ => rfl)]
    exact tree.registered (inTree_of_mem tree hk he hc)
  obtain ⟨hwoken, -, hawake⟩ := foldl_establishes
    (fun l c => ((l.addEntityToLookup c).setActivationStatus c .activating).enqueueActivation c)
    (k.getChildEntities e) (fun l => Waking h l ∧ Progress k l) (fun c l => Awake l c)
    (fun l hl c hc => by
      rw [hpass l hl.1 c hc]
      exact ⟨hl.1.wake (tree.registered (inTree_of_mem tree hk he hc)),
        hl.2.trans (progress_wake (hreg l hl.1 c hc))⟩)
    (fun l hl c hc => by
      rw [hpass l hl.1 c hc]
      exact awake_wake (hreg l hl.1 c hc))
    (fun l hl c hc b hb => by
      rw [hpass l hl.1 c hc]
      exact (progress_wake (hreg l hl.1 c hc)).awake b hb)
    ⟨hk, .refl k⟩
  have harriving := progress_foldl progress_onEntityArriving
    ((k.activateEntityComplete e).getChildEntities e) (k.activateEntityComplete e)
  refine ⟨?_, hwoken.2.trans harriving, fun c hc => harriving.awake c (hawake c ?_)⟩
  · exact List.foldlRecOn (motive := Waking h) _ _ hwoken.1 fun l hl c _ => hl.onEntityArriving c
  · rw [hk.getChildEntities_eq]
    exact hc

end Activation

/-! ## Draining activations -/

section Drain

variable {h k : ZstHierarchy} (v : Overrides)

/-- An entity whose own events are all activations is activated by them. -/
theorem processOwnEvents_activations (n : Nat) (h : ZstHierarchy) (e : EntityId)
    (hlength : (h.entities e).synchronisableEvents.length = n)
    (hevents : ∀ event ∈ (h.entities e).synchronisableEvents, event = .activated) :
    ∃ x, processOwnEvents v n h e = h.modify e (fun _ => x) ∧ idle x = idle (h.entities e) ∧
      x.synchronisableEvents = [] ∧ (Awake h e → x.syncStatus = .activated) := by
  induction n generalizing h with
  | zero =>
    have hnil := List.length_eq_zero_iff.mp hlength
    refine ⟨h.entities e, ?_, rfl, hnil, fun hawake => ?_⟩
    · simp [processOwnEvents, ZstHierarchy.modify]
    · exact hawake.resolve_right fun hne => hne hnil
  | succ n ih =>
    obtain ⟨event, rest, hown⟩ := List.exists_cons_of_length_eq_add_one hlength
    have hevent : event = .activated := hevents event (by simp [hown])
    subst hevent
    let y : Entity := onActivation
      { h.entities e with synchronisableEvents := rest, syncStatus := .activated }
    have hfields : idle y = idle (h.entities e) ∧ y.synchronisableEvents = rest ∧
        y.syncStatus = .activated := by
      simp only [y, onActivation]
      split <;> exact ⟨rfl, rfl, rfl⟩
    have hstep : processOwnEvents v (n + 1) h e =
        processOwnEvents v n (h.modify e fun _ => y) e := by
      rw [processOwnEvents, hown]
      simp [processEvent, setActivationStatus, ZstHierarchy.modify, y]
    obtain ⟨x, hprocess, hidle, hdone, hstatus⟩ := ih (h.modify e fun _ => y)
      (by simp [hfields.2.1] at hlength ⊢; simpa [hown] using hlength)
      (by
        intro event hevent
        refine hevents event ?_
        rw [modify_entities_self, hfields.2.1] at hevent
        rw [hown]
        exact List.mem_cons_of_mem _ hevent)
    refine ⟨x, ?_, ?_, hdone, fun _ => hstatus ?_⟩
    · rw [hstep, hprocess]
      simp [ZstHierarchy.modify]
    · rw [hidle, modify_entities_self, hfields.1]
    · left
      rw [modify_entities_self, hfields.2.2]

/-- One item of the module's queue changes its own entity. -/
theorem processItem_eq (hk : Waking h k) (e : EntityId) (rest : List EntityId) :
    ∃ x, processItem v { k with synchronisableEvents := rest } e =
        { k.modify e fun _ => x with
          synchronisableEvents := rest
          freedAccess := k.freedAccess || !k.live e } ∧
      idle x = idle (k.entities e) ∧ x.synchronisableEvents = [] ∧
      (Awake k e → x.syncStatus = .activated) := by
  obtain ⟨x, hprocess, hidle, hdone, hstatus⟩ := processOwnEvents_activations v _
    { k with synchronisableEvents := rest, freedAccess := k.freedAccess || !k.live e } e rfl
    (hk.events e)
  refine ⟨x, ?_, hidle, hdone, hstatus⟩
  unfold processItem
  rw [if_neg (by rw [hk.deadIDs]; simp)]
  exact hprocess

theorem processItem_waking (hk : Waking h k) {e : EntityId} {rest : List EntityId}
    (hqueue : k.synchronisableEvents = e :: rest) :
    Waking h (processItem v { k with synchronisableEvents := rest } e) ∧
      Progress k (processItem v { k with synchronisableEvents := rest } e) ∧
      (processItem v { k with synchronisableEvents := rest } e).synchronisableEvents = rest ∧
      (processItem v { k with synchronisableEvents := rest } e).sent = k.sent := by
  obtain ⟨x, hitem, hidle, hdone, hstatus⟩ := processItem_eq v hk e rest
  rw [hitem]
  have hentities : ∀ d, ((k.modify e fun _ => x).entities d) =
      if d = e then x else k.entities d := fun d => modify_entities k e d _
  refine ⟨{ hk with entities := fun d => ?_, events := fun d => ?_, queued := fun d => ?_ },
    ⟨fun d hd => ?_, List.prefix_refl _⟩, rfl, rfl⟩
  · change idle ((k.modify e fun _ => x).entities d) = _
    rw [hentities]
    split
    · rename_i hde
      rw [hidle, hde]
      exact hk.entities e
    · exact hk.entities d
  · change ∀ event ∈ ((k.modify e fun _ => x).entities d).synchronisableEvents, event = .activated
    rw [hentities]
    split
    · rw [hdone]
      simp
    · exact hk.events d
  · change ((k.modify e fun _ => x).entities d).synchronisableEvents ≠ [] → d ∈ rest
    rw [hentities]
    split
    · intro hne
      exact absurd hdone hne
    · rename_i hde
      intro hne
      have hmem := hk.queued d hne
      rw [hqueue] at hmem
      exact (List.mem_cons.mp hmem).resolve_left hde
  · change ((k.modify e fun _ => x).entities d).syncStatus = .activated ∨
      ((k.modify e fun _ => x).entities d).synchronisableEvents ≠ []
    rw [hentities]
    split
    · rename_i hde
      left
      exact hstatus (by rw [← hde]; exact hd)
    · exact hd

theorem processItems_waking (fuel : Nat) (hk : Waking h k)
    (hfuel : k.synchronisableEvents.length ≤ fuel) :
    Waking h (processItems v fuel k) ∧ Progress k (processItems v fuel k) ∧
      (processItems v fuel k).synchronisableEvents = [] ∧
      (processItems v fuel k).sent = k.sent := by
  induction fuel generalizing k with
  | zero => exact ⟨hk, .refl k, List.length_eq_zero_iff.mp (Nat.le_zero.mp hfuel), rfl⟩
  | succ fuel ih =>
    unfold processItems
    split
    · rename_i hqueue
      exact ⟨hk, .refl k, hqueue, rfl⟩
    · rename_i e rest hqueue
      obtain ⟨hitem, hprogress, hrest, hsent⟩ := processItem_waking v hk hqueue
      have hlength : rest.length ≤ fuel := by
        rw [hqueue, List.length_cons] at hfuel
        omega
      obtain ⟨hwaking, hprogress', hnil, hsent'⟩ := ih hitem (by rw [hrest]; exact hlength)
      exact ⟨hwaking, hprogress.trans hprogress', hnil, hsent'.trans hsent⟩

/-- Nothing but the module's queue is drained. -/
theorem processEvents_eq (fuel : Nat) (hk : Waking h k) :
    ZstClientHierarchy.processEvents v fuel k =
      { processItems v (k.synchronisableEvents.length + fuel) k with deadIDs := [] } := by
  have hevents : k.hierarchyEvents.foldl processHierarchyEvent { k with hierarchyEvents := [] } =
      k := by
    rw [hk.hierarchyEvents]
    exact congrArg (fun events => { k with hierarchyEvents := events }) hk.hierarchyEvents.symm
  obtain ⟨hitems, -, -, -⟩ := processItems_waking v
    (k.synchronisableEvents.length + fuel) hk (Nat.le_add_right _ _)
  have hreap : ∀ n, reapAll v n (processItems v (k.synchronisableEvents.length + fuel) k) =
      processItems v (k.synchronisableEvents.length + fuel) k := by
    intro n
    cases n with
    | zero => rfl
    | succ n =>
      unfold reapAll
      rw [hitems.cleanupOps]
  unfold ZstClientHierarchy.processEvents
  rw [hevents]
  simp only [hreap]

/-- A drain activates whoever is awake. -/
theorem processEvents_waking (fuel : Nat) (hk : Waking h k) :
    Waking h (ZstClientHierarchy.processEvents v fuel k) ∧
      Progress k (ZstClientHierarchy.processEvents v fuel k) ∧
      Drained (ZstClientHierarchy.processEvents v fuel k) ∧
      (ZstClientHierarchy.processEvents v fuel k).sent = k.sent := by
  obtain ⟨hitems, hprogress, hnil, hsent⟩ := processItems_waking v
    (k.synchronisableEvents.length + fuel) hk (Nat.le_add_right _ _)
  rw [processEvents_eq v fuel hk]
  refine ⟨{ hitems with deadIDs := rfl }, ⟨hprogress.awake, hprogress.sent⟩,
    ⟨hitems.hierarchyEvents, hnil, hitems.cleanupOps, rfl, fun e => ?_⟩, hsent⟩
  by_contra hne
  have hmem := hitems.queued e hne
  rw [hnil] at hmem
  cases hmem

end Drain

theorem activated_of_awake {h : ZstHierarchy} (hdrained : Drained h) {e : EntityId}
    (he : Awake h e) : (h.entities e).syncStatus = .activated :=
  he.resolve_right fun hne => hne (hdrained.events e)

/-! ## Requests for the activation of an entity -/

section Requests

variable {h k l : ZstHierarchy}

theorem Waking.sent_drop (hk : Waking h k) {m : Outgoing} (hl : l.sent = k.sent ++ [m]) :
    l.sent.drop h.sent.length = k.sent.drop h.sent.length ++ [m] := by
  obtain ⟨messages, hsent, -⟩ := hk.sent
  rw [hl, List.drop_append_of_le_length (by simp [hsent])]

theorem Waking.named_iff (hk : Waking h k) {m : Outgoing} (hl : l.sent = k.sent ++ [m])
    (path : ZstURI) : AskedToCreate h l path ↔ AskedToCreate h k path ∨
      ∃ buffer, m.content = .entityCreateRequest buffer ∧ buffer.uri = path := by
  unfold AskedToCreate
  rw [hk.sent_drop hl]
  simp only [List.mem_append, List.mem_singleton, or_and_right, exists_or, exists_eq_left]

theorem Waking.requested_of_sent (hk : Waking h k) {m : Outgoing} (hl : l.sent = k.sent ++ [m])
    {e : EntityId} (hm : m.onRecvResponse = some (.entityActivated e none)) :
    CompletionRequested h l e := by
  refine ⟨m, ?_, hm⟩
  rw [hk.sent_drop hl]
  simp

theorem enqueueActivation_sent (h : ZstHierarchy) (e : EntityId) :
    (h.enqueueActivation e).sent = h.sent := by
  unfold enqueueActivation synchronisableHasEvent
  split
  · split <;> rfl
  · rfl

theorem sent_foldl {α : Type} {f : ZstHierarchy → α → ZstHierarchy}
    (hf : ∀ h a, (f h a).sent = h.sent) (items : List α) (h : ZstHierarchy) :
    (items.foldl f h).sent = h.sent := by
  induction items generalizing h with
  | nil => rfl
  | cons a items ih => exact (ih (f h a)).trans (hf h a)

theorem onEntityArriving_sent (h : ZstHierarchy) (e : EntityId) :
    (ZstClientHierarchy.onEntityArriving h e).sent = h.sent := by
  have hsession : (registerSession h e).sent = h.sent := by
    refine sent_foldl (fun h c => ?_) _ h
    rfl
  refine (sent_foldl (fun h c => ?_) _ _).trans hsession
  unfold initArrivingPlug
  split <;> rfl

theorem activateEntityComplete_sent (h : ZstHierarchy) (e : EntityId) :
    (ZstClientHierarchy.activateEntityComplete h e).sent = h.sent := by
  have hwoken : (h.activateEntityComplete e).sent = h.sent := by
    refine sent_foldl (fun h c => ?_) _ h
    exact enqueueActivation_sent _ c
  exact (sent_foldl onEntityArriving_sent _ _).trans hwoken

theorem activateEntity_of_activated (v : Overrides) (fuel : Nat) {e : EntityId}
    (hstatus : (k.entities e).syncStatus = .activated) (behaviour : SendBehaviour) :
    activateEntity v (okLink true) fuel k e behaviour = k := by
  unfold activateEntity
  split
  · rfl
  · rw [if_pos (by simpa [Entity.isActivated] using hstatus)]

variable (tree : RegisteredTree h) (v : Overrides)

include tree

/-- A request to create one of the entities at or below `e`. -/
theorem request_waking (hk : Waking h k) {e : EntityId} (he : h.InTree e) (c : EntityId)
    (behaviour : SendBehaviour) :
    let l := request v (okLink true) k (.entityCreateRequest (k.entities c).serialize) behaviour
      (.entityActivated e none)
    Waking h l ∧ Progress k l ∧
      (∀ path, AskedToCreate h l path ↔ AskedToCreate h k path ∨ (h.entities c).uri = path) ∧
      (behaviour = .syncReply → ∀ d ∈ h.getChildEntities e, Awake l d) ∧
      (behaviour ≠ .syncReply → CompletionRequested h l e ∧ l.entities = k.entities) := by
  intro l
  have huri : ((k.entities c).serialize).uri = (h.entities c).uri :=
    hk.field Entity.uri (fun _ => rfl) c
  have hname : ∀ path, (∃ buffer, Content.entityCreateRequest (k.entities c).serialize =
      .entityCreateRequest buffer ∧ buffer.uri = path) ↔ (h.entities c).uri = path := by
    intro path
    rw [← huri]
    constructor
    · rintro ⟨buffer, hbuffer, rfl⟩
      cases hbuffer
      rfl
    · exact fun hpath => ⟨_, rfl, hpath⟩
  by_cases hsync : behaviour = .syncReply
  · have hl : l = ZstClientHierarchy.activateEntityComplete
        (publish (okLink true) k
          { target := 0, content := .entityCreateRequest (k.entities c).serialize }) e := by
      simp [l, request, hsync, okLink, onRecvResponse, verifySignal]
    have hpublish : Waking h (publish (okLink true) k
        { target := 0, content := .entityCreateRequest (k.entities c).serialize }) :=
      hk.publish _ (by simp)
    obtain ⟨hwaking, hprogress, hawake⟩ := activateEntityComplete_waking tree hpublish he
    refine ⟨hl ▸ hwaking, hl ▸ (progress_publish _ k _).trans hprogress, fun path => ?_,
      fun _ => hl ▸ hawake, fun hne => absurd hsync hne⟩
    rw [hk.named_iff (by rw [hl, activateEntityComplete_sent]; rfl), hname]
  · have hl : l = publish (okLink true) k
        { target := 0
          content := .entityCreateRequest (k.entities c).serialize
          onRecvResponse := some (.entityActivated e none) } := by
      simp [l, request, hsync, okLink]
    refine ⟨hl ▸ hk.publish _ (by simp [he]), hl ▸ progress_publish _ k _, fun path => ?_,
      fun heq => absurd heq hsync, fun _ => ⟨hk.requested_of_sent (by rw [hl]; rfl) rfl, by
        rw [hl]; rfl⟩⟩
    rw [hk.named_iff (by rw [hl]; rfl), hname]

/-- The requests for some of the entities at or below `e`. -/
theorem requests_waking {e : EntityId} (he : h.InTree e) (behaviour : SendBehaviour)
    (items : List EntityId) (hk : Waking h k) :
    let l := items.foldl (fun l c =>
      request v (okLink true) l (.entityCreateRequest (l.entities c).serialize) behaviour
        (.entityActivated e none)) k
    Waking h l ∧ Progress k l ∧
      (∀ path, AskedToCreate h l path ↔
        AskedToCreate h k path ∨ ∃ c ∈ items, (h.entities c).uri = path) ∧
      (behaviour = .syncReply → items ≠ [] → ∀ d ∈ h.getChildEntities e, Awake l d) ∧
      (behaviour ≠ .syncReply → items ≠ [] → CompletionRequested h l e) ∧
      (behaviour ≠ .syncReply → l.entities = k.entities) := by
  induction items generalizing k with
  | nil => exact ⟨hk, .refl k, by simp, by simp, by simp, fun _ => rfl⟩
  | cons c items ih =>
    obtain ⟨hwaking, hprogress, hnamed, hsync, hasync⟩ := request_waking tree v hk he c behaviour
    obtain ⟨hlast, hprogress', hnamed', -, -, hentities⟩ := ih hwaking
    refine ⟨hlast, hprogress.trans hprogress', fun path => ?_, fun hb _ d hd => ?_,
      fun hb _ => ?_, fun hb => ?_⟩
    · rw [List.foldl_cons, hnamed', hnamed, or_assoc]
      simp only [List.mem_cons, or_and_right, exists_or, exists_eq_left]
    · exact hprogress'.awake d (hsync hb d hd)
    · exact hprogress'.requested (hasync hb).1
    · exact (hentities hb).trans (hasync hb).2

theorem activateEntity_waking (fuel : Nat) (hk : Waking h k) {e : EntityId} (he : h.InTree e)
    (haddress : (h.entities e).parentAddress ≠ [])
    (hstatus : (k.entities e).syncStatus ≠ .activated) (behaviour : SendBehaviour) :
    let l := activateEntity v (okLink true) fuel k e behaviour
    Waking h l ∧ Progress k l ∧
      (∀ path, AskedToCreate h l path ↔
        AskedToCreate h k path ∨ ∃ c ∈ h.getChildEntities e, (h.entities c).uri = path) ∧
      (behaviour = .syncReply → Drained l ∧ ∀ d ∈ h.getChildEntities e, Awake l d) ∧
      (behaviour ≠ .syncReply → CompletionRequested h l e ∧
        ∀ d, (l.entities d).syncStatus = (k.entities d).syncStatus) := by
  have hregister : Waking h (k.registerEntity e) := registerEntity_waking tree hk he
  have hregisterProgress : Progress k (k.registerEntity e) := by
    unfold ZstHierarchy.registerEntity
    rw [addEntityToLookup_eq hk he]
    exact progress_modify k e _ (fun _ => rfl) fun _ => rfl
  have hregisterStatus : ∀ d, ((k.registerEntity e).entities d).syncStatus =
      (k.entities d).syncStatus := by
    intro d
    unfold ZstHierarchy.registerEntity
    rw [modify_entities]
    split
    · rename_i hde
      rw [hde]
      rfl
    · rfl
  have hitems : h.getChildEntities e ≠ [] :=
    List.ne_nil_of_mem (self_mem_getChildEntities _ e)
  obtain ⟨hwaking, hprogress, hnamed, hsync, hasync, hentities⟩ :=
    requests_waking tree v he behaviour (h.getChildEntities e) hregister
  have hnamed' : ∀ path, AskedToCreate h (k.registerEntity e) path ↔ AskedToCreate h k path :=
    fun _ => Iff.rfl
  intro l
  have hl : l =
      let m := (h.getChildEntities e).foldl (fun l c =>
        request v (okLink true) l (.entityCreateRequest (l.entities c).serialize) behaviour
          (.entityActivated e none)) (k.registerEntity e)
      if behaviour = .syncReply then ZstClientHierarchy.processEvents v fuel m else m := by
    have haddress' : (k.entities e).parentAddress ≠ [] := by
      rw [hk.field Entity.parentAddress fun _ => rfl]
      exact haddress
    have hnot : ¬(k.entities e).isActivated = true := by simpa [Entity.isActivated] using hstatus
    simp only [l, activateEntity, if_neg haddress', if_neg hnot, hregister.getChildEntities_eq]
  simp only at hl
  by_cases hb : behaviour = .syncReply
  · rw [if_pos hb] at hl
    obtain ⟨hdrain, hdrainProgress, hdrained, hsent⟩ := processEvents_waking v fuel hwaking
    rw [← hl] at hdrain hdrainProgress hdrained hsent
    refine ⟨hdrain, (hregisterProgress.trans hprogress).trans hdrainProgress, fun path => ?_,
      fun _ => ⟨hdrained, fun d hd => hdrainProgress.awake d (hsync hb hitems d hd)⟩,
      fun hne => absurd hb hne⟩
    rw [← hnamed' path, ← hnamed path]
    unfold AskedToCreate
    rw [hsent]
  · rw [if_neg hb] at hl
    rw [hl]
    refine ⟨hwaking, hregisterProgress.trans hprogress, fun path => ?_, fun heq => absurd heq hb,
      fun _ => ⟨hasync hb hitems, fun d => ?_⟩⟩
    · rw [← hnamed' path, ← hnamed path]
    · rw [hentities hb]
      exact hregisterStatus d

theorem activateEntity_progress (fuel : Nat) (hk : Waking h k) {e : EntityId} (he : h.InTree e)
    (haddress : (h.entities e).parentAddress ≠ []) (behaviour : SendBehaviour) :
    Waking h (activateEntity v (okLink true) fuel k e behaviour) ∧
      Progress k (activateEntity v (okLink true) fuel k e behaviour) := by
  by_cases hstatus : (k.entities e).syncStatus = .activated
  · rw [activateEntity_of_activated v fuel hstatus]
    exact ⟨hk, .refl k⟩
  · obtain ⟨hwaking, hprogress, -⟩ :=
      activateEntity_waking tree v fuel hk he haddress hstatus behaviour
    exact ⟨hwaking, hprogress⟩

end Requests

/-! ## The activations of a join -/

/-- The loop of `join_stage_complete` over the entities below the root. -/
def activateAll (v : Overrides) (fuel : Nat) (behaviour : SendBehaviour)
    (items : List EntityId) (h : ZstHierarchy) : ZstHierarchy :=
  items.foldl (fun h c => activateEntity v (okLink true) fuel h c behaviour) h

section Activations

variable {h k : ZstHierarchy} (tree : RegisteredTree h) (v : Overrides) (fuel : Nat)
  {items : List EntityId}

include tree

theorem activateAll_progress
    (hitems : ∀ e ∈ items, h.InTree e ∧ (h.entities e).parentAddress ≠ [])
    (behaviour : SendBehaviour) (hk : Waking h k) :
    Waking h (activateAll v fuel behaviour items k) ∧
      Progress k (activateAll v fuel behaviour items k) := by
  refine List.foldlRecOn (motive := fun l => Waking h l ∧ Progress k l) _ _ ⟨hk, .refl k⟩ ?_
  rintro l ⟨hl, hprogress⟩ e he
  obtain ⟨hwaking, hnext⟩ :=
    activateEntity_progress tree v fuel hl (hitems e he).1 (hitems e he).2 behaviour
  exact ⟨hwaking, hprogress.trans hnext⟩

/-- Asynchronous activations name every entity, as none is activated meanwhile. -/
theorem activateAll_async
    (hitems : ∀ e ∈ items, h.InTree e ∧ (h.entities e).parentAddress ≠ [])
    {behaviour : SendBehaviour} (hb : behaviour ≠ .syncReply) (hk : Waking h k)
    (hasleep : ∀ e ∈ items, (k.entities e).syncStatus ≠ .activated) :
    ∀ e ∈ items, AskedToCreate h (activateAll v fuel behaviour items k) (h.entities e).uri ∧
      CompletionRequested h (activateAll v fuel behaviour items k) e := by
  have hpass : ∀ l, (Waking h l ∧ ∀ e ∈ items, (l.entities e).syncStatus ≠ .activated) →
      ∀ e ∈ items, _ := fun l hl e he =>
    activateEntity_waking tree v fuel hl.1 (hitems e he).1 (hitems e he).2 (hl.2 e he) behaviour
  refine (foldl_establishes _ items
    (fun l => Waking h l ∧ ∀ e ∈ items, (l.entities e).syncStatus ≠ .activated)
    (fun e l => AskedToCreate h l (h.entities e).uri ∧ CompletionRequested h l e)
    (fun l hl e he => ?_) (fun l hl e he => ?_) (fun l hl e he b hdone => ?_) ⟨hk, hasleep⟩).2.2
  · obtain ⟨hwaking, -, -, -, hasync⟩ := hpass l hl e he
    refine ⟨hwaking, fun c hc => ?_⟩
    rw [(hasync hb).2]
    exact hl.2 c hc
  · obtain ⟨-, -, hnamed, -, hasync⟩ := hpass l hl e he
    exact ⟨(hnamed _).mpr (Or.inr ⟨e, self_mem_getChildEntities _ e, rfl⟩), (hasync hb).1⟩
  · obtain ⟨-, hprogress, -⟩ := hpass l hl e he
    exact ⟨hprogress.named hdone.1, hprogress.requested hdone.2⟩

/-- Synchronous activations leave out an entity that is awake when they start,
unless it is below another one of them. -/
theorem activateAll_sync_unnamed
    (hitems : ∀ e ∈ items, h.InTree e ∧ (h.entities e).parentAddress ≠ [])
    {d : EntityId} (hd : h.InTree d) (hbelow : ∀ e ∈ items, h.Below e d → e = d)
    (hk : Waking h k) (hdrained : Drained k) (hawake : Awake k d)
    (hunnamed : ¬AskedToCreate h k (h.entities d).uri) :
    ¬AskedToCreate h (activateAll v fuel .syncReply items k) (h.entities d).uri := by
  refine (List.foldlRecOn (motive := fun l =>
    Waking h l ∧ Drained l ∧ Awake l d ∧ ¬AskedToCreate h l (h.entities d).uri) _ _
    ⟨hk, hdrained, hawake, hunnamed⟩ ?_).2.2.2
  rintro l ⟨hl, hldrained, hlawake, hlunnamed⟩ e he
  by_cases hstatus : (l.entities e).syncStatus = .activated
  · rw [activateEntity_of_activated v fuel hstatus]
    exact ⟨hl, hldrained, hlawake, hlunnamed⟩
  · obtain ⟨hwaking, hprogress, hnamed, hsync, -⟩ := activateEntity_waking tree v fuel hl
      (hitems e he).1 (hitems e he).2 hstatus .syncReply
    refine ⟨hwaking, (hsync rfl).1, hprogress.awake d hlawake, fun hnow => ?_⟩
    rcases (hnamed _).mp hnow with hbefore | ⟨c, hc, huri⟩
    · exact hlunnamed hbefore
    · have hcTree := tree.inTree_of_below (hitems e he).1 (tree.below_of_mem_descendants hc)
      have hcd : c = d := by
        unfold InTree at hcTree hd
        rw [huri] at hcTree
        exact Option.some.inj (hcTree.symm.trans hd)
      have hed := hbelow e he (hcd ▸ tree.below_of_mem_descendants hc)
      rw [hed] at hstatus
      exact hstatus (activated_of_awake hldrained hlawake)

end Activations

end Showtime.Rejoin
