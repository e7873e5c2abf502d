import Showtime.Fate
import Showtime.Rename
/-!
# Draining what leaves

An entity that is removed waits for its own events, then for the reaper, and is
found until the reaper has come to it. The event loop takes the events of the
hierarchy, those of the entities and the callbacks of the reaper in any order.
-/

namespace Showtime.Draining

open ZstHierarchy

variable {v : Overrides} {h k : ZstHierarchy} {d e : EntityId}

/-! ## The steps of a drain -/

/-- An entity without what the session and its handlers may change. -/
def unheard (x : Entity) : Entity :=
  { x with
    sessionAdaptor := false
    cables := []
    canFire := false
    currentOwner := []
    stageProxy := none
    heartbeatActive := false
    missedHeartbeats := 0 }

/-- Nobody has come, moved or been told to leave. -/
structure Heard (h k : ZstHierarchy) : Prop where
  entities : ∀ e, unheard (k.entities e) = unheard (h.entities e)
  live : k.live = h.live
  next : k.next = h.next
  lookup : k.lookup = h.lookup
  proxies : k.proxies = h.proxies
  root : k.root = h.root
  deadIDs : k.deadIDs = h.deadIDs
  synchronisableEvents : k.synchronisableEvents = h.synchronisableEvents
  cleanupOps : k.cleanupOps = h.cleanupOps

theorem Heard.refl (h : ZstHierarchy) : Heard h h :=
  ⟨fun _ => rfl, rfl, rfl, rfl, rfl, rfl, rfl, rfl, rfl⟩

theorem Heard.trans {l : ZstHierarchy} (hk : Heard h k) (kl : Heard k l) : Heard h l :=
  ⟨fun e => (kl.entities e).trans (hk.entities e), kl.live.trans hk.live, kl.next.trans hk.next,
    kl.lookup.trans hk.lookup, kl.proxies.trans hk.proxies, kl.root.trans hk.root,
    kl.deadIDs.trans hk.deadIDs, kl.synchronisableEvents.trans hk.synchronisableEvents,
    kl.cleanupOps.trans hk.cleanupOps⟩

theorem Heard.field {β : Type} (hk : Heard h k) (f : Entity → β) (hf : ∀ x, f (unheard x) = f x)
    (d : EntityId) : f (k.entities d) = f (h.entities d) := by
  rw [← hf, hk.entities d, hf]

theorem Heard.modify (h : ZstHierarchy) (e : EntityId) (f : Entity → Entity)
    (hf : ∀ x, unheard (f x) = unheard x) : Heard h (h.modify e f) := by
  refine ⟨fun d => ?_, rfl, rfl, rfl, rfl, rfl, rfl, rfl, rfl⟩
  rw [modify_entities]
  split
  · rename_i hde
    rw [hf, hde]
  · rfl

theorem Heard.sends (h : ZstHierarchy) (sent : List Outgoing) : Heard h { h with sent } :=
  ⟨fun _ => rfl, rfl, rfl, rfl, rfl, rfl, rfl, rfl, rfl⟩

theorem Heard.foldl {α : Type} {f : ZstHierarchy → α → ZstHierarchy} (hf : ∀ h a, Heard h (f h a))
    (items : List α) (h : ZstHierarchy) : Heard h (items.foldl f h) := by
  induction items generalizing h with
  | nil => exact .refl h
  | cons a items ih => exact (hf h a).trans (ih (f h a))

/-- One step of a drain: something that tells nobody to leave, the oldest item of
the module's queue, or the oldest callback of the reaper. -/
inductive Drain (v : Overrides) (h : ZstHierarchy) : ZstHierarchy → Prop
  | event (k : ZstHierarchy) (heard : Heard h k) : Drain v h k
  | item : Drain v h (processItems v 1 h)
  | cleanup : Drain v h (reapAll v 1 h)
  | forgetDead : Drain v h { h with deadIDs := [] }

/-- Neither the module's queue nor the reaper has anything left. -/
structure Idle (h : ZstHierarchy) : Prop where
  synchronisableEvents : h.synchronisableEvents = []
  cleanupOps : h.cleanupOps = []

instance (h : ZstHierarchy) : Decidable (Idle h) :=
  decidable_of_iff (h.synchronisableEvents = [] ∧ h.cleanupOps = [])
    ⟨fun ⟨hqueue, hops⟩ => ⟨hqueue, hops⟩, fun idle => ⟨idle.1, idle.2⟩⟩

/-! ## The events of one entity -/

/-- The events that `enqueue_deactivation` leaves with an entity. -/
def IsEnd (own : List SynchronisableEvent) : Prop :=
  ∃ first, OwnEvents first ∧ own = first ++ [.deactivated, .destroyed]

theorem IsEnd.own {own : List SynchronisableEvent} (hend : IsEnd own) : OwnEvents own := by
  obtain ⟨first, hfirst, rfl⟩ := hend
  exact hfirst.append (.destroyed .nil)

theorem IsEnd.fate {x : Entity} (hend : IsEnd x.synchronisableEvents) : x.fate = .destroyed := by
  obtain ⟨first, -, hx⟩ := hend
  unfold Entity.fate
  rw [hx, List.foldl_append]
  rfl

/-- Harmless events destroy nobody. -/
theorem own_of_harmless {own : List SynchronisableEvent}
    (hown : ∀ event ∈ own, event = .activated ∨ event = .updated) :
    OwnEvents own ∧ .destroyed ∉ own := by
  refine ⟨?_, fun hmem => by rcases hown _ hmem with h | h <;> cases h⟩
  induction own with
  | nil => exact .nil
  | cons event own ih =>
    have hrest := ih fun event hevent => hown event (List.mem_cons_of_mem _ hevent)
    rcases hown event List.mem_cons_self with rfl | rfl
    · exact .activated hrest
    · exact .updated hrest

/-- What else the events of an entity do: its children stay, and a destruction
leaves a callback with the reaper. -/
theorem processOwnEvents_rest {own : List SynchronisableEvent} (howns : OwnEvents own)
    (h : ZstHierarchy) (hown : (h.entities e).synchronisableEvents = own) :
    ((processOwnEvents v own.length h e).entities e).children = (h.entities e).children ∧
      (.destroyed ∈ own → e ∈ (processOwnEvents v own.length h e).cleanupOps) := by
  obtain ⟨x, n, hx, -, -, -, hdone, -⟩ := processOwnEvents_own v howns h e hown
  -- a destruction finds its entity deactivated, and so does not deactivate it
  let P : ZstHierarchy → Prop := fun k =>
    (k.entities e).children = (h.entities e).children ∧
    (OwnEvents (k.entities e).synchronisableEvents ∨
      (k.entities e).syncStatus = .deactivated ∧ ∃ rest, OwnEvents rest ∧
        (k.entities e).synchronisableEvents = .destroyed :: rest) ∧
    (.destroyed ∈ own → .destroyed ∈ (k.entities e).synchronisableEvents ∨ e ∈ k.cleanupOps)
  have hrun : P (processOwnEvents v own.length h e) := by
    refine processOwnEvents_rule v (P := P) (fun k event rest hk hevents => ?_) own.length
      ⟨rfl, Or.inl (hown ▸ howns), fun hmem => Or.inl (hown ▸ hmem)⟩
    obtain ⟨hchildren, howns, hdestroyed⟩ := hk
    rw [hevents] at howns hdestroyed
    rcases howns with howns | ⟨hstatus, rest', hrest, heq⟩
    · cases howns with
      | activated hrest =>
        refine ⟨?_, Or.inl ?_, fun hmem => (hdestroyed hmem).imp_left fun hmem => ?_⟩
        · simp only [processEvent, setActivationStatus, modify_entities_self, onActivation]
          split <;> exact hchildren
        · simp only [processEvent, setActivationStatus, modify_entities_self, onActivation]
          split <;> exact hrest
        · simp only [processEvent, setActivationStatus, modify_entities_self, onActivation]
          split <;> exact List.mem_of_ne_of_mem (by decide) hmem
      | updated hrest =>
        refine ⟨?_, Or.inl ?_, fun hmem => (hdestroyed hmem).imp_left fun hmem => ?_⟩
        · simp only [processEvent, modify_entities_self]
          exact hchildren
        · simp only [processEvent, modify_entities_self]
          exact hrest
        · simp only [processEvent, modify_entities_self]
          exact List.mem_of_ne_of_mem (by decide) hmem
      | @destroyed rest' hrest =>
        refine ⟨?_, Or.inr ⟨?_, rest', hrest, ?_⟩, fun _ => Or.inl ?_⟩
        all_goals
          simp only [processEvent, setActivationStatus, modify_entities_self, onDeactivation]
          split
        · exact hchildren
        · exact hchildren
        · rfl
        · rfl
        · rfl
        · rfl
        · exact List.mem_cons_self
        · exact List.mem_cons_self
    · obtain ⟨rfl, rfl⟩ := List.cons.inj heq
      refine ⟨?_, Or.inl ?_, fun _ => Or.inr ?_⟩
      all_goals simp only [processEvent, onSynchronisableDestroyed, modify_entities_self,
        Entity.isActivated, hstatus, setActivationStatus]
      · simpa using hchildren
      · simpa using hrest
      · simp
  obtain ⟨hchildren, -, hdestroyed⟩ := hrun
  refine ⟨hchildren, fun hmem => (hdestroyed hmem).resolve_left fun hmem => ?_⟩
  rw [hx] at hmem
  change _ ∈ ((h.modify e fun _ => x).entities e).synchronisableEvents at hmem
  rw [modify_entities_self, hdone] at hmem
  cases hmem

/-! ## Entities that leave -/

/-- The entity has its deactivation ahead of it. -/
structure Waiting (h : ZstHierarchy) (d : EntityId) : Prop where
  status : (h.entities d).syncStatus = .deactivationQueued
  events : IsEnd (h.entities d).synchronisableEvents
  queued : d ∈ h.synchronisableEvents

/-- The entity has had its events, and is found only until the reaper comes. -/
structure Gone (h : ZstHierarchy) (d : EntityId) : Prop where
  status : (h.entities d).syncStatus = .destroyed
  events : (h.entities d).synchronisableEvents = []
  erased : d ∈ h.cleanupOps ∨ h.lookup (h.entities d).uri = none
  disowned : d ∈ h.cleanupOps ∨ d ∉ h.proxies

theorem Waiting.of_entity {d : EntityId} (waiting : Waiting h d)
    (hentity : k.entities d = h.entities d) (hqueued : d ∈ k.synchronisableEvents) :
    Waiting k d :=
  ⟨hentity ▸ waiting.status, hentity ▸ waiting.events, hqueued⟩

theorem Gone.of_entity {d : EntityId} (gone : Gone h d) (hentity : k.entities d = h.entities d)
    (hops : d ∈ h.cleanupOps → d ∈ k.cleanupOps) (hlookup : k.lookup = h.lookup)
    (hproxies : k.proxies = h.proxies) : Gone k d := by
  refine ⟨hentity ▸ gone.status, hentity ▸ gone.events, ?_, ?_⟩
  · rw [hentity, hlookup]
    exact gone.erased.imp_left hops
  · rw [hproxies]
    exact gone.disowned.imp_left hops

/-- Some entities leave: nobody else does, and the table loses nothing but them. -/
structure Dying (M : EntityId → Prop) (path : EntityId → ZstURI)
    (table : ZstURI → Option EntityId) (h : ZstHierarchy) : Prop where
  uri : ∀ d, (h.entities d).uri = path d
  closed : Rename.Closed M h
  isProxy : ∀ d, M d → (h.entities d).isProxy = true
  nodup : h.proxies.Nodup
  alive : ∀ d, M d → d ∉ h.deadIDs
  state : ∀ d, M d → Waiting h d ∨ Gone h d
  others : ∀ d, ¬ M d → OwnEvents (h.entities d).synchronisableEvents ∧
    .destroyed ∉ (h.entities d).synchronisableEvents
  ops : ∀ d ∈ h.cleanupOps, M d ∧ (h.entities d).syncStatus = .destroyed
  lookup : ∀ q, h.lookup q = table q ∨ h.lookup q = none ∧ ∃ d, M d ∧ path d = q

namespace Dying

variable {M : EntityId → Prop} {path : EntityId → ZstURI} {table : ZstURI → Option EntityId}

/-- The table may forget who leaves. -/
theorem closed_of (dying : Dying M path table h) (hroot : k.root = h.root)
    (huri : ∀ d, (k.entities d).uri = (h.entities d).uri)
    (hchildren : ∀ d, M d → ∀ q ∈ (k.entities d).children, q ∈ (h.entities d).children)
    (hlookup : ∀ q x, k.lookup q = some x → h.lookup q = some x) : Rename.Closed M k := by
  intro d hd q hq x hx
  refine dying.closed d hd q (hchildren d hd q hq) x ?_
  unfold findEntity at hx ⊢
  rw [hroot] at hx
  cases hr : h.root with
  | none =>
    rw [hr] at hx
    exact hlookup q x hx
  | some r =>
    rw [hr] at hx
    dsimp only at hx ⊢
    rw [huri] at hx
    split
    · rename_i hqr
      rw [if_pos hqr] at hx
      exact hx
    · rename_i hqr
      rw [if_neg hqr] at hx
      exact hlookup q x hx

theorem heard (dying : Dying M path table h) (hk : Heard h k) : Dying M path table k := by
  have huri := hk.field Entity.uri fun _ => rfl
  have hstatus := hk.field Entity.syncStatus fun _ => rfl
  have hevents := hk.field Entity.synchronisableEvents fun _ => rfl
  refine ⟨fun d => (huri d).trans (dying.uri d), ?_, fun d hd => ?_, ?_, fun d hd => ?_,
    fun d hd => ?_, fun d hd => ?_, fun d hd => ?_, fun q => ?_⟩
  · refine dying.closed_of hk.root huri (fun d _ q hq => ?_) fun q x hx => hk.lookup ▸ hx
    rwa [hk.field Entity.children fun _ => rfl] at hq
  · rw [hk.field Entity.isProxy fun _ => rfl]
    exact dying.isProxy d hd
  · rw [hk.proxies]
    exact dying.nodup
  · rw [hk.deadIDs]
    exact dying.alive d hd
  · rcases dying.state d hd with waiting | gone
    · exact Or.inl ⟨(hstatus d).trans waiting.status, hevents d ▸ waiting.events,
        hk.synchronisableEvents ▸ waiting.queued⟩
    · exact Or.inr ⟨(hstatus d).trans gone.status, (hevents d).trans gone.events,
        by rw [hk.cleanupOps, hk.lookup, huri]; exact gone.erased,
        by rw [hk.cleanupOps, hk.proxies]; exact gone.disowned⟩
  · rw [hevents]
    exact dying.others d hd
  · rw [hk.cleanupOps] at hd
    rw [hstatus]
    exact dying.ops d hd
  · rw [hk.lookup]
    exact dying.lookup q

/-- Once its events have run, an entity that leaves is gone. -/
theorem gone_of_ended (dying : Dying M path table h) {d : EntityId} (hd : M d)
    (hstatus : (k.entities d).syncStatus = .destroyed)
    (hevents : (k.entities d).synchronisableEvents = [])
    (huri : (k.entities d).uri = (h.entities d).uri)
    (hops : d ∈ h.cleanupOps → d ∈ k.cleanupOps)
    (hop : .destroyed ∈ (h.entities d).synchronisableEvents → d ∈ k.cleanupOps)
    (hlookup : k.lookup = h.lookup) (hproxies : k.proxies = h.proxies) : Gone k d := by
  rcases dying.state d hd with waiting | gone
  · obtain ⟨first, -, heq⟩ := waiting.events
    have hmem : d ∈ k.cleanupOps := hop (by rw [heq]; simp)
    exact ⟨hstatus, hevents, Or.inl hmem, Or.inl hmem⟩
  · refine ⟨hstatus, hevents, ?_, ?_⟩
    · rw [huri, hlookup]
      exact gone.erased.imp_left hops
    · rw [hproxies]
      exact gone.disowned.imp_left hops

/-- An item of the module's queue. -/
theorem item (dying : Dying M path table h) {rest : List EntityId}
    (hqueue : h.synchronisableEvents = e :: rest) :
    Dying M path table (processItem v { h with synchronisableEvents := rest } e) ∧
      (processItem v { h with synchronisableEvents := rest } e).synchronisableEvents = rest := by
  have hqueued : ∀ d, d ≠ e → Waiting h d → d ∈ rest := by
    intro d hde waiting
    have hmem := waiting.queued
    rw [hqueue] at hmem
    exact (List.mem_cons.mp hmem).resolve_left hde
  unfold processItem
  split
  · rename_i hdead
    refine ⟨⟨dying.uri, dying.closed, dying.isProxy, dying.nodup, dying.alive, fun d hd => ?_,
      dying.others, dying.ops, dying.lookup⟩, rfl⟩
    have hde : d ≠ e := fun hde => dying.alive d hd (hde ▸ hdead)
    rcases dying.state d hd with waiting | gone
    · exact Or.inl ⟨waiting.status, waiting.events, hqueued d hde waiting⟩
    · exact Or.inr ⟨gone.status, gone.events, gone.erased, gone.disowned⟩
  · have howns : OwnEvents (h.entities e).synchronisableEvents := by
      by_cases he : M e
      · rcases dying.state e he with waiting | gone
        · exact waiting.events.own
        · rw [gone.events]
          exact .nil
      · exact (dying.others e he).1
    obtain ⟨x, n, hx, huri, -, hproxy, hdone, hstatus, hn⟩ := processOwnEvents_own v howns
      { h with synchronisableEvents := rest, freedAccess := h.freedAccess || !h.live e } e rfl
    obtain ⟨hchildren, hop⟩ := processOwnEvents_rest (v := v) howns
      { h with synchronisableEvents := rest, freedAccess := h.freedAccess || !h.live e } rfl
    dsimp only at hx huri hproxy hstatus hchildren hop ⊢
    rw [hx] at hchildren hop ⊢
    have hentity : ∀ d, (h.modify e fun _ => x).entities d = if d = e then x else h.entities d :=
      fun d => modify_entities h e d _
    change ((h.modify e fun _ => x).entities e).children = _ at hchildren
    rw [modify_entities_self] at hchildren
    have hdestroyed : M e → x.syncStatus = .destroyed := by
      intro he
      rw [hstatus]
      rcases dying.state e he with waiting | gone
      · exact waiting.events.fate
      · unfold Entity.fate
        rw [gone.events]
        exact gone.status
    have huris : ∀ d, ((h.modify e fun _ => x).entities d).uri = (h.entities d).uri := by
      intro d
      rw [hentity]
      split
      · rename_i hde
        rw [huri, hde]
      · rfl
    refine ⟨⟨fun d => (huris d).trans (dying.uri d), ?_, fun d hd => ?_, dying.nodup, dying.alive,
      fun d hd => ?_, fun d hd => ?_, fun d hd => ?_, dying.lookup⟩, rfl⟩
    · refine dying.closed_of rfl huris (fun d _ q hq => ?_) fun q y hy => hy
      change q ∈ ((h.modify e fun _ => x).entities d).children at hq
      rw [hentity] at hq
      split at hq
      · rename_i hde
        rw [hde, ← hchildren]
        exact hq
      · exact hq
    · change ((h.modify e fun _ => x).entities d).isProxy = true
      rw [hentity]
      split
      · rename_i hde
        rw [hproxy, ← hde]
        exact dying.isProxy d hd
      · exact dying.isProxy d hd
    · by_cases hde : d = e
      · subst hde
        refine Or.inr (dying.gone_of_ended hd ?_ ?_ (huris d) (List.mem_append_left _) hop rfl rfl)
        · change ((h.modify d fun _ => x).entities d).syncStatus = _
          rw [modify_entities_self]
          exact hdestroyed hd
        · change ((h.modify d fun _ => x).entities d).synchronisableEvents = _
          rw [modify_entities_self]
          exact hdone
      · have hsame : (h.modify e fun _ => x).entities d = h.entities d := by
          rw [hentity, if_neg hde]
        rcases dying.state d hd with waiting | gone
        · exact Or.inl (waiting.of_entity hsame (hqueued d hde waiting))
        · exact Or.inr (gone.of_entity hsame (List.mem_append_left _) rfl rfl)
    · change OwnEvents ((h.modify e fun _ => x).entities d).synchronisableEvents ∧
        .destroyed ∉ ((h.modify e fun _ => x).entities d).synchronisableEvents
      rw [hentity]
      split
      · rw [hdone]
        exact ⟨.nil, List.not_mem_nil⟩
      · exact dying.others d hd
    · change d ∈ h.cleanupOps ++ List.replicate n e at hd
      change M d ∧ ((h.modify e fun _ => x).entities d).syncStatus = .destroyed
      have hme : d = e → M e := by
        rintro rfl
        rcases List.mem_append.mp hd with hd | hd
        · exact (dying.ops d hd).1
        · by_contra hout
          rw [hn (dying.others d hout).2] at hd
          cases hd
      rw [hentity]
      split
      · rename_i hde
        exact ⟨hde ▸ hme hde, hdestroyed (hme hde)⟩
      · rename_i hde
        refine dying.ops d ((List.mem_append.mp hd).resolve_right fun hd => hde ?_)
        exact List.eq_of_mem_replicate hd

/-- The destructors of an entity that leaves deactivate nobody. -/
theorem deleteEntity_eq (hclosed : Rename.Closed M h)
    (hstate : ∀ d, M d → (h.entities d).isActivated = false) (he : M e)
    (hstatus : (h.entities e).syncStatus = .destroyed) :
    deleteEntity v h e = { h.modify e (fun x => { x with children := [] }) with
      live := Function.update h.live e false } := by
  have hcomponent : destroyComponent v h e = h.modify e fun x => { x with children := [] } := by
    unfold destroyComponent
    have hfold : ((h.getChildEntities e).drop 1).foldl (fun h c =>
        if (h.entities c).registered && (h.entities c).isActivated then
          v.deactivateEntity h c .syncReply
        else h) h = h := by
      refine List.foldlRecOn (motive := fun k => k = h) _ _ rfl fun k hk c hc => ?_
      subst hk
      have hM := Rename.Settles.getChildEntities hclosed he c (List.mem_of_mem_drop hc)
      rw [hstate c hM, Bool.and_false, if_neg Bool.false_ne_true]
    rw [hfold]
  unfold deleteEntity destroyEntityBase
  rw [hcomponent, modify_entities_self]
  simp only [hstatus, ne_eq, not_true_eq_false, false_and, if_false]
  rfl

theorem not_activated (dying : Dying M path table h) (hd : M d) :
    (h.entities d).isActivated = false := by
  unfold Entity.isActivated
  rcases dying.state d hd with waiting | gone
  · rw [waiting.status]
    rfl
  · rw [gone.status]
    rfl

/-- A callback of the reaper as an equation. -/
theorem cleanup_eq (dying : Dying M path table h) {rest : List EntityId}
    (hops : h.cleanupOps = e :: rest) :
    ZstHierarchy.cleanup v { h with cleanupOps := rest } e =
      { h with
        cleanupOps := rest
        freedAccess := h.freedAccess || !h.live e
        lookup := Function.update h.lookup (h.entities e).uri none
        proxies := h.proxies.erase e
        entities := if e ∈ h.proxies then
          Function.update h.entities e { h.entities e with children := [] } else h.entities
        live := if e ∈ h.proxies then Function.update h.live e false else h.live } := by
  obtain ⟨he, hstatus⟩ := dying.ops e (by rw [hops]; exact List.mem_cons_self)
  unfold ZstHierarchy.cleanup
  rw [if_neg (dying.alive e he)]
  unfold removeEntityFromLookup
  dsimp only
  by_cases howned : e ∈ h.proxies
  · have hclosed : Rename.Closed M
        { h with
          cleanupOps := rest
          freedAccess := h.freedAccess || !h.live e
          lookup := Function.update h.lookup (h.entities e).uri none
          proxies := h.proxies.erase e } := by
      refine dying.closed_of (k :=
        { h with
          cleanupOps := rest
          freedAccess := h.freedAccess || !h.live e
          lookup := Function.update h.lookup (h.entities e).uri none
          proxies := h.proxies.erase e })
        rfl (fun _ => rfl) (fun _ _ _ hq => hq) fun q x hx => ?_
      dsimp only at hx
      rw [Function.update_apply] at hx
      split at hx
      · cases hx
      · exact hx
    rw [if_pos ⟨dying.isProxy e he, howned⟩, deleteEntity_eq hclosed (fun d => dying.not_activated)
      he hstatus, if_pos howned, if_pos howned]
    rfl
  · rw [if_neg fun hboth => howned hboth.2, if_neg howned, if_neg howned,
      List.erase_of_not_mem howned]

/-- A callback of the reaper. -/
theorem cleanup (dying : Dying M path table h) {rest : List EntityId}
    (hops : h.cleanupOps = e :: rest) :
    Dying M path table (ZstHierarchy.cleanup v { h with cleanupOps := rest } e) ∧
      (ZstHierarchy.cleanup v { h with cleanupOps := rest } e).cleanupOps = rest ∧
      (ZstHierarchy.cleanup v { h with cleanupOps := rest } e).synchronisableEvents =
        h.synchronisableEvents := by
  have heq := dying.cleanup_eq (v := v) hops
  have hlookup := congrArg ZstHierarchy.lookup heq
  have hproxies := congrArg ZstHierarchy.proxies heq
  have hroot := congrArg ZstHierarchy.root heq
  have hdead := congrArg ZstHierarchy.deadIDs heq
  have hcleanup := congrArg ZstHierarchy.cleanupOps heq
  have hqueue := congrArg ZstHierarchy.synchronisableEvents heq
  have hentity : ∀ d, ∃ l, (ZstHierarchy.cleanup v { h with cleanupOps := rest } e).entities d =
      { h.entities d with children := l } ∧ ∀ q ∈ l, q ∈ (h.entities d).children := by
    intro d
    rw [heq]
    dsimp only
    split
    · rw [Function.update_apply]
      split
      · rename_i hde
        exact ⟨[], by rw [hde], fun q hq => absurd hq List.not_mem_nil⟩
      · exact ⟨_, rfl, fun q hq => hq⟩
    · exact ⟨_, rfl, fun q hq => hq⟩
  generalize ZstHierarchy.cleanup v { h with cleanupOps := rest } e = k at *
  dsimp only at hlookup hproxies hroot hdead hcleanup hqueue
  obtain ⟨he, hstatus⟩ := dying.ops e (by rw [hops]; exact List.mem_cons_self)
  have hfield {β : Type} (f : Entity → β) (hf : ∀ x l, f { x with children := l } = f x)
      (d : EntityId) : f (k.entities d) = f (h.entities d) := by
    obtain ⟨l, hl, -⟩ := hentity d
    rw [hl, hf]
  have huri := hfield Entity.uri fun _ _ => rfl
  have hstatuses := hfield Entity.syncStatus fun _ _ => rfl
  have hevents := hfield Entity.synchronisableEvents fun _ _ => rfl
  have hforgets : ∀ q x, k.lookup q = some x → h.lookup q = some x := by
    intro q x hx
    rw [hlookup, Function.update_apply] at hx
    split at hx
    · cases hx
    · exact hx
  have hkeeps : ∀ d, d ≠ e → d ∈ h.cleanupOps → d ∈ k.cleanupOps := by
    intro d hde hmem
    rw [hops] at hmem
    rw [hcleanup]
    exact (List.mem_cons.mp hmem).resolve_left hde
  refine ⟨⟨fun d => (huri d).trans (dying.uri d), ?_, fun d hd => ?_, ?_, fun d hd => ?_,
    fun d hd => ?_, fun d hd => ?_, fun d hd => ?_, fun q => ?_⟩, hcleanup, hqueue⟩
  · refine dying.closed_of hroot huri (fun d _ q hq => ?_) hforgets
    obtain ⟨l, hl, hsub⟩ := hentity d
    rw [hl] at hq
    exact hsub q hq
  · rw [hfield Entity.isProxy fun _ _ => rfl]
    exact dying.isProxy d hd
  · rw [hproxies]
    exact dying.nodup.erase e
  · rw [hdead]
    exact dying.alive d hd
  · rcases dying.state d hd with waiting | gone
    · exact Or.inl ⟨(hstatuses d).trans waiting.status, hevents d ▸ waiting.events,
        hqueue ▸ waiting.queued⟩
    · refine Or.inr ⟨(hstatuses d).trans gone.status, (hevents d).trans gone.events, ?_, ?_⟩
      · rw [huri, hlookup, Function.update_apply]
        by_cases hde : (h.entities d).uri = (h.entities e).uri
        · exact Or.inr (if_pos hde)
        · rw [if_neg hde]
          exact gone.erased.imp_left (hkeeps d fun heq => hde (by rw [heq]))
      · rw [hproxies]
        by_cases hde : d = e
        · rw [hde]
          exact Or.inr dying.nodup.not_mem_erase
        · exact gone.disowned.imp (hkeeps d hde) fun hnot hmem => hnot (List.mem_of_mem_erase hmem)
  · rw [hevents]
    exact dying.others d hd
  · rw [hcleanup] at hd
    rw [hstatuses]
    exact dying.ops d (by rw [hops]; exact List.mem_cons_of_mem e hd)
  · rw [hlookup, Function.update_apply]
    split
    · rename_i hq
      exact Or.inr ⟨rfl, e, he, by rw [hq, dying.uri]⟩
    · exact dying.lookup q

theorem drain (dying : Dying M path table h) (hk : Drain v h k) : Dying M path table k := by
  cases hk with
  | event _ heard => exact dying.heard heard
  | item =>
    unfold processItems
    split
    · exact dying
    · rename_i e rest hqueue
      exact (dying.item hqueue).1
  | cleanup =>
    unfold reapAll
    split
    · exact dying
    · rename_i e rest hops
      exact (dying.cleanup hops).1
  | forgetDead =>
    exact ⟨dying.uri, dying.closed, dying.isProxy, dying.nodup, fun _ _ => List.not_mem_nil,
      fun d hd => (dying.state d hd).imp (fun w => ⟨w.status, w.events, w.queued⟩)
        fun g => ⟨g.status, g.events, g.erased, g.disowned⟩,
      dying.others, dying.ops, dying.lookup⟩

/-- Once everything is drained the table has lost exactly those who leave. -/
theorem drained (dying : Dying M path table h) (hsteps : Relation.ReflTransGen (Drain v) h k)
    (idle : Idle k) (q : ZstURI) : k.lookup q = table q ∧ (∀ d, M d → path d ≠ q) ∨
      k.lookup q = none ∧ ∃ d, M d ∧ path d = q := by
  have hend : Dying M path table k := by
    refine Relation.ReflTransGen.head_induction_on
      (motive := fun h _ => Dying M path table h → Dying M path table k) hsteps id
      (fun hstep _ ih dying => ih (dying.drain hstep)) dying
  have hgone : ∀ d, M d → k.lookup (path d) = none := by
    intro d hd
    rcases hend.state d hd with waiting | gone
    · have hmem := waiting.queued
      rw [idle.synchronisableEvents] at hmem
      cases hmem
    · rw [← hend.uri d]
      refine gone.erased.resolve_left fun hmem => ?_
      rw [idle.cleanupOps] at hmem
      cases hmem
  by_cases hq : ∃ d, M d ∧ path d = q
  · obtain ⟨d, hd, rfl⟩ := hq
    exact Or.inr ⟨hgone d hd, d, hd, rfl⟩
  · have hnot : ∀ d, M d → path d ≠ q := fun d hd heq => hq ⟨d, hd, heq⟩
    refine Or.inl ⟨(hend.lookup q).resolve_right fun ⟨_, hmem⟩ => hq hmem, hnot⟩

/-- The event loop and the reaper do come to an end. -/
theorem exists_idle (dying : Dying M path table h) :
    ∃ n m, Idle ((reapAll v 1)^[m] ((processItems v 1)^[n] h)) := by
  have hitems : ∀ (queue : List EntityId) h, Dying M path table h → h.synchronisableEvents = queue →
      ∃ n, Dying M path table ((processItems v 1)^[n] h) ∧
        ((processItems v 1)^[n] h).synchronisableEvents = [] := by
    intro queue
    induction queue with
    | nil => exact fun h dying hqueue => ⟨0, dying, hqueue⟩
    | cons e rest ih =>
      intro h dying hqueue
      obtain ⟨hnext, hrest⟩ := dying.item (v := v) hqueue
      have hstep : processItems v 1 h =
          processItem v { h with synchronisableEvents := rest } e := by
        simp only [processItems, hqueue]
      obtain ⟨n, hk, hidle⟩ := ih _ hnext hrest
      refine ⟨n + 1, ?_⟩
      rw [Function.iterate_succ_apply, hstep]
      exact ⟨hk, hidle⟩
  have hreaps : ∀ (ops : List EntityId) h, Dying M path table h → h.synchronisableEvents = [] →
      h.cleanupOps = ops → ∃ m, Idle ((reapAll v 1)^[m] h) := by
    intro ops
    induction ops with
    | nil => exact fun h _ hqueue hops => ⟨0, hqueue, hops⟩
    | cons e rest ih =>
      intro h dying hqueue hops
      obtain ⟨hnext, hrest, hsame⟩ := dying.cleanup (v := v) hops
      have hstep : reapAll v 1 h = ZstHierarchy.cleanup v { h with cleanupOps := rest } e := by
        simp only [reapAll, hops]
      obtain ⟨m, hidle⟩ := ih _ hnext (hsame.trans hqueue) hrest
      refine ⟨m + 1, ?_⟩
      rw [Function.iterate_succ_apply, hstep]
      exact hidle
  obtain ⟨n, hdying, hqueue⟩ := hitems _ h dying rfl
  obtain ⟨m, hidle⟩ := hreaps _ _ hdying hqueue rfl
  exact ⟨n, m, hidle⟩

end Dying

/-! ## Entities that begin to leave -/

/-- The entity is activated and is not about to leave. -/
structure Staying (h : ZstHierarchy) (d : EntityId) : Prop where
  status : (h.entities d).syncStatus = .activated
  events : ∀ event ∈ (h.entities d).synchronisableEvents, event = .activated ∨ event = .updated

/-- Some of the entities that leave still have to be told. -/
structure Telling (M : EntityId → Prop) (rest : List EntityId) (h : ZstHierarchy) : Prop where
  closed : Rename.Closed M h
  registered : ∀ d, M d → (h.entities d).registered = true
  isProxy : ∀ d, M d → (h.entities d).isProxy = true
  nodup : h.proxies.Nodup
  alive : ∀ d, M d → d ∉ h.deadIDs
  state : ∀ d, M d → Waiting h d ∨ Staying h d ∧ d ∈ rest
  others : ∀ d, ¬ M d → OwnEvents (h.entities d).synchronisableEvents ∧
    .destroyed ∉ (h.entities d).synchronisableEvents
  cleanupOps : h.cleanupOps = []

namespace Telling

variable {M : EntityId → Prop} {rest : List EntityId}

/-- `enqueue_deactivation` of an activated entity. -/
theorem enqueueDeactivation_eq (hstatus : (h.entities d).syncStatus = .activated)
    (hregistered : (h.entities d).registered = true) :
    enqueueDeactivation h d = { h.modify d (fun x =>
      { x with
        syncStatus := .deactivationQueued
        synchronisableEvents := x.synchronisableEvents ++ [.deactivated, .destroyed] }) with
      synchronisableEvents := h.synchronisableEvents ++ [d] } := by
  unfold enqueueDeactivation
  rw [if_pos (Or.inl hstatus)]
  simp only [setActivationStatus, deferEvents, synchronisableHasEvent, modify_entities_self,
    hregistered, if_true, modify_synchronisableEvents]
  simp only [ZstHierarchy.modify, Function.update_idem, Function.update_self]

theorem enqueueDeactivation (telling : Telling M (e :: rest) h) (he : M e) :
    Telling M rest (enqueueDeactivation h e) ∧
      (ZstHierarchy.enqueueDeactivation h e).lookup = h.lookup ∧
      ∀ d, ((ZstHierarchy.enqueueDeactivation h e).entities d).uri = (h.entities d).uri := by
  by_cases hstatus : (h.entities e).syncStatus = .activated
  · rw [enqueueDeactivation_eq hstatus (telling.registered e he)]
    have hentity (d : EntityId) := modify_entities h e d fun x =>
      { x with
        syncStatus := .deactivationQueued
        synchronisableEvents := x.synchronisableEvents ++ [.deactivated, .destroyed] }
    have hother : ∀ d, d ≠ e → (h.modify e fun x =>
        { x with
          syncStatus := .deactivationQueued
          synchronisableEvents :=
            x.synchronisableEvents ++ [.deactivated, .destroyed] }).entities d = h.entities d :=
      fun d hde => by rw [hentity, if_neg hde]
    have hfield {β : Type} (f : Entity → β)
        (hf : ∀ x s l, f { x with syncStatus := s, synchronisableEvents := l } = f x)
        (d : EntityId) : f ((h.modify e fun x =>
          { x with
            syncStatus := .deactivationQueued
            synchronisableEvents :=
              x.synchronisableEvents ++ [.deactivated, .destroyed] }).entities d) =
          f (h.entities d) := by
      rw [hentity]
      split
      · rename_i hde
        rw [hf, hde]
      · rfl
    have huri := hfield Entity.uri fun _ _ _ => rfl
    refine ⟨⟨fun d hd q hq x hx => ?_, fun d hd => ?_, fun d hd => ?_, telling.nodup,
      telling.alive, fun d hd => ?_, fun d hd => ?_, telling.cleanupOps⟩, rfl, huri⟩
    · rw [hfield Entity.children fun _ _ _ => rfl] at hq
      refine telling.closed d hd q hq x ?_
      unfold findEntity at hx ⊢
      simp only [modify_root, huri] at hx
      exact hx
    · rw [hfield Entity.registered fun _ _ _ => rfl]
      exact telling.registered d hd
    · rw [hfield Entity.isProxy fun _ _ _ => rfl]
      exact telling.isProxy d hd
    · by_cases hde : d = e
      · subst hde
        refine Or.inl ⟨?_, ?_, List.mem_append_right _ (List.mem_singleton_self d)⟩
        · rw [hentity, if_pos rfl]
        · rw [hentity, if_pos rfl]
          rcases telling.state d hd with waiting | ⟨staying, -⟩
          · rw [waiting.status] at hstatus
            cases hstatus
          · exact ⟨_, (own_of_harmless staying.events).1, rfl⟩
      · rcases telling.state d hd with waiting | ⟨staying, hmem⟩
        · refine Or.inl ⟨?_, ?_, List.mem_append_left _ waiting.queued⟩
          · rw [hother d hde]
            exact waiting.status
          · rw [hother d hde]
            exact waiting.events
        · refine Or.inr ⟨⟨?_, ?_⟩, (List.mem_cons.mp hmem).resolve_left hde⟩
          · rw [hother d hde]
            exact staying.status
          · rw [hother d hde]
            exact staying.events
    · rw [hother d fun hde => hd (hde ▸ he)]
      exact telling.others d hd
  · -- the entity has been told already
    have hwaiting : Waiting h e :=
      (telling.state e he).resolve_right fun ⟨staying, _⟩ => hstatus staying.status
    have hsame : ZstHierarchy.enqueueDeactivation h e = h := by
      unfold ZstHierarchy.enqueueDeactivation
      rw [hwaiting.status]
      exact if_neg (by decide)
    rw [hsame]
    refine ⟨⟨telling.closed, telling.registered, telling.isProxy, telling.nodup, telling.alive,
      fun d hd => ?_, telling.others, telling.cleanupOps⟩, rfl, fun _ => rfl⟩
    refine (telling.state d hd).imp_right fun ⟨staying, hmem⟩ => ⟨staying, ?_⟩
    exact (List.mem_cons.mp hmem).resolve_left fun hde => hstatus (hde ▸ staying.status)

/-- Once everybody has been told they all leave. -/
theorem dying (telling : Telling M rest h) (hrest : ∀ d ∈ rest, M d) :
    Dying M (fun d => (h.entities d).uri) h.lookup
      (rest.foldl ZstHierarchy.enqueueDeactivation h) := by
  have hrun : ∀ (path : EntityId → ZstURI) (table : ZstURI → Option EntityId) (k : ZstHierarchy),
      Telling M rest k → k.lookup = table → (∀ d, (k.entities d).uri = path d) →
      Dying M path table (rest.foldl ZstHierarchy.enqueueDeactivation k) := by
    clear telling
    intro path table
    induction rest with
    | nil =>
      intro k telling htable hpath
      refine ⟨hpath, telling.closed, telling.isProxy, telling.nodup, telling.alive, fun d hd => ?_,
        telling.others, fun d hd => ?_, fun q => Or.inl (congrFun htable q)⟩
      · exact (telling.state d hd).imp_right fun ⟨_, hmem⟩ => absurd hmem List.not_mem_nil
      · change d ∈ k.cleanupOps at hd
        rw [telling.cleanupOps] at hd
        cases hd
    | cons e rest ih =>
      intro k telling htable hpath
      obtain ⟨hnext, hlookup, huri⟩ := telling.enqueueDeactivation (hrest e List.mem_cons_self)
      exact ih (fun d hd => hrest d (List.mem_cons_of_mem e hd)) _ hnext (hlookup.trans htable)
        fun d => (huri d).trans (hpath d)
  exact hrun _ _ h telling rfl fun _ => rfl

end Telling

end Showtime.Draining
