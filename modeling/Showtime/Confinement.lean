import Mathlib.Tactic.IntervalCases
import Showtime.RenameRuns
/-!
# Requests about other performers

A client asks the stage to create, update or destroy entities. The stage compares
the sender with the target for the first of these only. This module says which
requests leave alone what stands below the other performers, while the queues that
they fill are drained in any order.
-/

namespace Showtime.Confinement

open ZstHierarchy ZstStageHierarchy ZstStageSession ZstStage Cabling CableSets Footprint
open NamedEntities (Renames)
open RenamedCables (cleanup_places updateProxyEntity_unnamed)

/-- The entity waits in the module's queue, or for the reaper. -/
def QueuedToLeave (h : ZstHierarchy) (d : EntityId) : Prop :=
  d ∈ h.synchronisableEvents ∨ d ∈ h.cleanupOps

/-- What is found elsewhere than at or below the path is found there still, unless it was on
its way out, and nobody new is found there but an entity of the performer at that path. -/
structure Confined (p : ZstURI) (h k : ZstHierarchy) : Prop where
  lookup : ∀ q x, ¬ p <+: q → h.lookup q = some x → k.lookup q = some x ∨
    k.lookup q = none ∧ ∃ d, QueuedToLeave h d ∧ (h.entities d).uri = q
  entities : ∀ q x, ¬ p <+: q → h.lookup q = some x → ¬ QueuedToLeave h x →
    lone (k.entities x) = lone (h.entities x) ∧
      (k.entities x).children = (h.entities x).children
  arrivals : ∀ q x, ¬ p <+: q → k.lookup q = some x → h.lookup q = some x ∨
    ∃ r, p <+: r ∧ h.lookup r = some x

/-! ## Who waits -/

/-- Who waits now waited before, or is one of these. -/
def Queues (M : EntityId → Prop) (h k : ZstHierarchy) : Prop :=
  ∀ d, QueuedToLeave k d → QueuedToLeave h d ∨ M d

namespace Queues

variable {h k l : ZstHierarchy} {M : EntityId → Prop}

theorem refl (h : ZstHierarchy) : Queues M h h :=
  fun _ => Or.inl

theorem trans (hk : Queues M h k) (kl : Queues M k l) : Queues M h l := fun d hd =>
  (kl d hd).elim (hk d) Or.inr

theorem of_eq (hqueue : k.synchronisableEvents = h.synchronisableEvents)
    (hops : k.cleanupOps = h.cleanupOps) : Queues M h k := fun d hd => by
  unfold QueuedToLeave at hd
  rw [hqueue, hops] at hd
  exact Or.inl hd

theorem of_treeEdit (hk : TreeEdit h k) : Queues M h k :=
  of_eq hk.synchronisableEvents hk.cleanupOps

theorem foldl {α : Type} {g : ZstHierarchy → α → ZstHierarchy} {items : List α}
    (hg : ∀ h, ∀ a ∈ items, Queues M h (g h a)) (h : ZstHierarchy) :
    Queues M h (items.foldl g h) := by
  induction items generalizing h with
  | nil => exact .refl h
  | cons a items ih =>
    exact (hg h a List.mem_cons_self).trans
      (ih (fun h b hb => hg h b (List.mem_cons_of_mem a hb)) (g h a))

theorem synchronisableHasEvent (h : ZstHierarchy) {e : EntityId} (he : M e) :
    Queues M h (h.synchronisableHasEvent e) := fun d hd => by
  unfold ZstHierarchy.synchronisableHasEvent at hd
  split at hd
  · rcases hd with hd | hd
    · rcases List.mem_append.mp hd with hd | hd
      · exact Or.inl (Or.inl hd)
      · exact Or.inr (List.mem_singleton.mp hd ▸ he)
    · exact Or.inl (Or.inr hd)
  · exact Or.inl hd

theorem enqueueDeactivation (h : ZstHierarchy) {e : EntityId} (he : M e) :
    Queues M h (h.enqueueDeactivation e) := by
  unfold ZstHierarchy.enqueueDeactivation
  split
  · exact .trans (k := (h.setActivationStatus e .deactivationQueued).deferEvents e
      [.deactivated, .destroyed]) (.of_eq rfl rfl) (synchronisableHasEvent _ he)
  · exact .refl h

theorem deactivateEntityBase (h : ZstHierarchy) (e : EntityId) :
    Queues M h (h.deactivateEntityBase e) := by
  unfold ZstHierarchy.deactivateEntityBase
  split
  · exact .refl h
  · exact .of_eq rfl rfl

/-- Only its own events make an entity wait for the reaper. -/
theorem processEvent (h : ZstHierarchy) {e : EntityId} (he : M e) (event : SynchronisableEvent) :
    Queues M h (ZstHierarchy.processEvent stageOverrides h e event) := by
  cases event with
  | activated | deactivated => exact .of_eq rfl rfl
  | updated => exact .refl h
  | destroyed =>
    have hcleanup : ∀ k : ZstHierarchy, Queues M k
        (({ k with cleanupOps := k.cleanupOps ++ [e] }).setActivationStatus e .destroyed) := by
      rintro k d (hd | hd)
      · exact Or.inl (Or.inl hd)
      · rcases List.mem_append.mp hd with hd | hd
        · exact Or.inl (Or.inr hd)
        · exact Or.inr (List.mem_singleton.mp hd ▸ he)
    unfold ZstHierarchy.processEvent ZstHierarchy.onSynchronisableDestroyed
    simp only [Bool.false_eq_true, if_false]
    split
    · exact (deactivateEntityBase h e).trans (hcleanup _)
    · exact hcleanup h

/-- An item of the queue waits for the reaper afterwards, or for nothing. -/
theorem processItem (h : ZstHierarchy) {e : EntityId} (he : M e) :
    Queues M h (ZstHierarchy.processItem stageOverrides h e) := by
  unfold ZstHierarchy.processItem
  split
  · exact .refl h
  · refine processOwnEvents_rule stageOverrides (P := Queues M h) ?_ _ (.of_eq rfl rfl)
    intro k event rest hk _
    have hpopped : Queues M k (k.modify e fun x => { x with synchronisableEvents := rest }) :=
      .of_eq rfl rfl
    exact (hk.trans hpopped).trans (processEvent _ he event)

/-- Who is deleted makes nobody wait. -/
theorem cleanup (h : ZstHierarchy) (e : EntityId) :
    Queues M h (ZstHierarchy.cleanup stageOverrides h e) := by
  have hdelete : ∀ k : ZstHierarchy, Queues M k (deleteEntity stageOverrides k e) := by
    intro k
    have hcomponent : Queues M k (destroyComponent stageOverrides k e) := by
      unfold destroyComponent
      refine .trans (foldl (fun h c _ => ?_) k) (.of_eq rfl rfl)
      split
      · exact deactivateEntityBase h c
      · exact .refl h
    have hdestroyed : ∀ l : ZstHierarchy,
        Queues M l (onSynchronisableDestroyed stageOverrides l e true) := by
      intro l
      unfold ZstHierarchy.onSynchronisableDestroyed
      simp only [if_true]
      split
      · exact (deactivateEntityBase l e).trans (.of_eq rfl rfl)
      · exact .of_eq rfl rfl
    unfold deleteEntity destroyEntityBase
    dsimp only
    split
    · exact (hcomponent.trans (hdestroyed _)).trans (.of_eq rfl rfl)
    · exact hcomponent.trans (.of_eq rfl rfl)
  unfold ZstHierarchy.cleanup
  split
  · exact .refl h
  · dsimp only
    split
    · exact .trans (.of_eq rfl rfl) (hdelete _)
    · exact .of_eq rfl rfl

theorem sends (h : ZstHierarchy) (sent : List Outgoing) : Queues M h { h with sent } :=
  .of_eq rfl rfl

theorem broadcast (h : ZstHierarchy) (content : Content) (excluded : Option EntityId) :
    Queues M h (ZstStageHierarchy.broadcast h content excluded) := by
  rw [broadcast_eq]
  exact .sends h _

theorem destroyCable (s : ZstSession) (c : CableId) :
    Queues M s.hierarchy (ZstStageSession.destroyCable s c).hierarchy := by
  have hunplugs : ∀ (t : ZstSession) address, Queues M t.hierarchy (t.unplug address).hierarchy :=
    fun t address => ZstSession.unplug_rule (P := fun u => Queues M t.hierarchy u.hierarchy) address
      (fun _ _ hu => hu.trans (.of_eq rfl rfl)) (.refl t.hierarchy)
  unfold ZstStageSession.destroyCable
  rw [ZstSession.destroyCableComplete_eq]
  unfold ZstSession.enqueueCableDeactivation
  split
  · exact (broadcast s.hierarchy _ none).trans (hunplugs _ _)
  · exact (broadcast s.hierarchy _ none).trans (hunplugs _ _)

theorem onEntityArriving (h : ZstHierarchy) (e : EntityId) :
    Queues M h (ZstStageSession.onEntityArriving h e) := by
  unfold ZstStageSession.onEntityArriving
  dsimp only
  split
  · exact .refl h
  · exact broadcast h _ _

theorem registerEntity (s : ZstSession) (e : EntityId) :
    Queues M s.hierarchy (s.registerEntity e).hierarchy :=
  foldl (g := fun h c => h.modify c fun x => { x with sessionAdaptor := true })
    (fun _ _ _ => .of_eq rfl rfl) s.hierarchy

/-- What the session does with an event of the hierarchy lets nobody leave. -/
theorem processHierarchyEvent {s t : ZstSession} {event : HierarchyEvent}
    (hrun : ZstStageSession.processHierarchyEvent s event = .ok t) :
    Queues M s.hierarchy t.hierarchy := by
  cases event with
  | entityArriving e | performerArriving e =>
    obtain ⟨e, -, hrun⟩ := Library.bind_ok.mp hrun
    obtain rfl := Except.ok.inj hrun
    exact (onEntityArriving s.hierarchy e).trans
      (registerEntity (onHierarchy s fun h => ZstStageSession.onEntityArriving h e) e)
  | factoryArriving e =>
    obtain ⟨e, -, hrun⟩ := Library.bind_ok.mp hrun
    obtain rfl := Except.ok.inj hrun
    exact onEntityArriving s.hierarchy e
  | entityLeaving path | performerLeaving path =>
    obtain rfl := Except.ok.inj hrun
    unfold disconnectCables
    split
    · exact .refl _
    · exact List.foldlRecOn (motive := fun t => Queues M s.hierarchy t.hierarchy) _ _
        (.refl s.hierarchy) fun t ht c _ => ht.trans (destroyCable t c)
  | factoryLeaving path | entityUpdated e =>
    obtain rfl := Except.ok.inj hrun
    exact .refl _

end Queues

/-! ## Drains -/

/-- A step of the event loop or of the reapers. -/
def IsDrain : StageEvent → Prop
  | .hierarchyEvent | .synchronisableEvent | .cleanup | .forgetDead | .cableEvents => True
  | _ => False

/-- The performer's own entities, by where they were, and where they are now. -/
structure OwnPlaced (p : ZstURI) (mine : EntityId → Prop) (h k : ZstHierarchy) : Prop where
  confined : Confined p h k
  waiting : Queues mine h k
  uri : ∀ d, QueuedToLeave k d → (k.entities d).uri = (h.entities d).uri ∨
    ∀ x, h.lookup (k.entities d).uri = some x → p <+: (k.entities d).uri

section Drains

variable {p : ZstURI} {mine : EntityId → Prop} {h k l : ZstHierarchy}

theorem lone_of_standing (hk : Standing h k) (d : EntityId) :
    lone (k.entities d) = lone (h.entities d) :=
  congrArg (fun x : Entity => { x with children := [] }) (hk.entities d)

/-- Nobody moves, and nobody new waits. -/
theorem OwnPlaced.standing (placed : OwnPlaced p mine h k) (hk : Standing k l)
    (hwaiting : ∀ d, QueuedToLeave l d → QueuedToLeave k d) : OwnPlaced p mine h l := by
  have hchildren := hk.field Entity.children fun _ => rfl
  refine ⟨⟨fun q x hq hx => ?_, fun q x hq hx hstays => ?_, fun q x hq hx => ?_⟩, fun d hd => ?_,
    fun d hd => ?_⟩
  · rw [hk.lookup]
    exact placed.confined.lookup q x hq hx
  · rw [lone_of_standing hk, hchildren]
    exact placed.confined.entities q x hq hx hstays
  · rw [hk.lookup] at hx
    exact placed.confined.arrivals q x hq hx
  · exact placed.waiting d (hwaiting d hd)
  · rw [hk.field Entity.uri fun _ => rfl]
    exact placed.uri d (hwaiting d hd)

/-- The reaper takes one entity out of the table, at the path that it has now. -/
theorem cleanup_erases (h : ZstHierarchy) (e : EntityId) :
    (∀ q, (cleanup stageOverrides h e).lookup q = h.lookup q ∨
      q = (h.entities e).uri ∧ (cleanup stageOverrides h e).lookup q = none) ∧
    ∀ d, d ≠ e → ((cleanup stageOverrides h e).entities d).children = (h.entities d).children := by
  have hchildren : ∀ {k l : ZstHierarchy}, Standing k l → ∀ d,
      (l.entities d).children = (k.entities d).children :=
    fun hk => hk.field Entity.children fun _ => rfl
  have herased : ∀ q, Function.update h.lookup (h.entities e).uri none q = h.lookup q ∨
      q = (h.entities e).uri ∧ Function.update h.lookup (h.entities e).uri none q = none := by
    intro q
    by_cases hq : q = (h.entities e).uri
    · rw [hq, Function.update_self]
      exact Or.inr ⟨rfl, rfl⟩
    · exact Or.inl (Function.update_of_ne hq _ _)
  rcases cleanup_cases h e with hk | hk | ⟨-, hk⟩
  · exact ⟨fun q => Or.inl (congrFun hk.lookup q), fun d _ => hchildren hk d⟩
  · refine ⟨fun q => ?_, fun d _ => hchildren hk d⟩
    rw [hk.lookup]
    exact herased q
  · refine ⟨fun q => ?_, fun d hd => (hchildren hk d).trans ?_⟩
    · rw [hk.lookup]
      exact herased q
    · rw [FindsOwned.bury_entities, if_neg hd]

/-- The reaper takes out those who waited, and the performer's own. -/
theorem OwnPlaced.cleanup (placed : OwnPlaced p mine h k) (indexed : Indexed h)
    (hmine : ∀ d, mine d → p <+: (h.entities d).uri) {e : EntityId} {rest : List EntityId}
    (hops : k.cleanupOps = e :: rest) :
    OwnPlaced p mine h (ZstHierarchy.cleanup stageOverrides { k with cleanupOps := rest } e) := by
  have he : QueuedToLeave k e := Or.inr (hops ▸ List.mem_cons_self)
  have hwaiting : ∀ d,
      QueuedToLeave (ZstHierarchy.cleanup stageOverrides { k with cleanupOps := rest } e) d →
        QueuedToLeave k d := fun d hd => by
    rcases Queues.cleanup (M := fun _ => False) { k with cleanupOps := rest } e d hd with
      (hd | hd) | hd
    · exact Or.inl hd
    · exact Or.inr (hops ▸ List.mem_cons_of_mem e hd)
    · exact hd.elim
  obtain ⟨hlookup, hchildren⟩ := cleanup_erases { k with cleanupOps := rest } e
  obtain ⟨-, -, -, hlone⟩ := cleanup_places { k with cleanupOps := rest } e
  generalize ZstHierarchy.cleanup stageOverrides { k with cleanupOps := rest } e = l
    at hwaiting hlookup hchildren hlone ⊢
  dsimp only at hlookup hchildren hlone
  have huri : ∀ d, (l.entities d).uri = (k.entities d).uri := fun d => by
    have hd := congrArg Entity.uri (hlone d)
    exact hd
  refine ⟨⟨fun q x hq hx => ?_, fun q x hq hx hstays => ?_, fun q x hq hx => ?_⟩, fun d hd => ?_,
    fun d hd => ?_⟩
  · rcases hlookup q with hsame | ⟨rfl, hnone⟩
    · rw [hsame]
      exact placed.confined.lookup q x hq hx
    · refine Or.inr ⟨hnone, e, ?_⟩
      rcases placed.uri e he with huri | hfree
      · refine ⟨(placed.waiting e he).resolve_right fun hown => ?_, huri.symm⟩
        exact hq (huri ▸ hmine e hown)
      · exact absurd (hfree x hx) hq
  · obtain ⟨hsame, hkept⟩ := placed.confined.entities q x hq hx hstays
    refine ⟨(hlone x).trans hsame, (hchildren x ?_).trans hkept⟩
    rintro rfl
    rcases placed.waiting x he with hold | hown
    · exact hstays hold
    · exact hq (indexed.uri q x hx ▸ hmine x hown)
  · rcases hlookup q with hsame | ⟨-, hnone⟩
    · exact placed.confined.arrivals q x hq (hsame ▸ hx)
    · rw [hnone] at hx
      cases hx
  · exact placed.waiting d (hwaiting d hd)
  · rw [huri]
    exact placed.uri d (hwaiting d hd)

/-- Whoever is processed waited in the queue. -/
theorem leaving_processItems {d : EntityId}
    (hd : QueuedToLeave (processItems stageOverrides 1 h) d) : QueuedToLeave h d := by
  unfold processItems at hd
  cases hqueue : h.synchronisableEvents with
  | nil =>
    rw [hqueue] at hd
    exact hd
  | cons e rest =>
    rw [hqueue] at hd
    have he : QueuedToLeave h e := Or.inl (hqueue ▸ List.mem_cons_self)
    have hitem := Queues.processItem (M := (· = e)) { h with synchronisableEvents := rest } rfl d hd
    rcases hitem with (hd | hd) | rfl
    · exact Or.inl (hqueue ▸ List.mem_cons_of_mem e hd)
    · exact Or.inr hd
    · exact he

end Drains

section Steps

variable {p : ZstURI} {mine : EntityId → Prop} {h : ZstHierarchy} {s t : ZstSession}

/-- A step of the event loop or the reapers. -/
theorem OwnPlaced.step (placed : OwnPlaced p mine h s.hierarchy) (indexed : Indexed h)
    (hmine : ∀ d, mine d → p <+: (h.entities d).uri) {event : StageEvent}
    (hevent : IsDrain event) (hrun : ZstStage.step s event = .ok t) :
    OwnPlaced p mine h t.hierarchy := by
  cases event with
  | receive | respond | heartbeatTimer => exact hevent.elim
  | hierarchyEvent =>
    simp only [ZstStage.step] at hrun
    split at hrun
    · obtain rfl := Except.ok.inj hrun
      exact placed
    · rename_i event rest hevents
      have hpopped : OwnPlaced p mine h { s.hierarchy with hierarchyEvents := rest } :=
        ⟨⟨placed.confined.lookup, placed.confined.entities, placed.confined.arrivals⟩,
          placed.waiting, placed.uri⟩
      refine hpopped.standing (Standing.processHierarchyEvent hrun) fun d hd => ?_
      exact (Queues.processHierarchyEvent (M := fun _ => False) hrun d hd).resolve_right id
  | synchronisableEvent =>
    obtain rfl := Except.ok.inj hrun
    exact placed.standing (Standing.processItems 1 s.hierarchy) fun _ => leaving_processItems
  | cleanup =>
    obtain rfl := Except.ok.inj hrun
    unfold onHierarchy
    cases hops : s.hierarchy.cleanupOps with
    | nil =>
      simp only [reapAll, hops]
      exact placed
    | cons e rest =>
      simp only [reapAll, hops]
      exact placed.cleanup indexed hmine hops
  | forgetDead =>
    obtain rfl := Except.ok.inj hrun
    exact ⟨⟨placed.confined.lookup, placed.confined.entities, placed.confined.arrivals⟩,
      placed.waiting, placed.uri⟩
  | cableEvents =>
    obtain rfl := Except.ok.inj hrun
    rw [Standing.cableEvents_hierarchy]
    exact placed

end Steps

/-! ## Requests about one's own entities -/

/-- Nobody is found elsewhere at a path that a move passes. -/
def PassesFree (h : ZstHierarchy) (p : ZstURI) (paths : ZstURI → Prop) : Prop :=
  ∀ q x, paths q → h.lookup q = some x → p <+: q

/-- The entity and everything below it stand at or below the path. -/
def StandsBelow (h : ZstHierarchy) (p : ZstURI) (e : EntityId) : Prop :=
  ∀ d, h.Below e d → p <+: (h.entities d).uri

/-- The entity stands below the performer, and comes off its parent, which does so too,
without passing anybody elsewhere. -/
def RemovesOwn (h : ZstHierarchy) (p : ZstURI) (e : EntityId) : Prop :=
  (h.entities e).isProxy = true → StandsBelow h p e ∧
    (h.parent e = none ∨ p <+: (h.entities e).parentAddress ∧ PassesFree h p (RemovalPaths h e))

/-- `update_proxy_entity` brings a factory other creatables. -/
def Restocks (h : ZstHierarchy) (buffer : EntityBuffer) (e : EntityId) : Prop :=
  buffer.entityType = .factory ∧ (h.entities e).entityType = .factory

/-- Whoever is changed stands below the performer, and is renamed without passing anybody
elsewhere. -/
structure UpdatesOwn (h : ZstHierarchy) (p : ZstURI) (buffer : EntityBuffer) (e : EntityId) :
    Prop where
  restocks : Restocks h buffer e → p <+: (h.entities e).uri
  renames : Renames h e buffer → StandsBelow h p e ∧
    (h.parent e = none ∨ p <+: (h.entities e).parentAddress) ∧
      PassesFree h p (RenamePaths h e buffer.uri.last)

/-- Only entities below the performer have moved, or begin to wait. -/
def SparesOthers (p : ZstURI) (h k : ZstHierarchy) : Prop :=
  ∃ mine : EntityId → Prop, (∀ d, mine d → p <+: (h.entities d).uri) ∧ OwnPlaced p mine h k

section Requests

variable {p : ZstURI} {h k : ZstHierarchy} {e : EntityId} {buffer : EntityBuffer}

theorem OwnPlaced.of_standing {mine : EntityId → Prop} (hk : Standing h k)
    (hwaiting : Queues mine h k) : OwnPlaced p mine h k := by
  refine ⟨⟨fun q x _ hx => ?_, fun q x _ _ _ => ⟨lone_of_standing hk x, ?_⟩,
    fun q x _ hx => Or.inl ?_⟩, hwaiting, fun d _ => Or.inl ?_⟩
  · exact Or.inl (hk.lookup ▸ hx)
  · exact hk.field Entity.children (fun _ => rfl) x
  · exact hk.lookup ▸ hx
  · exact hk.field Entity.uri (fun _ => rfl) d

theorem SparesOthers.refl (p : ZstURI) (h : ZstHierarchy) : SparesOthers p h h :=
  ⟨fun _ => False, fun _ hd => hd.elim, .of_standing (.refl h) (.refl h)⟩

/-- A move below the performer that passes nobody elsewhere. -/
theorem OwnPlaced.of_passes {paths : ZstURI → Prop} (indexed : Indexed h)
    (he : h.lookup (h.entities e).uri = some e) (hbelow : StandsBelow h p e)
    (hparent : h.parent e = none ∨ p <+: (h.entities e).parentAddress)
    (hfree : PassesFree h p paths)
    (hk : Passes h (h.Below e) (ParentOf h e) paths k)
    (hwaiting : Queues (h.Below e) h k) : OwnPlaced p (h.Below e) h k := by
  have helse : ∀ {q x d}, ¬ p <+: q → h.lookup q = some x → h.Below e d →
      (h.entities d).uri ≠ q := by
    rintro q x d hq - hd rfl
    exact hq (hbelow d hd)
  refine ⟨⟨fun q x hq hx => Or.inl ?_, fun q x hq hx _ => ⟨hk.outside x fun hM => ?_,
    hk.children x (fun hM => ?_) fun hR => ?_⟩, fun q x hq hx => ?_⟩, hwaiting, fun d _ => ?_⟩
  · rw [hk.lookup_eq (fun hT => hq (hfree q x hT hx)) fun d hd => helse hq hx hd]
    exact hx
  · exact helse hq hx hM (indexed.uri q x hx)
  · exact helse hq hx hM (indexed.uri q x hx)
  · rcases hparent with hnone | hparent
    · exact not_parentOf indexed he hnone hR
    · have huri := indexed.uri _ x hR.2
      rw [indexed.uri q x hx] at huri
      exact hq (huri ▸ hparent)
  · rcases hk.found q x hx with hold | hM
    · exact Or.inl hold
    · exact Or.inr ⟨_, hbelow x hM, inTree_of_below indexed he hM⟩
  · rcases hk.uri d with hsame | ⟨-, hT⟩
    · exact Or.inl hsame
    · exact Or.inr fun x hx => hfree _ x hT hx

/-- The entities that are deactivated stand in the subtree. -/
theorem queues_destroyEntityComplete {M : EntityId → Prop}
    (hclosed : Rename.Closed M (removeFromParent stageOverrides h e)) (he : M e) :
    Queues M h (destroyEntityComplete stageOverrides h e) := by
  have hremoved : Queues M h (removeFromParent stageOverrides h e) :=
    .of_treeEdit (SameProxies.removeFromParent h e)
  unfold destroyEntityComplete
  dsimp only
  refine .trans (hremoved.trans (.of_eq rfl rfl)) (.foldl (fun k d hd => ?_) _)
  refine .enqueueDeactivation k (Rename.Settles.getChildEntities ?_ he d hd)
  exact hclosed

theorem SparesOthers.removeProxyEntity (indexed : Indexed h)
    (he : h.lookup (h.entities e).uri = some e) (hown : RemovesOwn h p e) :
    SparesOthers p h (h.removeProxyEntity stageOverrides e) := by
  by_cases hproxy : (h.entities e).isProxy = true
  · obtain ⟨hbelow, hparent | ⟨hparent, hfree⟩⟩ := hown hproxy
    · have hstays : removeFromParent stageOverrides h e = h := by
        unfold removeFromParent
        rw [hparent]
      refine ⟨h.Below e, hbelow, .of_standing (.removeProxyEntity hparent) ?_⟩
      unfold ZstHierarchy.removeProxyEntity
      rw [if_pos hproxy]
      refine queues_destroyEntityComplete ?_ .refl
      rw [hstays]
      exact fun d hd q hq x hx => hd.tail ⟨q, hq, indexed.findEntity_eq q ▸ hx⟩
    · refine ⟨h.Below e, hbelow, .of_passes indexed he hbelow (Or.inr hparent) hfree
        (passes_removeProxyEntity indexed he) ?_⟩
      have hframe := frame_removeFromParent indexed he
      unfold ZstHierarchy.removeProxyEntity
      rw [if_pos hproxy]
      refine queues_destroyEntityComplete (fun d hd q hq x hx => ?_) .refl
      exact hframe.closed d hd q hq x (hframe.indexed.findEntity_eq q ▸ hx)
  · unfold ZstHierarchy.removeProxyEntity
    rw [if_neg hproxy]
    exact .refl p h

/-- A factory that is given other creatables stands below the performer. -/
theorem OwnPlaced.restocked (indexed : Indexed h) (hbelow : p <+: (h.entities e).uri)
    (creatables : List ZstURI) : OwnPlaced p (· = e) h
      ((h.modify e fun x => { x with creatables := creatables }).synchronisableHasEvent e) := by
  have hwaiting : Queues (· = e) h
      ((h.modify e fun x => { x with creatables := creatables }).synchronisableHasEvent e) :=
    .trans (k := h.modify e fun x => { x with creatables := creatables }) (.of_eq rfl rfl)
      (.synchronisableHasEvent _ rfl)
  have hstands := Standing.synchronisableHasEvent
    (h.modify e fun x => { x with creatables := creatables }) e
  generalize (h.modify e fun x => { x with creatables := creatables }).synchronisableHasEvent e = k
    at hwaiting hstands ⊢
  have huri : ∀ d, (k.entities d).uri = (h.entities d).uri := fun d => by
    rw [hstands.field Entity.uri fun _ => rfl, modify_entities]
    split
    · rename_i hde
      rw [hde]
    · rfl
  refine ⟨⟨fun q x _ hx => Or.inl ?_, fun q x hq hx _ => ?_, fun q x _ hx => Or.inl ?_⟩, hwaiting,
    fun d _ => Or.inl (huri d)⟩
  · rw [hstands.lookup]
    exact hx
  · have hother : x ≠ e := by
      rintro rfl
      exact hq (indexed.uri q x hx ▸ hbelow)
    rw [lone_of_standing hstands, hstands.field Entity.children fun _ => rfl,
      modify_entities_of_ne h _ hother]
    exact ⟨rfl, rfl⟩
  · rw [hstands.lookup] at hx
    exact hx

theorem queues_updateProxyEntity (h : ZstHierarchy) (e : EntityId) (buffer : EntityBuffer) :
    Queues (h.Below e) h (h.updateProxyEntity stageOverrides e buffer) := by
  obtain ⟨k, hk, hupdate⟩ := updateProxyEntity_cases stageOverrides h e buffer
  have hcreatables : Queues (h.Below e) h k := by
    rcases hk with rfl | ⟨-, -, rfl⟩
    · exact .refl k
    · exact .trans (k := h.modify e fun x => { x with creatables := buffer.creatables })
        (.of_eq rfl rfl) (.synchronisableHasEvent _ .refl)
  have hrenamed : Queues (h.Below e) k (setName stageOverrides k e buffer.uri.last) :=
    .of_treeEdit (TreeEdit.setName TreeEdit.stage_activation (fun h _ _ => .refl h) k e _)
  rcases hupdate with hupdate | ⟨-, -, hupdate⟩
  · rwa [hupdate]
  · rw [hupdate]
    exact (hcreatables.trans hrenamed).trans (.of_eq rfl rfl)

theorem SparesOthers.updateProxyEntity (indexed : Indexed h)
    (he : h.lookup (h.entities e).uri = some e) (hown : UpdatesOwn h p buffer e) :
    SparesOthers p h (h.updateProxyEntity stageOverrides e buffer) := by
  by_cases hrenames : Renames h e buffer
  · obtain ⟨hbelow, hparent, hfree⟩ := hown.renames hrenames
    exact ⟨h.Below e, hbelow, .of_passes indexed he hbelow hparent hfree
      (passes_updateProxyEntity indexed he buffer) (queues_updateProxyEntity h e buffer)⟩
  · rcases updateProxyEntity_unnamed hrenames with hk | ⟨hrestocks, hk⟩
    · rw [hk]
      exact .refl p h
    · have hbelow := hown.restocks hrestocks
      rw [hk]
      exact ⟨(· = e), fun d hd => hd ▸ hbelow, .restocked indexed hbelow buffer.creatables⟩

theorem prefix_of_parent {q : ZstURI} (hq : p <+: q.parent) : p <+: q := by
  refine hq.trans ?_
  unfold ZstURI.parent ZstURI.ofSegments
  split
  · exact List.nil_prefix
  · exact List.dropLast_prefix q

/-- Who arrives below the performer is seen by nobody elsewhere. -/
theorem OwnPlaced.arrive (indexed : Indexed h) {x : Entity}
    (hparent : p <+: x.uri.parent) : OwnPlaced p (fun _ => False) h (h.arrive x) := by
  have huri : p <+: x.uri := prefix_of_parent hparent
  have hlookup : ∀ {q}, ¬ p <+: q → (h.arrive x).lookup q = h.lookup q := by
    intro q hq
    refine Function.update_of_ne ?_ _ _
    rintro rfl
    exact hq huri
  refine ⟨⟨fun q y hq hy => Or.inl ?_, fun q y hq hy _ => ?_, fun q y hq hy => Or.inl ?_⟩,
    .of_eq rfl rfl, fun d _ => ?_⟩
  · rw [hlookup hq]
    exact hy
  · have hold : y ≠ h.next := Nat.ne_of_lt (indexed.lt_next hy)
    have hnot : h.findEntity x.uri.parent ≠ some y := fun hp => by
      rw [indexed.findEntity_eq] at hp
      have hplace := indexed.uri _ y hp
      rw [indexed.uri q y hy] at hplace
      exact hq (hplace ▸ hparent)
    simp only [ZstHierarchy.arrive, hold, hnot, if_false, and_self]
  · rw [hlookup hq] at hy
    exact hy
  · by_cases hnew : d = h.next
    · refine Or.inr fun _ _ => ?_
      simp only [ZstHierarchy.arrive, hnew, if_true, placed_uri]
      exact huri
    · refine Or.inl ?_
      simp only [ZstHierarchy.arrive, hnew, if_false]
      split <;> rfl

/-- What the stage says does not matter to anybody's place. -/
theorem SparesOthers.sends (hk : SparesOthers p h k) (sent : List Outgoing) :
    SparesOthers p h { k with sent } := by
  obtain ⟨mine, hmine, placed⟩ := hk
  exact ⟨mine, hmine, ⟨placed.confined.lookup, placed.confined.entities,
    placed.confined.arrivals⟩, placed.waiting, placed.uri⟩

end Requests

/-! ## Runs -/

section Runs

variable {s t u : ZstSession} {msg : ZstStageMessage} {sender : EntityId}

end Runs

end Showtime.Confinement
