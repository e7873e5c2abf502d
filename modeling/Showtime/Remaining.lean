import Showtime.Footprint
import Showtime.Removal
/-!
# Those who stay

While a subtree leaves nobody else moves. Its parent has one child less, and
the tree is a tree again once the reaper has come to everybody who leaves.
-/

namespace Showtime.Remaining

open ZstHierarchy ZstStageHierarchy ZstStageSession ZstStage Detaching Draining Removal

variable {h k l : ZstHierarchy} {d e p : EntityId}

/-! ## Those who stay -/

/-- The kind of an entity and its place in the tree. -/
def site (x : Entity) : ZstEntityType × Bool × Bool × ZstURI × ZstURI × List ZstURI :=
  (x.entityType, x.isProxy, x.registered, x.uri, x.parentAddress, x.children)

/-- Whoever does not leave stays where it was. -/
structure Survives (M : EntityId → Prop) (h k : ZstHierarchy) : Prop where
  site : ∀ d, ¬ M d → site (k.entities d) = site (h.entities d)
  live : ∀ d, ¬ M d → k.live d = h.live d
  status : ∀ d, ¬ M d → (h.entities d).syncStatus = .activated →
    (k.entities d).syncStatus = .activated
  next : k.next = h.next
  root : k.root = h.root
  deadIDs : h.deadIDs = [] → k.deadIDs = []
  proxies : ∀ d ∈ k.proxies, d ∈ h.proxies
  kept : ∀ d, ¬ M d → d ∈ h.proxies → d ∈ k.proxies

namespace Survives

variable {M : EntityId → Prop}

theorem refl (h : ZstHierarchy) : Survives M h h :=
  ⟨fun _ _ => rfl, fun _ _ => rfl, fun _ _ hd => hd, rfl, rfl, id, fun _ => id, fun _ _ => id⟩

theorem trans (hk : Survives M h k) (kl : Survives M k l) : Survives M h l :=
  ⟨fun d hd => (kl.site d hd).trans (hk.site d hd), fun d hd => (kl.live d hd).trans (hk.live d hd),
    fun d hd hstatus => kl.status d hd (hk.status d hd hstatus), kl.next.trans hk.next,
    kl.root.trans hk.root, fun hdead => kl.deadIDs (hk.deadIDs hdead),
    fun d hd => hk.proxies d (kl.proxies d hd),
    fun d hd hmem => kl.kept d hd (hk.kept d hd hmem)⟩

theorem heard (hk : Heard h k) : Survives M h k := by
  refine ⟨fun d _ => hk.field Remaining.site (fun _ => rfl) d, fun d _ => by rw [hk.live],
    fun d _ hstatus => ?_, hk.next, hk.root, fun hdead => hk.deadIDs.trans hdead,
    fun d hd => hk.proxies ▸ hd, fun d _ hd => hk.proxies ▸ hd⟩
  rw [hk.field Entity.syncStatus fun _ => rfl]
  exact hstatus

/-- Nobody else changes. -/
theorem of_entities (hentities : ∀ d, ¬ M d → k.entities d = h.entities d)
    (hlive : ∀ d, ¬ M d → k.live d = h.live d) (hnext : k.next = h.next) (hroot : k.root = h.root)
    (hdead : k.deadIDs = h.deadIDs) (hproxies : k.proxies = h.proxies) : Survives M h k :=
  ⟨fun d hd => by rw [hentities d hd], hlive,
    fun d hd hstatus => by rw [hentities d hd]; exact hstatus, hnext, hroot, hdead.trans,
    fun _ hd => hproxies ▸ hd, fun _ _ hd => hproxies ▸ hd⟩

theorem enqueueDeactivation (h : ZstHierarchy) (he : M e) :
    Survives M h (h.enqueueDeactivation e) := by
  have hother : ∀ d, ¬ M d → d ≠ e := fun d hd hde => hd (hde ▸ he)
  unfold ZstHierarchy.enqueueDeactivation
  split
  · have hset : Survives M h ((h.setActivationStatus e .deactivationQueued).deferEvents e
        [.deactivated, .destroyed]) := by
      refine .of_entities (fun d hd => ?_) (fun d hd => rfl) rfl rfl rfl rfl
      simp only [setActivationStatus, deferEvents, modify_entities_of_ne _ _ (hother d hd)]
    refine hset.trans ?_
    unfold synchronisableHasEvent
    split
    · exact .of_entities (fun _ _ => rfl) (fun _ _ => rfl) rfl rfl rfl rfl
    · exact .of_entities (fun _ _ => rfl) (fun _ _ => rfl) rfl rfl rfl rfl
  · exact .refl h

theorem enqueueDeactivations {members : List EntityId} (hmembers : ∀ d ∈ members, M d)
    (h : ZstHierarchy) : Survives M h (members.foldl ZstHierarchy.enqueueDeactivation h) := by
  refine List.foldlRecOn (motive := Survives M h) _ _ (.refl h) fun k hk d hd => ?_
  exact hk.trans (enqueueDeactivation k (hmembers d hd))

end Survives

/-- An entity that stays is activated after its events if it was before. -/
theorem fate_of_harmless {x : Entity} (hstatus : x.syncStatus = .activated)
    (howns : OwnEvents x.synchronisableEvents) (hnot : .destroyed ∉ x.synchronisableEvents) :
    x.fate = .activated := by
  unfold Entity.fate
  rw [hstatus]
  generalize x.synchronisableEvents = own at howns hnot
  induction howns with
  | nil => rfl
  | activated _ ih => exact ih fun hmem => hnot (List.mem_cons_of_mem _ hmem)
  | updated _ ih => exact ih fun hmem => hnot (List.mem_cons_of_mem _ hmem)
  | destroyed _ _ => exact absurd (List.mem_cons_of_mem _ List.mem_cons_self) hnot

section Drains

variable {M : EntityId → Prop} {path : EntityId → ZstURI} {table : ZstURI → Option EntityId}

/-- The oldest item of the queue. -/
theorem survives_item (dying : Dying M path table h) :
    Survives M h (processItems stageOverrides 1 h) := by
  have hstanding := Standing.processItems 1 h
  have hrest : (∀ d, ¬ M d → (h.entities d).syncStatus = .activated →
      ((processItems stageOverrides 1 h).entities d).syncStatus = .activated) ∧
      (processItems stageOverrides 1 h).deadIDs = h.deadIDs := by
    unfold processItems
    split
    · exact ⟨fun _ _ hd => hd, rfl⟩
    · rename_i e rest hqueue
      simp only [processItems]
      unfold processItem
      split
      · exact ⟨fun _ _ hd => hd, rfl⟩
      · have howns : OwnEvents (h.entities e).synchronisableEvents := by
          by_cases he : M e
          · rcases dying.state e he with waiting | gone
            · exact waiting.events.own
            · rw [gone.events]
              exact .nil
          · exact (dying.others e he).1
        obtain ⟨x, n, hx, -, -, -, -, hstatus, -⟩ := processOwnEvents_own stageOverrides howns
          { h with synchronisableEvents := rest, freedAccess := h.freedAccess || !h.live e } e rfl
        dsimp only at hx hstatus ⊢
        rw [hx]
        refine ⟨fun d hd hactivated => ?_, rfl⟩
        change ((h.modify e fun _ => x).entities d).syncStatus = _
        rw [modify_entities]
        split
        · rename_i hde
          subst hde
          rw [hstatus]
          exact fate_of_harmless hactivated howns (dying.others d hd).2
        · exact hactivated
  refine ⟨fun d _ => hstanding.field site (fun _ => rfl) d, fun d _ => by rw [hstanding.live],
    hrest.1, hstanding.next, hstanding.root, hrest.2.trans, fun d hd => hstanding.proxies ▸ hd,
    fun d _ hd => hstanding.proxies ▸ hd⟩

theorem survives_drain (dying : Dying M path table h) (hk : Drain stageOverrides h k) :
    Survives M h k := by
  cases hk with
  | event _ heard => exact .heard heard
  | item => exact survives_item dying
  | cleanup =>
    unfold reapAll
    split
    · exact .refl h
    · rename_i e rest hops
      have he := (dying.ops e (by rw [hops]; exact List.mem_cons_self)).1
      have hother : ∀ d, ¬ M d → d ≠ e := fun d hd hde => hd (hde ▸ he)
      simp only [reapAll]
      rw [dying.cleanup_eq hops]
      have hentities : ∀ d, ¬ M d → (if e ∈ h.proxies then
          Function.update h.entities e { h.entities e with children := [] } else h.entities) d =
            h.entities d := by
        intro d hd
        split
        · exact Function.update_of_ne (hother d hd) _ _
        · rfl
      refine ⟨fun d hd => by dsimp only; rw [hentities d hd], fun d hd => ?_,
        fun d hd hstatus => by dsimp only; rw [hentities d hd]; exact hstatus, rfl, rfl, id,
        fun d hd => List.mem_of_mem_erase hd,
        fun d hd hmem => (List.mem_erase_of_ne (hother d hd)).mpr hmem⟩
      · dsimp only
        split
        · exact Function.update_of_ne (hother d hd) _ _
        · rfl
  | forgetDead =>
    exact ⟨fun _ _ => rfl, fun _ _ => rfl, fun _ _ hd => hd, rfl, rfl, fun _ => rfl, fun _ => id, fun _ _ => id⟩

theorem survives_drains (dying : Dying M path table h)
    (hk : Relation.ReflTransGen (Drain stageOverrides) h k) :
    Dying M path table k ∧ Survives M h k := by
  induction hk with
  | refl => exact ⟨dying, .refl h⟩
  | tail _ hdrain ih => exact ⟨ih.1.drain hdrain, ih.2.trans (survives_drain ih.1 hdrain)⟩

end Drains

/-! ## A subtree less -/

/-- A hierarchy between two requests, and nobody in it but the proxies of the tree. -/
structure InOrder (h : ZstHierarchy) : Prop where
  tree : RegisteredTree h
  rest : AtRest h
  idle : Idle h
  root : h.root = none
  owned : ∀ d, h.InTree d → (h.entities d).isProxy = true
  listed : ∀ d, h.InTree d ↔ d ∈ h.proxies
  performer : ∀ d, h.InTree d →
    ((h.entities d).entityType = .performer ↔ (h.entities d).parentAddress = [])
  kind : ∀ d, h.InTree d → (h.entities d).entityType ≠ .none
  deadIDs : h.deadIDs = []
  fresh : ∀ d, h.next ≤ d → (h.entities d).registered = false

theorem modify_keeps {β : Type} (f : Entity → β) (h : ZstHierarchy) (e : EntityId)
    {g : Entity → Entity} (hg : ∀ x, f (g x) = f x) (d : EntityId) :
    f ((h.modify e g).entities d) = f (h.entities d) := by
  rw [modify_entities]
  split
  · rename_i hde
    rw [hg, hde]
  · rfl

/-- Whoever is not below the entity stays where it was, and does not list the
entity. -/
structure Without (h : ZstHierarchy) (e : EntityId) (k : ZstHierarchy) : Prop where
  site : ∀ d, h.InTree d → ¬ h.Below e d → site (k.entities d) =
    site { h.entities d with children := (h.entities d).children.erase (h.entities e).uri }
  registered : ∀ d, ¬ h.Below e d → (k.entities d).registered = (h.entities d).registered
  live : ∀ d, ¬ h.Below e d → k.live d = h.live d
  status : ∀ d, ¬ h.Below e d → (h.entities d).syncStatus = .activated →
    (k.entities d).syncStatus = .activated
  next : k.next = h.next
  root : k.root = h.root
  deadIDs : h.deadIDs = [] → k.deadIDs = []
  proxies : ∀ d ∈ k.proxies, d ∈ h.proxies
  kept : ∀ d, ¬ h.Below e d → d ∈ h.proxies → d ∈ k.proxies

namespace InOrder

variable (order : InOrder h)

include order

theorem indexed : Indexed h :=
  ⟨order.root, fun q d hd => (order.tree.keyed q d hd).1,
    fun q d hd => (order.tree.keyed q d hd).2.2, order.fresh⟩

theorem lt_next (hd : h.InTree d) : d < h.next :=
  order.rest.allocated d hd

theorem heard (hk : Heard h k) : InOrder k := by
  refine ⟨hk.registeredTree order.tree, order.rest.heard hk,
    ⟨hk.synchronisableEvents.trans order.idle.1, hk.cleanupOps.trans order.idle.2⟩,
    hk.root.trans order.root, fun d hd => ?_, fun d => ?_, fun d hd => ?_, fun d hd => ?_,
    hk.deadIDs.trans order.deadIDs, fun d hd => ?_⟩
  · rw [hk.field Entity.isProxy fun _ => rfl]
    exact order.owned d ((hk.inTree_iff d).mp hd)
  · rw [hk.inTree_iff, hk.proxies]
    exact order.listed d
  · rw [hk.field Entity.entityType fun _ => rfl, hk.field Entity.parentAddress fun _ => rfl]
    exact order.performer d ((hk.inTree_iff d).mp hd)
  · rw [hk.field Entity.entityType fun _ => rfl]
    exact order.kind d ((hk.inTree_iff d).mp hd)
  · rw [hk.next] at hd
    rw [hk.field Entity.registered fun _ => rfl]
    exact order.fresh d hd

/-- Nobody lists the entity but its parent. -/
theorem erase_eq (he : h.InTree e) (hd : h.InTree d) (hparent : h.parent e ≠ some d) :
    (h.entities d).children.erase (h.entities e).uri = (h.entities d).children := by
  refine List.erase_of_not_mem fun hmem => hparent ?_
  obtain ⟨c, s, hc, haddress, -⟩ := order.tree.child d hd _ hmem
  obtain rfl := Option.some.inj (he.symm.trans hc)
  have hne : (h.entities e).parentAddress ≠ [] := by
    rw [haddress]
    exact (order.tree.segments d hd).1
  unfold ZstHierarchy.parent
  rw [if_neg hne, if_pos (order.tree.registered he), order.tree.findEntity_eq, haddress]
  exact hd

/-- Once its parent has dropped the entity, nobody else is in the way of its subtree. -/
theorem frame_dropped (he : h.InTree e) (p : EntityId) {before : ZstHierarchy}
    (hbefore : (h.modify p fun x =>
      { x with children := x.children.erase (h.entities e).uri }) = before) :
    Footprint.Frame before (h.Below e) (fun _ => False) (fun _ => True)
      (fun d => (h.entities d).uri.last) before := by
  have huri : ∀ d, (before.entities d).uri = (h.entities d).uri := by
    intro d
    rw [← hbefore]
    refine modify_keeps Entity.uri h p (fun x => ?_) d
    rfl
  have hregistered : ∀ d, (before.entities d).registered = (h.entities d).registered := by
    intro d
    rw [← hbefore]
    refine modify_keeps Entity.registered h p (fun x => ?_) d
    rfl
  have htable : before.lookup = h.lookup := by rw [← hbefore]; rfl
  have hindexed : Indexed before :=
    hbefore ▸ order.indexed.modify p _ (fun _ => rfl) fun _ => rfl
  refine .start hindexed (fun d hd => ?_) (fun d _ => by rw [huri]) (fun d hd x hx => ?_)
    fun d hd q hq x hx => ?_
  · rw [hregistered]
    exact order.tree.registered (order.tree.inTree_of_below he hd)
  · rw [htable, huri, order.tree.inTree_of_below he hd] at hx
    exact Option.some.inj hx ▸ hd
  · rw [htable] at hx
    refine hd.tail ⟨q, ?_, hx⟩
    rw [← hbefore, modify_entities] at hq
    split at hq
    · rename_i hde
      rw [hde]
      exact List.mem_of_mem_erase hq
    · exact hq

/-- `destroy_entity_complete` takes the entity off its parent. -/
theorem without_removeFromParent (he : h.InTree e) :
    Without h e (removeFromParent stageOverrides h e) := by
  unfold removeFromParent
  cases hparent : h.parent e with
  | none =>
    refine ⟨fun d hd _ => ?_, fun _ _ => rfl, fun _ _ => rfl, fun _ _ hd => hd, rfl, rfl, id,
      fun _ => id, fun _ _ => id⟩
    rw [order.erase_eq he hd (by rw [hparent]; nofun)]
  | some p =>
    obtain ⟨hlookup, hkind, -⟩ := order.tree.parent_eq he hparent
    unfold removeChild removeChildWith
    dsimp only
    rw [if_pos hkind]
    generalize hbefore : (h.modify p fun x =>
      { x with children := x.children.erase (h.entities e).uri }) = before
    have hentity : ∀ d, before.entities d = if d = p then
        { h.entities p with children := (h.entities p).children.erase (h.entities e).uri }
        else h.entities d := fun d => by rw [← hbefore, modify_entities]
    have hregistered : ∀ d, (before.entities d).registered = (h.entities d).registered := by
      intro d
      rw [← hbefore]
      refine modify_keeps Entity.registered h p (fun x => ?_) d
      rfl
    have hedit : TreeEdit h before := hbefore ▸ .of_modify h p _ fun _ => rfl
    have hroot : ∀ q ∈ (none : Option EntityId), Footprint.Frame.Admits (fun _ => True)
        (fun d => (h.entities d).uri.last) before e q := fun _ hq => by cases hq
    obtain ⟨frame, -⟩ := (order.frame_dropped he p hbefore).setParent (fun _ _ => trivial)
      (fun _ _ => trivial) h.depth .refl fun _ => hroot
    have hsame : ∀ d, ¬ h.Below e d → (setParent stageOverrides h.depth before e none).entities d =
        before.entities d := by
      intro d hd
      have houtside := frame.outside d hd
      have hchildren := frame.children d hd id
      generalize (setParent stageOverrides h.depth before e none).entities d = x
        at houtside hchildren ⊢
      calc x = { ({ x with children := [] } : Entity) with children := x.children } := rfl
        _ = { ({ before.entities d with children := [] } : Entity) with
            children := (before.entities d).children } := by rw [houtside, hchildren]
    refine ⟨fun d hd hout => ?_, fun d hout => ?_, fun d _ => ?_, fun d hout hstatus => ?_, ?_, ?_,
      fun hdead => ?_, fun d hd => ?_, fun d _ hd => ?_⟩
    · rw [hsame d hout, hentity]
      split
      · rename_i hdp
        rw [hdp]
      · rename_i hdp
        rw [order.erase_eq he hd fun hp => hdp (Option.some.inj (hp.symm.trans hparent))]
    · rw [hsame d hout, hregistered]
    · rw [frame.edit.live, hedit.live]
    · rw [hsame d hout, hedit.field Entity.syncStatus fun _ => rfl]
      exact hstatus
    · rw [frame.edit.next, hedit.next]
    · rw [frame.edit.root, hedit.root]
    · rw [frame.edit.deadIDs, hedit.deadIDs]
      exact hdead
    · rw [frame.edit.proxies, hedit.proxies] at hd
      exact hd
    · rw [frame.edit.proxies, hedit.proxies]
      exact hd

end InOrder

theorem Without.survives (without : Without h e k) (survives : Survives (h.Below e) k l) :
    Without h e l :=
  ⟨fun d hd hout => (survives.site d hout).trans (without.site d hd hout),
    fun d hout => (congrArg (fun x => x.2.2.1) (survives.site d hout)).trans
      (without.registered d hout),
    fun d hout => (survives.live d hout).trans (without.live d hout),
    fun d hout hstatus => survives.status d hout (without.status d hout hstatus),
    survives.next.trans without.next, survives.root.trans without.root,
    fun hdead => survives.deadIDs (without.deadIDs hdead),
    fun d hd => without.proxies d (survives.proxies d hd),
    fun d hout hd => survives.kept d hout (without.kept d hout hd)⟩

/-- The events of an entity that stays are harmless. -/
theorem harmless_of_own {own : List SynchronisableEvent} (howns : OwnEvents own)
    (hnot : .destroyed ∉ own) : ∀ event ∈ own, event = .activated ∨ event = .updated := by
  induction howns with
  | nil => exact fun event hevent => absurd hevent List.not_mem_nil
  | activated _ ih =>
    intro event hevent
    rcases List.mem_cons.mp hevent with rfl | hevent
    · exact Or.inl rfl
    · exact ih (fun hmem => hnot (List.mem_cons_of_mem _ hmem)) event hevent
  | updated _ ih =>
    intro event hevent
    rcases List.mem_cons.mp hevent with rfl | hevent
    · exact Or.inr rfl
    · exact ih (fun hmem => hnot (List.mem_cons_of_mem _ hmem)) event hevent
  | destroyed _ _ => exact absurd (List.mem_cons_of_mem _ List.mem_cons_self) hnot

namespace Without

variable (without : Without h e k) (hd : h.InTree d) (hout : ¬ h.Below e d)

include without hd hout

theorem entityType : (k.entities d).entityType = (h.entities d).entityType :=
  congrArg (fun x => x.1) (without.site d hd hout)

theorem isProxy : (k.entities d).isProxy = (h.entities d).isProxy :=
  congrArg (fun x => x.2.1) (without.site d hd hout)

theorem uri : (k.entities d).uri = (h.entities d).uri :=
  congrArg (fun x => x.2.2.2.1) (without.site d hd hout)

theorem parentAddress : (k.entities d).parentAddress = (h.entities d).parentAddress :=
  congrArg (fun x => x.2.2.2.2.1) (without.site d hd hout)

theorem children : (k.entities d).children =
    (h.entities d).children.erase (h.entities e).uri :=
  congrArg (fun x => x.2.2.2.2.2) (without.site d hd hout)

end Without

section Remove

variable (order : InOrder h) (he : h.InTree e)

include order

/-- Who is found afterwards. -/
theorem inTree_without (without : Without h e k) (hremoves : RemovesExactly h e k) (d : EntityId) :
    k.InTree d ↔ h.InTree d ∧ ¬ h.Below e d := by
  constructor
  · intro hd
    obtain ⟨hfound, hout⟩ := (hremoves _ d).mp hd
    exact ⟨order.tree.inTree_of_lookup hfound, hout⟩
  · rintro ⟨hd, hout⟩
    refine (hremoves _ d).mpr ⟨?_, hout⟩
    rw [without.uri hd hout]
    exact hd

include he

theorem leaving_of_order (hdistinct : h.parent e ≠ none → DistinctOnBranches h e) :
    ToldToLeave h e (removeFromParent stageOverrides h e) :=
  leaving_removeFromParent order.tree order.rest he (order.owned e he) hdistinct

theorem without_removeProxyEntity (hdistinct : h.parent e ≠ none → DistinctOnBranches h e) :
    Without h e (h.removeProxyEntity stageOverrides e) := by
  have without := order.without_removeFromParent he
  have leaving := leaving_of_order order he hdistinct
  unfold removeProxyEntity
  rw [if_pos (order.owned e he)]
  unfold destroyEntityComplete
  dsimp only
  rw [getChildEntities_hierarchyEvents]
  refine without.survives (.trans ?_ (.enqueueDeactivations (fun d => (leaving.members d).mp) _))
  exact .of_entities (fun _ _ => rfl) (fun _ _ => rfl) rfl rfl rfl rfl

/-- A child of somebody who stays has stayed, or is the entity itself. -/
theorem not_below_child (hd : h.InTree d) (hout : ¬ h.Below e d) {c : EntityId}
    (hc : h.HasChild d c) (hce : c ≠ e) : ¬ h.Below e c := by
  intro hbelow
  obtain ⟨p, hp, hpc⟩ := (Relation.ReflTransGen.cases_tail hbelow).resolve_left hce
  obtain ⟨s, hs⟩ := order.tree.uri_of_hasChild hd hc
  obtain ⟨s', hs'⟩ := order.tree.uri_of_hasChild (order.tree.inTree_of_below he hp) hpc
  have huri := (List.append_inj' (hs.symm.trans hs') rfl).1
  have hsame : h.lookup (h.entities p).uri = some d := by
    rw [← huri]
    exact hd
  rw [order.tree.inTree_of_below he hp] at hsame
  exact hout (Option.some.inj hsame ▸ hp)

section Tree

variable (without : Without h e k) (hremoves : RemovesExactly h e k)

include without hremoves

theorem registeredTree_without : RegisteredTree k := by
  have hin := inTree_without order without hremoves
  refine ⟨fun q y hy => ?_, fun y hy => ?_, fun r hr => ?_, fun y hy => ?_, fun y hy => ?_,
    fun p hp => ?_, fun p hp => ?_⟩
  · obtain ⟨hfound, hout⟩ := (hremoves q y).mp hy
    have hyTree := order.tree.inTree_of_lookup hfound
    rw [without.uri hyTree hout, without.live y hout, without.registered y hout]
    exact order.tree.keyed q y hfound
  · obtain ⟨hyTree, hout⟩ := (hin y).mp hy
    rw [without.uri hyTree hout]
    exact order.tree.segments y hyTree
  · rw [without.root, order.root] at hr
    cases hr
  · obtain ⟨hyTree, hout⟩ := (hin y).mp hy
    rw [without.uri hyTree hout, without.parentAddress hyTree hout]
    exact order.tree.top y hyTree
  · obtain ⟨hyTree, hout⟩ := (hin y).mp hy
    rw [without.uri hyTree hout, without.parentAddress hyTree hout]
    intro haddress
    obtain ⟨p, hp, hkind, hmem⟩ := order.tree.parent y hyTree haddress
    have hpTree := order.tree.inTree_of_lookup hp
    have hpout : ¬ h.Below e p := fun hbelow => hout (hbelow.tail ⟨_, hmem, hyTree⟩)
    refine ⟨p, (hremoves _ p).mpr ⟨hp, hpout⟩, ?_, ?_⟩
    · unfold Entity.isComponent
      rw [without.entityType hpTree hpout]
      exact hkind
    · rw [without.children hpTree hpout]
      refine (List.mem_erase_of_ne fun huri => hout ?_).mpr hmem
      have hsame : h.lookup (h.entities y).uri = some e := by
        rw [huri]
        exact he
      rw [hyTree] at hsame
      exact Option.some.inj hsame ▸ .refl
  · obtain ⟨hpTree, hout⟩ := (hin p).mp hp
    rw [without.uri hpTree hout, without.children hpTree hout]
    intro q hq
    obtain ⟨c, s, hc, haddress, huri⟩ := order.tree.child p hpTree q (List.mem_of_mem_erase hq)
    have hcTree := order.tree.inTree_of_lookup hc
    have hcout : ¬ h.Below e c := by
      refine not_below_child order he hpTree hout
        ⟨q, List.mem_of_mem_erase hq, hc⟩ ?_
      rintro rfl
      rw [(order.tree.keyed q c hc).1] at hq
      exact (order.tree.nodup p hpTree).not_mem_erase hq
    refine ⟨c, s, (hremoves q c).mpr ⟨hc, hcout⟩, ?_, huri⟩
    rw [without.parentAddress hcTree hcout]
    exact haddress
  · obtain ⟨hpTree, hout⟩ := (hin p).mp hp
    rw [without.children hpTree hout]
    exact (order.tree.nodup p hpTree).erase _

end Tree

/-- Once everything is drained the hierarchy is in order again. -/
theorem order_of_idle (hundisturbed : RootPathsFree h e)
    (hdistinct : h.parent e ≠ none → DistinctOnBranches h e)
    (hsteps : Relation.ReflTransGen (Drain stageOverrides) (h.removeProxyEntity stageOverrides e) k)
    (idle : Idle k) : InOrder k ∧ RemovesExactly h e k ∧ Without h e k := by
  have hproxy := order.owned e he
  have hremoves := (removesExactly_of_idle order.tree order.rest he hproxy hdistinct hsteps
    idle).mpr hundisturbed
  obtain ⟨dying, survives⟩ := survives_drains (dying_removeProxyEntity order.tree order.rest he
    hproxy (leaving_of_order order he hdistinct)) hsteps
  have without := (without_removeProxyEntity order he hdistinct).survives survives
  have hin := inTree_without order without hremoves
  have tree := registeredTree_without order he without hremoves
  refine ⟨⟨tree, ⟨⟨idle.cleanupOps, fun d => ?_⟩, fun d hd => ?_, fun d hd _ => ?_,
    fun p c hc _ => ?_, dying.nodup, fun d _ => ?_⟩, idle, ?_, fun d hd => ?_, fun d => ?_,
    fun d hd => ?_, fun d hd => ?_, ?_, fun d hd => ?_⟩, hremoves, without⟩
  · by_cases hd : h.Below e d
    · rcases dying.state d hd with waiting | gone
      · have hmem := waiting.queued
        rw [idle.synchronisableEvents] at hmem
        cases hmem
      · rw [gone.events]
        exact fun event hevent => absurd hevent List.not_mem_nil
    · exact harmless_of_own (dying.others d hd).1 (dying.others d hd).2
  · rw [without.next]
    exact order.lt_next ((hin d).mp hd).1
  · obtain ⟨hdTree, hout⟩ := (hin d).mp hd
    exact without.status d hout (order.rest.activated d hdTree (order.owned d hdTree))
  · obtain ⟨q, -, hq⟩ := hc
    obtain ⟨hfound, hout⟩ := (hremoves q c).mp hq
    have hcTree := order.tree.inTree_of_lookup hfound
    rw [without.isProxy hcTree hout]
    exact order.owned c hcTree
  · rw [without.deadIDs order.deadIDs]
    exact List.not_mem_nil
  · rw [without.root, order.root]
  · obtain ⟨hdTree, hout⟩ := (hin d).mp hd
    rw [without.isProxy hdTree hout]
    exact order.owned d hdTree
  · rw [hin, order.listed]
    refine ⟨fun ⟨hd, hout⟩ => without.kept d hout hd, fun hd => ⟨without.proxies d hd, ?_⟩⟩
    intro hbelow
    rcases dying.state d hbelow with waiting | gone
    · have hmem := waiting.queued
      rw [idle.synchronisableEvents] at hmem
      cases hmem
    · rcases gone.disowned with hmem | hnot
      · rw [idle.cleanupOps] at hmem
        cases hmem
      · exact hnot hd
  · obtain ⟨hdTree, hout⟩ := (hin d).mp hd
    rw [without.entityType hdTree hout, without.parentAddress hdTree hout]
    exact order.performer d hdTree
  · obtain ⟨hdTree, hout⟩ := (hin d).mp hd
    rw [without.entityType hdTree hout]
    exact order.kind d hdTree
  · exact without.deadIDs order.deadIDs
  · rw [without.next] at hd
    have hout : ¬ h.Below e d := fun hbelow =>
      absurd (order.lt_next (order.tree.inTree_of_below he hbelow)) (Nat.not_lt.mpr hd)
    rw [without.registered d hout]
    exact order.fresh d hd

end Remove

end Showtime.Remaining
