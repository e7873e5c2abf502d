import Showtime.Detaching
import Showtime.Hearing
import Showtime.Library.Directory
/-!
# Removing a subtree

`remove_proxy_entity` takes the entity off its parent, and with that moves the
whole subtree to the root, before it tells everybody in it to leave. Whoever
had a name of the subtree at the root loses its place in the lookup table then,
and does not get it back.
-/

namespace Showtime.Removal

open ZstHierarchy Detaching Draining

/-- A hierarchy between two requests. -/
structure AtRest (h : ZstHierarchy) : Prop where
  quiet : NoRemovalQueued h
  allocated : ∀ d, h.InTree d → d < h.next
  activated : ∀ d, h.InTree d → (h.entities d).isProxy = true →
    (h.entities d).syncStatus = .activated
  proxies : ∀ p c, h.HasChild p c → (h.entities p).isProxy = true →
    (h.entities c).isProxy = true
  nodup : h.proxies.Nodup
  alive : ∀ d, h.InTree d → d ∉ h.deadIDs

/-- The lookup table loses the subtree and nothing else. -/
def RemovesExactly (h : ZstHierarchy) (e : EntityId) (k : ZstHierarchy) : Prop :=
  ∀ q y, k.lookup q = some y ↔ h.lookup q = some y ∧ ¬ h.Below e y

/-- The entity has no parent to be taken off, or no other entity at the root has
the name of one of the subtree. -/
def RootPathsFree (h : ZstHierarchy) (e : EntityId) : Prop :=
  h.parent e = none ∨ ∀ d, h.Below e d → ∀ y,
    h.lookup (h.entities d).uri.last = some y → h.Below e y

/-- The subtree is at the root as it was below the parent, and the lookup table
has forgotten whoever else was where one of the subtree has passed. -/
structure Relocated (h : ZstHierarchy) (e : EntityId) (k : ZstHierarchy) : Prop where
  uri : ∀ d, h.Below e d → (k.entities d).uri = relative h e d
  children : ∀ d, h.Below e d → ∀ q, q ∈ (k.entities d).children ↔
    ∃ c, h.HasChild d c ∧ q = relative h e c
  outside : ∀ d, ¬ h.Below e d → (k.entities d).uri = (h.entities d).uri
  lookup : ∀ q y, k.lookup q = some y ↔
    h.Below e y ∧ q = relative h e y ∨ ¬ h.Below e y ∧ h.lookup q = some y ∧ ¬ Passed h e q

variable {v : Overrides} {h k l : ZstHierarchy} {d e x y : EntityId}

/-- A list of activated proxies with nothing to do. -/
theorem atRest_ofList {entities : List Entity} {root : Option EntityId}
    (hentity : ∀ x ∈ entities, x.synchronisableEvents = [] ∧ x.isProxy = true ∧
      x.syncStatus = .activated) : AtRest (ofList entities root) := by
  have hmem : ∀ q d, (ofList entities root).lookup q = some d →
      d < entities.length ∧ (ofList entities root).entities d ∈ entities := by
    intro q d hd
    obtain ⟨hlt, -⟩ := ofList_lookup hd
    refine ⟨hlt, ?_⟩
    simp [ofList, hlt]
  refine ⟨quiet_ofList fun x hx => (hentity x hx).1, fun d hd => (hmem _ d hd).1,
    fun d hd _ => (hentity _ (hmem _ d hd).2).2.2, fun p c hc _ => ?_,
    List.nodup_range.filter _, fun d _ => List.not_mem_nil⟩
  obtain ⟨q, -, hlookup⟩ := hc
  exact (hentity _ (hmem q c hlookup).2).2.1

/-- The enumeration of a subtree decides whether its names are distinct. -/
theorem distinct_of_getChildEntities (tree : RegisteredTree h)
    (hallocated : ∀ d, h.InTree d → d < h.next) (he : h.InTree e)
    (hnames : ∀ x ∈ h.getChildEntities e, ∀ d ∈ h.getChildEntities x,
      d ≠ x → (h.entities d).uri.last ≠ (h.entities x).uri.last) : DistinctOnBranches h e := by
  intro x d hx hd
  have hxTree := tree.inTree_of_below he hx
  exact hnames x ((tree.mem_getChildEntities hallocated he).mpr hx) d
    ((tree.mem_getChildEntities hallocated hxTree).mpr hd)

theorem AtRest.heard (rest : AtRest h) (hk : Heard h k) : AtRest k := by
  have hproxy := hk.field Entity.isProxy fun _ => rfl
  refine ⟨⟨hk.cleanupOps.trans rest.quiet.cleanupOps, fun d => ?_⟩, fun d hd => ?_, fun d hd => ?_,
    fun p c hc => ?_, ?_, fun d hd => ?_⟩
  · rw [hk.field Entity.synchronisableEvents fun _ => rfl]
    exact rest.quiet.events d
  · rw [hk.next]
    exact rest.allocated d ((hk.inTree_iff d).mp hd)
  · rw [hproxy, hk.field Entity.syncStatus fun _ => rfl]
    exact rest.activated d ((hk.inTree_iff d).mp hd)
  · rw [hproxy, hproxy]
    exact rest.proxies p c (hk.hasChild_eq ▸ hc)
  · rw [hk.proxies]
    exact rest.nodup
  · rw [hk.deadIDs]
    exact rest.alive d ((hk.inTree_iff d).mp hd)

/-- The events of the hierarchy say nothing about who is below an entity. -/
theorem getChildEntities_hierarchyEvents (h : ZstHierarchy) (e : EntityId)
    (events : List HierarchyEvent) :
    { h with hierarchyEvents := events }.getChildEntities e = h.getChildEntities e := by
  have hrun : ∀ n e, { h with hierarchyEvents := events }.descendants n e = h.descendants n e := by
    intro n
    induction n with
    | zero => exact fun _ => rfl
    | succ n ih =>
      intro e
      unfold descendants
      rw [funext ih]
      rfl
  exact hrun h.next e

/-! ## Paths of a registered tree -/

section Tree

variable (tree : RegisteredTree h)

include tree

/-- Whoever is found, at the path where it is found. -/
def entries : Library.Directory String EntityId where
  entry := h.lookup
  nowhere := by
    by_contra hsome
    obtain ⟨e, he⟩ := Option.ne_none_iff_exists'.mp hsome
    exact (tree.segments e (tree.inTree_of_lookup he)).1 (tree.keyed [] e he).1
  parent q s hq hentry := by
    obtain ⟨y, hy⟩ := Option.isSome_iff_exists.mp hentry
    have hyTree := tree.inTree_of_lookup hy
    have huri := (tree.keyed _ y hy).1
    have haddress : (h.entities y).parentAddress ≠ [] := by
      intro hnil
      have hone := tree.top y hyTree hnil
      have hpos := List.length_pos_iff.mpr hq
      rw [huri, List.length_append, List.length_singleton] at hone
      omega
    obtain ⟨p, hp, -, hmem⟩ := tree.parent y hyTree haddress
    obtain ⟨c, s', -, -, hbelow⟩ := tree.child p (tree.inTree_of_lookup hp) _ hmem
    rw [huri] at hbelow
    rw [(List.append_inj' hbelow rfl).1, (tree.keyed _ p hp).1, hp]
    rfl

theorem parent_eq_none (he : h.InTree e) :
    h.parent e = none ↔ (h.entities e).parentAddress = [] := by
  unfold ZstHierarchy.parent
  constructor
  · intro hnone
    by_contra haddress
    obtain ⟨p, hp, -⟩ := tree.parent e he haddress
    rw [if_neg haddress, if_pos (tree.registered he), tree.findEntity_eq, hp] at hnone
    cases hnone
  · exact fun haddress => if_pos haddress

/-- The name of an entity with a parent is not its path. -/
theorem two_le_length (hparent : h.parent e ≠ none) (he : h.InTree e) :
    2 ≤ (h.entities e).uri.length := by
  obtain ⟨p, hp⟩ := Option.ne_none_iff_exists'.mp hparent
  obtain ⟨hlookup, -, hmem⟩ := tree.parent_eq he hp
  obtain ⟨c, s, -, -, huri⟩ := tree.child p (tree.inTree_of_lookup hlookup) _ hmem
  have hpos := List.length_pos_iff.mpr (tree.segments p (tree.inTree_of_lookup hlookup)).1
  rw [huri, List.length_append, List.length_singleton]
  omega

/-- Nobody else is where one of the subtree passes, if nobody else has a name of
the subtree at the root. -/
theorem below_of_passed (he : h.InTree e) (hparent : h.parent e ≠ none)
    (hfree : ∀ d, h.Below e d → ∀ y, h.lookup (h.entities d).uri.last = some y → h.Below e y)
    {q : ZstURI} (hq : Passed h e q) (hy : h.lookup q = some y) : h.Below e y := by
  obtain ⟨x, d, hx, hd, rfl⟩ := hq
  have hxTree := tree.inTree_of_below he hx
  obtain ⟨s, -, hself, -⟩ := relative_self tree hxTree
  have hextends : relative h x x <+: relative h x d := by
    rcases Relation.ReflTransGen.cases_head hd with rfl | ⟨c, hc, hcd⟩
    · exact List.prefix_rfl
    · rw [relative_child tree hxTree hc hcd]
      exact List.prefix_append _ _
  have hyTree := tree.inTree_of_lookup hy
  rw [← (tree.keyed _ y hy).1] at hextends
  obtain ⟨z, hz⟩ := Option.isSome_iff_exists.mp ((entries tree).isSome_of_extends
    (relative_ne_nil tree hxTree .refl) hextends (Option.isSome_iff_exists.mpr ⟨y, hyTree⟩))
  -- whoever is at the root with the name of one of the subtree is not below it
  have hout : ¬ h.Below e z := by
    intro hbelow
    have hle := (tree.prefix_of_below he hbelow).length_le
    have htwo := two_le_length tree hparent he
    rw [(tree.keyed _ z hz).1, hself, List.length_singleton] at hle
    omega
  rw [relative_self_eq tree hxTree] at hz
  exact absurd (hfree x hx z hz) hout

end Tree

/-! ## Who leaves -/

/-- The subtree is told to leave where it was or at the root. -/
structure ToldToLeave (h : ZstHierarchy) (e : EntityId) (k : ZstHierarchy) : Prop where
  whole : Whole h e k
  uri : ∀ d, h.Below e d → (k.entities d).uri =
    if h.parent e = none then (h.entities d).uri else relative h e d
  members : ∀ d, d ∈ k.getChildEntities e ↔ h.Below e d
  closed : Rename.Closed (h.Below e) k
  fewer : Fewer h e h k
  stays : h.parent e = none → k.lookup = h.lookup
  swept : h.parent e ≠ none → ∀ d, h.Below e d → Swept h e k d

section Leave

variable (tree : RegisteredTree h) (rest : AtRest h) (he : h.InTree e)
  (hproxy : (h.entities e).isProxy = true)

include rest hproxy

theorem isProxy_of_below (hd : h.Below e d) : (h.entities d).isProxy = true := by
  induction hd with
  | refl => exact hproxy
  | tail _ hc ih => exact rest.proxies _ _ hc ih

include tree he

theorem leaving_removeFromParent (hdistinct : h.parent e ≠ none → DistinctOnBranches h e) :
    ToldToLeave h e (removeFromParent v h e) := by
  by_cases hparent : h.parent e = none
  · have hsame : removeFromParent v h e = h := by
      unfold removeFromParent
      rw [hparent]
    rw [hsame]
    refine ⟨.start tree he, fun d hd => (if_pos hparent).symm, fun d => ?_, fun d hd q hq x hx => ?_,
      .refl h, fun _ => rfl, fun hne => absurd hparent hne⟩
    · exact tree.mem_getChildEntities rest.allocated he
    · rw [tree.findEntity_eq] at hx
      exact hd.tail ⟨q, hq, hx⟩
  · have hattached : (h.entities e).parentAddress ≠ [] :=
      fun hnil => hparent ((parent_eq_none tree he).mpr hnil)
    obtain ⟨p, hp⟩ := Option.ne_none_iff_exists'.mp hparent
    have detached := detached_removeFromParent (v := v) tree he rest.allocated hp
      (hdistinct hparent) fun d => isProxy_of_below rest hproxy
    refine ⟨detached.whole, fun d hd => ?_, fun d => ?_, fun d hd q hq x hx => ?_, detached.fewer,
      fun hnone => absurd hnone hparent, fun _ => detached.swept⟩
    · rw [if_neg hparent, detached.placed.uri d hd, List.nil_append]
    · exact detached.mem_getChildEntities tree he hattached rest.allocated
    · obtain ⟨c, hc, rfl⟩ := (detached.placed.children d hd q).mp hq
      rw [List.nil_append, detached.whole.findEntity_eq tree he hattached
        (two_le_relative tree he hd hc)] at hx
      have hfound := detached.whole.found c (hd.tail hc)
      rw [detached.placed.uri c (hd.tail hc), List.nil_append, hx] at hfound
      exact Option.some.inj hfound ▸ hd.tail hc

/-- Taking an entity off its parent moves its subtree to the root, each child
by way of being there alone. -/
theorem removeFromParent_relocates (hparent : h.parent e ≠ none)
    (hdistinct : DistinctOnBranches h e) :
    Relocated h e (removeFromParent v h e) := by
  obtain ⟨p, hp⟩ := Option.ne_none_iff_exists'.mp hparent
  have detached := detached_removeFromParent (v := v) tree he rest.allocated hp hdistinct
    fun d => isProxy_of_below rest hproxy
  have huri : ∀ d, h.Below e d → ((removeFromParent v h e).entities d).uri = relative h e d :=
    fun d hd => by rw [detached.placed.uri d hd, List.nil_append]
  refine ⟨huri, detached.placed.children, detached.whole.outside, fun q y => ?_⟩
  generalize removeFromParent v h e = k at detached huri
  have hpassed : ∀ q y, ¬ h.Below e y → k.lookup q = some y → ¬ Passed h e q := by
    rintro q y hout hy ⟨x, d, hx, hd, rfl⟩
    exact hout (detached.swept x hx d hd y hy)
  constructor
  · intro hy
    by_cases hbelow : h.Below e y
    · exact Or.inl ⟨hbelow, by rw [← huri y hbelow, detached.whole.keyed q y hbelow hy]⟩
    · exact Or.inr ⟨hbelow, detached.fewer q y hbelow hy, hpassed q y hbelow hy⟩
  · rintro (⟨hbelow, rfl⟩ | ⟨hout, hy, hfree⟩)
    · rw [← huri y hbelow]
      exact detached.whole.found y hbelow
    · rcases detached.whole.lookup q with hsame | hmoved | ⟨d, hd, rfl⟩
      · rw [hsame, hy]
      · exact absurd hmoved hfree
      · rw [tree.inTree_of_below he hd] at hy
        exact absurd (Option.some.inj hy ▸ hd) hout

/-- Everybody below the entity is told, and nobody else. -/
theorem telling_of_leaving (leaving : ToldToLeave h e k) :
    Telling (h.Below e) (k.getChildEntities e) k := by
  have hevents := leaving.whole.edit.field Entity.synchronisableEvents fun _ => rfl
  have hstatus := leaving.whole.edit.field Entity.syncStatus fun _ => rfl
  refine ⟨leaving.closed, leaving.whole.registered, fun d hd => ?_, ?_, fun d hd => ?_,
    fun d hd => Or.inr ⟨⟨?_, ?_⟩, ?_⟩, fun d _ => ?_, ?_⟩
  · rw [leaving.whole.edit.field Entity.isProxy fun _ => rfl]
    exact isProxy_of_below rest hproxy hd
  · rw [leaving.whole.edit.proxies]
    exact rest.nodup
  · rw [leaving.whole.edit.deadIDs]
    exact rest.alive d (tree.inTree_of_below he hd)
  · rw [hstatus]
    exact rest.activated d (tree.inTree_of_below he hd) (isProxy_of_below rest hproxy hd)
  · rw [hevents]
    exact rest.quiet.events d
  · exact (leaving.members d).mpr hd
  · rw [hevents]
    exact own_of_harmless (rest.quiet.events d)
  · rw [leaving.whole.edit.cleanupOps]
    exact rest.quiet.cleanupOps

/-- The subtree leaves from where `remove_proxy_entity` has brought it. -/
theorem dying_removeProxyEntity (leaving : ToldToLeave h e (removeFromParent v h e)) :
    Dying (h.Below e) (fun d => ((removeFromParent v h e).entities d).uri)
      (removeFromParent v h e).lookup (removeProxyEntity v h e) := by
  have telling := telling_of_leaving tree rest he hproxy leaving
  have hmembers := leaving.members
  unfold removeProxyEntity
  rw [if_pos hproxy]
  unfold destroyEntityComplete
  dsimp only
  generalize removeFromParent v h e = k at telling hmembers ⊢
  have htold : Telling (h.Below e) (k.getChildEntities e)
      { k with hierarchyEvents := k.hierarchyEvents ++ leavingEvent (k.entities e) } :=
    ⟨telling.closed, telling.registered, telling.isProxy, telling.nodup, telling.alive,
      fun d hd => (telling.state d hd).imp (fun w => ⟨w.status, w.events, w.queued⟩)
        fun s => ⟨⟨s.1.status, s.1.events⟩, s.2⟩,
      telling.others, telling.cleanupOps⟩
  rw [getChildEntities_hierarchyEvents]
  exact htold.dying fun d => (hmembers d).mp

/-- Once everything is drained the lookup table has lost exactly the subtree if
and only if nobody else at the root has the name of one of the subtree. -/
theorem removesExactly_of_idle (hdistinct : h.parent e ≠ none → DistinctOnBranches h e)
    (hsteps : Relation.ReflTransGen (Drain v) (removeProxyEntity v h e) k) (idle : Idle k) :
    RemovesExactly h e k ↔ RootPathsFree h e := by
  have leaving := leaving_removeFromParent (v := v) tree rest he hproxy hdistinct
  have hdrained := (dying_removeProxyEntity tree rest he hproxy leaving).drained hsteps idle
  have hwhole := leaving.whole
  have huri := leaving.uri
  have hfewer := leaving.fewer
  have hstays := leaving.stays
  have hswept := leaving.swept
  clear leaving hsteps
  generalize removeFromParent v h e = l at hdrained hwhole huri hfewer hstays hswept
  have hkept : ∀ q y, k.lookup q = some y → h.lookup q = some y ∧ ¬ h.Below e y := by
    intro q y hy
    rcases hdrained q with ⟨htable, hfree⟩ | ⟨hnone, -⟩
    · rw [htable] at hy
      have hout : ¬ h.Below e y := fun hbelow => hfree y hbelow (hwhole.keyed q y hbelow hy)
      exact ⟨hfewer q y hout hy, hout⟩
    · rw [hnone] at hy
      cases hy
  constructor
  · intro hexact
    by_contra hdisturbed
    unfold RootPathsFree at hdisturbed
    obtain ⟨hparent, hnot⟩ := not_or.mp hdisturbed
    refine hnot fun d hd y hy => ?_
    by_contra hout
    have hky := (hexact _ y).mpr ⟨hy, hout⟩
    rcases hdrained (h.entities d).uri.last with ⟨htable, -⟩ | ⟨hnone, -⟩
    · rw [htable, ← relative_self_eq tree (tree.inTree_of_below he hd)] at hky
      exact hout (hswept hparent d hd d .refl y hky)
    · rw [hnone] at hky
      cases hky
  · rintro hfree q y
    refine ⟨hkept q y, fun ⟨hy, hout⟩ => ?_⟩
    have hpath : ∀ d, h.Below e d → (l.entities d).uri ≠ q := by
      intro d hd heq
      rw [huri d hd] at heq
      split at heq
      · rw [← heq, tree.inTree_of_below he hd] at hy
        exact hout (Option.some.inj hy ▸ hd)
      · rename_i hparent
        exact hout (below_of_passed tree he hparent (hfree.resolve_left hparent)
          ⟨e, d, .refl, hd, heq⟩ hy)
    rcases hdrained q with ⟨htable, -⟩ | ⟨-, d, hd, heq⟩
    · rw [htable]
      rcases hwhole.lookup q with hsame | hpassed | ⟨d, hd, heq⟩
      · rw [hsame, hy]
      · by_cases hparent : h.parent e = none
        · rw [hstays hparent, hy]
        · exact absurd (below_of_passed tree he hparent (hfree.resolve_left hparent) hpassed hy) hout
      · rw [← heq, tree.inTree_of_below he hd] at hy
        exact absurd (Option.some.inj hy ▸ hd) hout
    · exact absurd heq (hpath d hd)

end Leave

/-! ## On the stage -/

section Stage

open ZstStage

variable {s t : ZstSession}

theorem run_synchronisableEvents (n : Nat) (s : ZstSession) :
    Library.run step s (List.replicate n .synchronisableEvent) =
      .ok { s with hierarchy := (processItems stageOverrides 1)^[n] s.hierarchy } := by
  induction n generalizing s with
  | zero => rfl
  | succ n ih =>
    rw [List.replicate_succ, Library.run_cons_ok]
    exact ⟨_, rfl, ih _⟩

theorem run_cleanups (n : Nat) (s : ZstSession) :
    Library.run step s (List.replicate n .cleanup) =
      .ok { s with hierarchy := (reapAll stageOverrides 1)^[n] s.hierarchy } := by
  induction n generalizing s with
  | zero => rfl
  | succ n ih =>
    rw [List.replicate_succ, Library.run_cons_ok]
    exact ⟨_, rfl, ih _⟩

/-- Steps that meet the condition wherever they are taken. -/
theorem along_of_forall {condition : ZstSession → StageEvent → Prop} {events : List StageEvent}
    (hall : ∀ event ∈ events, ∀ s, condition s event) (s : ZstSession) :
    Library.Along step condition s events := by
  induction events generalizing s with
  | nil => trivial
  | cons event events ih =>
    exact ⟨hall event List.mem_cons_self s, fun t _ =>
      ih (fun event hevent => hall event (List.mem_cons_of_mem _ hevent)) t⟩

/-- A message that removes one entity, or a tick of the timer. In whatever order
the event loop takes what it has to do, and whatever else the stage is told while
it does, it can come to an end, and then the lookup table has lost the subtree and
nothing else if and only if no other entity at the root has the name of one of the
subtree. -/
theorem removesExactly_iff {u : ZstSession} {event : StageEvent}
    (tree : RegisteredTree s.hierarchy) (rest : AtRest s.hierarchy) (he : s.hierarchy.InTree e)
    (hproxy : (s.hierarchy.entities e).isProxy = true)
    (hdistinct : s.hierarchy.parent e ≠ none → DistinctOnBranches s.hierarchy e)
    (hleavers : leavers s.hierarchy event = [e]) (hstep : step s event = .ok u) :
    (∃ events t, Library.Along step MovesNobody u events ∧
      Library.run step u events = .ok t ∧ Idle t.hierarchy) ∧
    ∀ events t, Library.Along step MovesNobody u events → Library.run step u events = .ok t →
      Idle t.hierarchy →
      (RemovesExactly s.hierarchy e t.hierarchy ↔ RootPathsFree s.hierarchy e) := by
  obtain ⟨h, hbefore, hafter⟩ := heard_of_leavers hleavers hstep
  have treeBefore := hbefore.registeredTree tree
  have restBefore := rest.heard hbefore
  have heBefore := (hbefore.inTree_iff e).mpr he
  have hproxyBefore : (h.entities e).isProxy = true :=
    (hbefore.field Entity.isProxy (fun _ => rfl) e).trans hproxy
  have hdistinctBefore : h.parent e ≠ none → DistinctOnBranches h e := by
    simp only [DistinctOnBranches, hbefore.below_eq, hbefore.uri, hbefore.parent_eq]
    exact hdistinct
  constructor
  · have hdying := (dying_removeProxyEntity treeBefore restBefore heBefore hproxyBefore
      (leaving_removeFromParent (v := stageOverrides) treeBefore restBefore heBefore hproxyBefore
        hdistinctBefore)).heard hafter
    obtain ⟨n, m, hidle⟩ := hdying.exists_idle (v := stageOverrides)
    refine ⟨List.replicate n .synchronisableEvent ++ List.replicate m .cleanup, _,
      along_of_forall (fun event hevent s => ?_) u, Library.run_append_ok.mpr
        ⟨_, run_synchronisableEvents n u, run_cleanups m _⟩, hidle⟩
    rcases List.mem_append.mp hevent with hevent | hevent
    · rw [List.eq_of_mem_replicate hevent]
      trivial
    · rw [List.eq_of_mem_replicate hevent]
      trivial
  · intro events t hcalm hrun idle
    have hexact := removesExactly_of_idle treeBefore restBefore heBefore hproxyBefore
      hdistinctBefore (.head (.event _ hafter) (drains_run hcalm hrun)) idle
    simp only [RemovesExactly, RootPathsFree, hbefore.below_eq, hbefore.lookup, hbefore.uri,
      hbefore.parent_eq] at hexact ⊢
    exact hexact

end Stage

/-! ## A studio -/

/-- Two performers and a component with a name of the other's subtree. -/
def studio : ZstSession where
  hierarchy := ofList
    [ { entityType := .performer, uri := ["ada"], registered := true, isProxy := true
        syncStatus := .activated, children := [["ada", "synth"]] },
      { entityType := .component, uri := ["ada", "synth"], parentAddress := ["ada"]
        registered := true, isProxy := true, syncStatus := .activated
        children := [["ada", "synth", "osc"]] },
      { entityType := .component, uri := ["ada", "synth", "osc"], parentAddress := ["ada", "synth"]
        registered := true, isProxy := true, syncStatus := .activated },
      { entityType := .performer, uri := ["osc"], registered := true, isProxy := true
        syncStatus := .activated } ]
  cableObjects _ := { address := ⟨[], []⟩, input := 0, output := 0 }

theorem studio_registered : RegisteredTree studio.hierarchy :=
  registeredTree_ofList (by decide) (by decide) (by decide) (by decide) (by decide)

theorem studio_atRest : AtRest studio.hierarchy :=
  atRest_ofList (by decide)

/-- The names of the component's subtree are distinct. -/
theorem distinct_synth : DistinctOnBranches studio.hierarchy 1 :=
  distinct_of_getChildEntities studio_registered studio_atRest.allocated (by decide) (by decide)

theorem removeFromParent_relocates_synth :
    Relocated studio.hierarchy 1 (removeFromParent stageOverrides studio.hierarchy 1) :=
  removeFromParent_relocates studio_registered studio_atRest (by decide) (by decide) (by decide)
    distinct_synth

/-- The component is removed by its client. -/
def withdrawal : ZstStageMessage :=
  { content := .entityDestroyRequest ["ada", "synth"], id := 0, originEndpointUUID := 0 }

/-- `osc` of the other performer is in the way. -/
theorem not_undisturbed_synth : ¬ RootPathsFree studio.hierarchy 1 := by
  have hbelow : ∀ d, d ∈ studio.hierarchy.getChildEntities 1 ↔ studio.hierarchy.Below 1 d :=
    fun d => studio_registered.mem_getChildEntities studio_atRest.allocated (by decide)
  rintro (hparent | hfree)
  · exact absurd hparent (by decide)
  · exact absurd ((hbelow 3).mpr (hfree 2 ((hbelow 2).mp (by decide)) 3 (by decide))) (by decide)

theorem removesExactly_iff_synth :
    ∃ u, ZstStage.step studio (.receive withdrawal) = .ok u ∧
      (∃ events t, Library.Along ZstStage.step MovesNobody u events ∧
        Library.run ZstStage.step u events = .ok t ∧ Idle t.hierarchy) ∧
      ∀ events t, Library.Along ZstStage.step MovesNobody u events →
        Library.run ZstStage.step u events = .ok t → Idle t.hierarchy →
          ¬ RemovesExactly studio.hierarchy 1 t.hierarchy := by
  obtain ⟨u, hu⟩ : ∃ u, ZstStage.step studio (.receive withdrawal) = .ok u := ⟨_, rfl⟩
  obtain ⟨hends, hexact⟩ := removesExactly_iff studio_registered studio_atRest
    (e := 1) (by decide) (by decide) (fun _ => distinct_synth) (by decide) hu
  refine ⟨u, hu, hends, fun events t hcalm hrun idle hremoves => ?_⟩
  exact not_undisturbed_synth ((hexact events t hcalm hrun idle).mp hremoves)

end Showtime.Removal
