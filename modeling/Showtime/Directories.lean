import Showtime.Library.Refinement
import Showtime.Remaining
import Showtime.Requests
/-!
# The stage as a directory

To its clients the stage is a directory: performers at the top, and below them
whatever the clients have created. As long as nobody is renamed, and a removal
is over before the next request, the stage is what the requests make of the
empty directory.
-/

namespace Showtime.Directories

open ZstHierarchy ZstStageHierarchy ZstStageSession ZstStage Detaching Draining Removal Remaining

variable {h k : ZstHierarchy} {e p : EntityId} {x : Entity}

/-! ## Arrivals -/

/-- A new object that the tree has a place for. -/
structure HasPlace (h : ZstHierarchy) (x : Entity) : Prop where
  unplaced : Unplaced x
  events : x.synchronisableEvents = []
  new : h.lookup x.uri = none
  segments : x.uri ≠ [] ∧ "" ∉ x.uri
  parent : x.uri.dropLast ≠ [] →
    ∃ p, h.lookup x.uri.dropLast = some p ∧ (h.entities p).isComponent = true
  performer : x.entityType = .performer ↔ x.uri.dropLast = []
  kind : x.entityType ≠ .none

theorem parent_eq_dropLast {q : ZstURI} (hq : "" ∉ q) : q.parent = q.dropLast := by
  unfold ZstURI.parent ZstURI.ofSegments
  refine if_neg fun heq => hq (List.mem_of_mem_dropLast ?_)
  rw [heq]
  exact List.mem_singleton_self ""

theorem keyed_of_order (order : InOrder h) : Keyed h := by
  refine ⟨fun q e he => ?_, fun q e he => ?_, ?_⟩
  · rw [order.tree.findEntity_eq] at he
    exact (order.tree.keyed q e he).1
  · rw [order.tree.findEntity_eq] at he
    exact order.lt_next (order.tree.inTree_of_lookup he)
  · rw [order.tree.findEntity_eq]
    exact (entries order.tree).nowhere

theorem arrive_lookup (h : ZstHierarchy) (x : Entity) (q : ZstURI) :
    (h.arrive x).lookup q = if q = x.uri then some h.next else h.lookup q :=
  Function.update_apply ..

theorem arrive_next (h : ZstHierarchy) (x : Entity) : (h.arrive x).entities h.next =
    { h.placed x with registered := true, isProxy := true, syncStatus := .activated } :=
  if_pos rfl

theorem inTree_arrive (fits : HasPlace h x) :
    (h.arrive x).InTree e ↔ e = h.next ∨ e ≠ h.next ∧ h.InTree e := by
  unfold InTree
  by_cases hnew : e = h.next
  · subst hnew
    rw [arrive_uri_next, arrive_lookup, if_pos rfl]
    exact ⟨fun _ => Or.inl rfl, fun _ => rfl⟩
  · rw [arrive_uri hnew, arrive_lookup]
    constructor
    · intro he
      split at he
      · exact absurd (Option.some.inj he).symm hnew
      · exact Or.inr ⟨hnew, he⟩
    · intro he
      have hold := (he.resolve_left hnew).2
      rw [if_neg fun heq => ?_]
      · exact hold
      · rw [heq, fits.new] at hold
        cases hold

section Arrive

variable (order : InOrder h) (fits : HasPlace h x)

include order fits

/-- Nobody but the parent is changed. -/
theorem arrive_entities (hold : e ≠ h.next) : (h.arrive x).entities e =
    if h.lookup x.uri.dropLast = some e then
      { h.entities e with children := ZstURI.emplace (h.entities e).children x.uri }
    else h.entities e := by
  unfold arrive
  dsimp only
  rw [if_neg hold, order.tree.findEntity_eq, parent_eq_dropLast fits.segments.2]

theorem arrive_field {β : Type} (f : Entity → β) (hf : ∀ x l, f { x with children := l } = f x)
    (hold : e ≠ h.next) : f ((h.arrive x).entities e) = f (h.entities e) := by
  rw [arrive_entities order fits hold]
  split
  · exact hf _ _
  · rfl

theorem mem_arrive_children (hold : e ≠ h.next) (q : ZstURI) :
    q ∈ ((h.arrive x).entities e).children ↔
      q ∈ (h.entities e).children ∨ h.lookup x.uri.dropLast = some e ∧ q = x.uri := by
  rw [arrive_entities order fits hold]
  split
  · rename_i hp
    rw [ZstURI.mem_emplace]
    exact ⟨fun hq => hq.symm.imp_right fun heq => ⟨hp, heq⟩, fun hq => hq.symm.imp_left And.right⟩
  · rename_i hp
    exact ⟨Or.inl, fun hq => hq.resolve_right fun hboth => hp hboth.1⟩

theorem placed_fields : (h.placed x).parentAddress = x.uri.dropLast ∧
    (h.placed x).children = [] ∧ (h.placed x).synchronisableEvents = [] := by
  have hparent := parent_eq_dropLast fits.segments.2
  unfold placed
  rw [order.tree.findEntity_eq, hparent]
  split
  · rename_i p hp
    have hunlisted : x.uri ∉ (h.entities p).children := by
      intro hmem
      obtain ⟨c, s, hc, -⟩ := order.tree.child p (order.tree.inTree_of_lookup hp) _ hmem
      rw [fits.new] at hc
      cases hc
    rw [if_neg hunlisted]
    dsimp only
    split
    · exact ⟨rfl, fits.unplaced.children, fits.events⟩
    · exact ⟨rfl, fits.unplaced.children, fits.events⟩
  · rename_i hnone
    have hnil : x.uri.dropLast = [] := by
      by_contra hne
      obtain ⟨p, hp, -⟩ := fits.parent hne
      rw [hnone] at hp
      cases hp
    rw [hnil]
    exact ⟨fits.unplaced.parentAddress, fits.unplaced.children, fits.events⟩

theorem registeredTree_arrive : RegisteredTree (h.arrive x) := by
  have hnext : ∀ d, h.InTree d → d ≠ h.next := fun d hd => Nat.ne_of_lt (order.lt_next hd)
  have huri := arrive_uri_next h x
  obtain ⟨haddress, hchildren, -⟩ := placed_fields order fits
  -- whoever was found is found
  have hfound : ∀ q d, h.lookup q = some d → (h.arrive x).lookup q = some d := by
    intro q d hd
    rw [arrive_lookup, if_neg fun heq => ?_]
    · exact hd
    · rw [heq, fits.new] at hd
      cases hd
  have hin : ∀ d, (h.arrive x).InTree d → d = h.next ∨ d ≠ h.next ∧ h.InTree d :=
    fun d => (inTree_arrive fits).mp
  refine ⟨fun q d hd => ?_, fun d hd => ?_, fun r hr => ?_, fun d hd => ?_, fun d hd => ?_,
    fun d hd => ?_, fun d hd => ?_⟩
  · rw [arrive_lookup] at hd
    split at hd
    · rename_i hq
      obtain rfl := Option.some.inj hd
      rw [huri, arrive_next]
      exact ⟨hq.symm, Function.update_self .., rfl⟩
    · have hold := hnext d (order.tree.inTree_of_lookup hd)
      obtain ⟨hdu, hlive, hregistered⟩ := order.tree.keyed q d hd
      rw [arrive_uri hold, arrive_field order fits Entity.registered (fun _ _ => rfl) hold]
      exact ⟨hdu, (Function.update_of_ne hold _ _).trans hlive, hregistered⟩
  · rcases hin d hd with rfl | ⟨hold, hd⟩
    · rw [huri]
      exact fits.segments
    · rw [arrive_uri hold]
      exact order.tree.segments d hd
  · change h.root = some r at hr
    rw [order.root] at hr
    cases hr
  · rcases hin d hd with rfl | ⟨hold, hd⟩
    · rw [huri, arrive_next]
      intro hnil
      have hlength := congrArg List.length (haddress.symm.trans hnil)
      have hpos := List.length_pos_iff.mpr fits.segments.1
      rw [List.length_dropLast, List.length_nil] at hlength
      omega
    · rw [arrive_uri hold, arrive_field order fits Entity.parentAddress (fun _ _ => rfl) hold]
      exact order.tree.top d hd
  · rcases hin d hd with rfl | ⟨hold, hd⟩
    · rw [huri, arrive_next]
      dsimp only
      rw [haddress]
      intro hne
      obtain ⟨p, hp, hkind⟩ := fits.parent hne
      have hpold := hnext p (order.tree.inTree_of_lookup hp)
      refine ⟨p, hfound _ p hp, ?_, (mem_arrive_children order fits hpold _).mpr (Or.inr ⟨hp, rfl⟩)⟩
      rw [arrive_field order fits Entity.isComponent (fun _ _ => rfl) hpold]
      exact hkind
    · rw [arrive_uri hold, arrive_field order fits Entity.parentAddress (fun _ _ => rfl) hold]
      intro hne
      obtain ⟨p, hp, hkind, hmem⟩ := order.tree.parent d hd hne
      have hpold := hnext p (order.tree.inTree_of_lookup hp)
      refine ⟨p, hfound _ p hp, ?_, (mem_arrive_children order fits hpold _).mpr (Or.inl hmem)⟩
      rw [arrive_field order fits Entity.isComponent (fun _ _ => rfl) hpold]
      exact hkind
  · rcases hin d hd with rfl | ⟨hold, hd⟩
    · rw [arrive_next]
      dsimp only
      rw [hchildren]
      exact fun q hq => absurd hq List.not_mem_nil
    · intro q hq
      rw [arrive_uri hold]
      rcases (mem_arrive_children order fits hold q).mp hq with hq | ⟨hp, rfl⟩
      · obtain ⟨c, s, hc, hcaddress, hqs⟩ := order.tree.child d hd q hq
        refine ⟨c, s, hfound q c hc, ?_, hqs⟩
        rw [arrive_field order fits Entity.parentAddress (fun _ _ => rfl)
          (hnext c (order.tree.inTree_of_lookup hc))]
        exact hcaddress
      · have hdu := (order.tree.keyed _ d hp).1
        refine ⟨h.next, x.uri.getLast fits.segments.1, ?_, ?_, ?_⟩
        · rw [arrive_lookup, if_pos rfl]
        · rw [arrive_next]
          exact haddress.trans hdu.symm
        · rw [hdu, List.dropLast_append_getLast]
  · rcases hin d hd with rfl | ⟨hold, hd⟩
    · rw [arrive_next]
      dsimp only
      rw [hchildren]
      exact List.nodup_nil
    · rw [arrive_entities order fits hold]
      split
      · exact ZstURI.nodup_emplace _ (order.tree.nodup d hd)
      · exact order.tree.nodup d hd

theorem order_arrive : InOrder (h.arrive x) := by
  obtain ⟨-, -, hevents⟩ := placed_fields order fits
  have hin : ∀ d, (h.arrive x).InTree d → d = h.next ∨ d ≠ h.next ∧ h.InTree d :=
    fun d => (inTree_arrive fits).mp
  have tree := registeredTree_arrive order fits
  have howned : ∀ d, (h.arrive x).InTree d → ((h.arrive x).entities d).isProxy = true := by
    intro d hd
    rcases hin d hd with rfl | ⟨hold, hd⟩
    · rw [arrive_next]
    · rw [arrive_field order fits Entity.isProxy (fun _ _ => rfl) hold]
      exact order.owned d hd
  refine ⟨tree, ⟨⟨order.idle.cleanupOps, fun d => ?_⟩, fun d hd => ?_, fun d hd _ => ?_,
    fun p c hc _ => ?_, ?_, fun d _ => ?_⟩, ⟨order.idle.1, order.idle.2⟩, order.root, howned,
    fun d => ?_, fun d hd => ?_, fun d hd => ?_, order.deadIDs, fun d hd => ?_⟩
  · by_cases hnew : d = h.next
    · rw [hnew, arrive_next]
      dsimp only
      rw [hevents]
      exact fun event hevent => absurd hevent List.not_mem_nil
    · rw [arrive_field order fits Entity.synchronisableEvents (fun _ _ => rfl) hnew]
      exact order.rest.quiet.events d
  · rcases hin d hd with rfl | ⟨-, hd⟩
    · exact Nat.lt_succ_self _
    · exact Nat.lt_succ_of_lt (order.lt_next hd)
  · rcases hin d hd with rfl | ⟨hold, hd⟩
    · rw [arrive_next]
    · rw [arrive_field order fits Entity.syncStatus (fun _ _ => rfl) hold]
      exact order.rest.activated d hd (order.owned d hd)
  · obtain ⟨q, -, hq⟩ := hc
    exact howned c (tree.inTree_of_lookup hq)
  · refine List.nodup_append.mpr ⟨order.rest.nodup, List.nodup_singleton _, fun d hd d' hd' => ?_⟩
    rintro rfl
    exact Nat.ne_of_lt (order.lt_next ((order.listed d).mpr hd)) (List.mem_singleton.mp hd')
  · change d ∉ h.deadIDs
    rw [order.deadIDs]
    exact List.not_mem_nil
  · have hproxies : d ∈ (h.arrive x).proxies ↔ d ∈ h.proxies ∨ d = h.next := by
      refine List.mem_append.trans (or_congr_right ?_)
      exact List.mem_singleton
    rw [inTree_arrive fits, hproxies, ← order.listed]
    constructor
    · rintro (hnew | ⟨-, hd⟩)
      · exact Or.inr hnew
      · exact Or.inl hd
    · rintro (hd | hnew)
      · exact Or.inr ⟨Nat.ne_of_lt (order.lt_next hd), hd⟩
      · exact Or.inl hnew
  · rcases hin d hd with rfl | ⟨hold, hd⟩
    · rw [arrive_kind_next, arrive_next]
      dsimp only
      rw [(placed_fields order fits).1]
      exact fits.performer
    · rw [arrive_kind h x hold, arrive_field order fits Entity.parentAddress (fun _ _ => rfl) hold]
      exact order.performer d hd
  · rcases hin d hd with rfl | ⟨hold, hd⟩
    · rw [arrive_kind_next]
      exact fits.kind
    · rw [arrive_kind h x hold]
      exact order.kind d hd
  · have hold : d ≠ h.next := fun heq => absurd hd (by rw [heq]; exact Nat.not_succ_le_self _)
    rw [arrive_field order fits Entity.registered (fun _ _ => rfl) hold]
    exact order.fresh d (Nat.le_of_succ_le hd)

end Arrive

/-! ## The directory of a hierarchy -/

/-- The kinds of the entities, at the paths where they are found. -/
structure Represents (h : ZstHierarchy) (d : Library.Directory String ZstEntityType) : Prop where
  order : InOrder h
  entry : ∀ q, d.entry q = (h.lookup q).map fun e => (h.entities e).entityType

/-- The removal of the subtree disturbs nobody else, and moves it as a whole. -/
def Parts (h : ZstHierarchy) (e : EntityId) : Prop :=
  RootPathsFree h e ∧ (h.parent e ≠ none → DistinctOnBranches h e)

/-- The hierarchy is what the directory says, or will be once a subtree has left. -/
inductive Refines (h : ZstHierarchy) (d : Library.Directory String ZstEntityType) : Prop
  | settled (represents : Represents h d)
  | leaving (base : ZstHierarchy) (e : EntityId) (whole : Library.Directory String ZstEntityType)
      (represents : Represents base whole) (he : base.InTree e) (parts : Parts base e)
      (hd : d = whole.remove (base.entities e).uri)
      (hsteps : Relation.ReflTransGen (Drain stageOverrides)
        (base.removeProxyEntity stageOverrides e) h)

section Represent

variable {d : Library.Directory String ZstEntityType}

theorem below_iff_extends (tree : RegisteredTree h) (he : h.InTree e) {y : EntityId}
    (hy : h.InTree y) : h.Below e y ↔ (h.entities e).uri <+: (h.entities y).uri := by
  refine ⟨tree.prefix_of_below he, fun hextends => ?_⟩
  obtain ⟨rest, hrest⟩ := hextends
  induction rest using List.reverseRecOn generalizing y with
  | nil =>
    rw [List.append_nil] at hrest
    unfold InTree at he hy
    rw [← hrest, he] at hy
    exact Option.some.inj hy ▸ .refl
  | append_singleton rest s ih =>
    -- the parent of the last entity is below the first one
    have haddress : (h.entities y).parentAddress ≠ [] := by
      intro hnil
      have hone := tree.top y hy hnil
      have hpos := List.length_pos_iff.mpr (tree.segments e he).1
      rw [← hrest, List.length_append, List.length_append, List.length_singleton] at hone
      omega
    obtain ⟨p, hp, -, hmem⟩ := tree.parent y hy haddress
    have hpTree := tree.inTree_of_lookup hp
    obtain ⟨c, s', -, -, huri⟩ := tree.child p hpTree _ hmem
    rw [← hrest, ← List.append_assoc] at huri
    exact (ih hpTree (List.append_inj' huri rfl).1).tail ⟨_, hmem, hy⟩

namespace Represents

variable (represents : Represents h d)

include represents

theorem isSome_entry (q : ZstURI) : (d.entry q).isSome = (h.lookup q).isSome := by
  rw [represents.entry, Option.isSome_map]

theorem heard (hk : Heard h k) : Represents k d :=
  ⟨represents.order.heard hk, fun q => by
    simp only [represents.entry, hk.lookup, hk.field Entity.entityType fun _ => rfl]⟩

/-- With nothing to do the event loop does nothing. -/
theorem drain (hk : Drain stageOverrides h k) : Represents k d := by
  cases hk with
  | event _ heard => exact represents.heard heard
  | item =>
    simp only [processItems, represents.order.idle.1]
    exact represents
  | cleanup =>
    simp only [reapAll, represents.order.idle.2]
    exact represents
  | forgetDead =>
    rw [← represents.order.deadIDs]
    exact represents

theorem admits (fits : HasPlace h x) : d.Admits x.uri := by
  refine ⟨fits.segments.1, ?_, fun hne => ?_⟩
  · rw [represents.entry, fits.new]
    rfl
  · obtain ⟨p, hp, -⟩ := fits.parent hne
    rw [represents.isSome_entry, hp]
    rfl

theorem arrive (fits : HasPlace h x) : Represents (h.arrive x) (d.enter x.uri x.entityType) := by
  refine ⟨order_arrive represents.order fits, fun q => ?_⟩
  rw [Library.Directory.entry_enter (represents.admits fits), arrive_lookup]
  split
  · rw [Option.map_some, arrive_kind_next]
  · rw [represents.entry]
    refine Option.map_congr fun e he => (arrive_kind h x ?_).symm
    exact Nat.ne_of_lt (represents.order.lt_next (represents.order.tree.inTree_of_lookup he))

/-- A taken path is not entered again. -/
theorem enter_taken {q : ZstURI} (hq : (h.lookup q).isSome) (kind : ZstEntityType) :
    d.enter q kind = d := by
  refine Library.Directory.enter_eq_self (fun hadmits => ?_) kind
  have hnone := hadmits.2.1
  rw [Option.isNone_iff_eq_none, ← Option.not_isSome_iff_eq_none, represents.isSome_entry] at hnone
  exact hnone hq

/-- A subtree has left. -/
theorem remove (he : h.InTree e) (parts : Parts h e) (idle : Idle k)
    (hsteps : Relation.ReflTransGen (Drain stageOverrides)
      (h.removeProxyEntity stageOverrides e) k) :
    Represents k (d.remove (h.entities e).uri) := by
  have order := represents.order
  obtain ⟨horder, hremoves, without⟩ := order_of_idle order he parts.1 parts.2 hsteps idle
  refine ⟨horder, fun q => ?_⟩
  have hbelow : ∀ y, h.lookup q = some y → (h.Below e y ↔ (h.entities e).uri <+: q) := by
    intro y hy
    rw [below_iff_extends order.tree he (order.tree.inTree_of_lookup hy),
      (order.tree.keyed q y hy).1]
  rw [Library.Directory.entry_remove, represents.entry]
  cases hy : k.lookup q with
  | some y =>
    obtain ⟨hfound, hout⟩ := (hremoves q y).mp hy
    rw [if_neg fun hextends => hout ((hbelow y hfound).mpr hextends), hfound, Option.map_some,
      Option.map_some, without.entityType (order.tree.inTree_of_lookup hfound) hout]
  | none =>
    split
    · rfl
    · rename_i hextends
      cases hfound : h.lookup q with
      | none => rfl
      | some y =>
        rw [(hremoves q y).mpr ⟨hfound, fun hy => hextends ((hbelow y hfound).mp hy)⟩] at hy
        cases hy

end Represents

theorem Refines.represents (refines : Refines h d) (idle : Idle h) : Represents h d := by
  cases refines with
  | settled represents => exact represents
  | leaving base e whole represents he parts hd hsteps =>
    rw [hd]
    exact represents.remove he parts idle hsteps

theorem Refines.drain (refines : Refines h d) (hk : Drain stageOverrides h k) : Refines k d := by
  cases refines with
  | settled represents => exact .settled (represents.drain hk)
  | leaving base e whole represents he parts hd hsteps =>
    exact .leaving base e whole represents he parts hd (hsteps.tail hk)

end Represent

/-! ## The requests of the clients -/

/-- What a step asks of the directory. A client enters paths below its own path only. -/
def requestOf (s : ZstSession) (event : StageEvent) :
    Library.Directory.Request String ZstEntityType :=
  match leavers s.hierarchy event with
  | e :: _ => .remove (s.hierarchy.entities e).uri
  | [] =>
    match event with
    | .receive msg =>
      match msg.content with
      | .clientJoinRequest performer _ => .enter performer.uri .performer
      | .entityCreateRequest buffer =>
        if (getClientFromEndpointUUID s.hierarchy msg.originEndpointUUID).any fun performer =>
            (s.hierarchy.entities performer).uri.first = buffer.uri.first then
          .enter buffer.uri buffer.entityType
        else .nothing
      | _ => .nothing
    | _ => .nothing

/-- Who comes has a name, and a performer comes to the top, anybody else to where
its parent is. Nobody is updated. -/
def ArrivesInPlace (s : ZstSession) : StageEvent → Prop
  | .receive msg =>
    match msg.content with
    | .clientJoinRequest performer _ => performer.uri.length = 1 ∧ "" ∉ performer.uri
    | .entityCreateRequest buffer =>
      buffer.entityType ≠ .performer ∧ "" ∉ buffer.uri ∧
        (s.hierarchy.findEntity buffer.uri.parent).isSome
    | .entityUpdateRequest _ _ => False
    | _ => True
  | _ => True

/-- The step brings or removes one entity at most. -/
structure ChangesOneEntity (s : ZstSession) (event : StageEvent) : Prop where
  named : ArrivesInPlace s event
  one : (leavers s.hierarchy event).length ≤ 1
  parts : ∀ e ∈ leavers s.hierarchy event, Parts s.hierarchy e

/-- The step moves nobody, or comes when nothing is left to do. -/
def Disciplined (s : ZstSession) (event : StageEvent) : Prop :=
  MovesNobody s event ∨ Idle s.hierarchy ∧ ChangesOneEntity s event

section Steps

variable {s t : ZstSession} {event : StageEvent} {d : Library.Directory String ZstEntityType}

theorem requestOf_movesNobody (hcalm : MovesNobody s event) : requestOf s event = .nothing := by
  cases event with
  | receive msg =>
    cases hcontent : msg.content with
    | clientJoinRequest | clientLeaveRequest | entityCreateRequest | entityUpdateRequest
    | entityDestroyRequest =>
      simp only [MovesNobody, hcontent] at hcalm
      exact hcalm.elim
    | _ => simp only [requestOf, leavers, hcontent]
  | heartbeatTimer =>
    simp only [MovesNobody] at hcalm
    simp only [requestOf, leavers, hcalm]
  | _ => rfl

theorem inTree_of_mem_leavers (order : InOrder s.hierarchy) (he : e ∈ leavers s.hierarchy event) :
    s.hierarchy.InTree e := by
  rcases mem_leavers he with howned | ⟨path, hfind⟩
  · exact (order.listed e).mpr howned
  · rw [order.tree.findEntity_eq] at hfind
    exact order.tree.inTree_of_lookup hfind

theorem Parts.heard (parts : Parts h e) (hk : Heard h k) : Parts k e := by
  unfold Parts RootPathsFree DistinctOnBranches at parts ⊢
  simp only [hk.below_eq, hk.uri, hk.lookup, hk.parent_eq]
  exact parts

/-- A subtree begins to leave. -/
theorem refines_removes (represents : Represents s.hierarchy d) (orderly : ChangesOneEntity s event)
    {rest : List EntityId} (hleavers : leavers s.hierarchy event = e :: rest)
    (hrun : step s event = .ok t) :
    Refines t.hierarchy (d.remove (s.hierarchy.entities e).uri) := by
  have hmem : e ∈ leavers s.hierarchy event := by
    rw [hleavers]
    exact List.mem_cons_self
  have hone := orderly.one
  rw [hleavers, List.length_cons] at hone
  obtain rfl := List.eq_nil_of_length_eq_zero (Nat.le_zero.mp (Nat.le_of_succ_le_succ hone))
  obtain ⟨k, hbefore, hafter⟩ := heard_of_leavers hleavers hrun
  refine .leaving k e d (represents.heard hbefore) ?_ ((orderly.parts e hmem).heard hbefore) ?_
    (.single (.event _ hafter))
  · exact (hbefore.inTree_iff e).mpr (inTree_of_mem_leavers represents.order hmem)
  · rw [hbefore.uri]

/-- A client joins with a path that is free. -/
theorem fits_performer {buffer : EntityBuffer} {address : String} {endpoint : Endpoint}
    (hone : buffer.uri.length = 1) (hnamed : "" ∉ buffer.uri) (hnew : h.lookup buffer.uri = none) :
    HasPlace h (Entity.performerStageProxy buffer address endpoint) := by
  have htop : buffer.uri.dropLast = [] := by
    apply List.eq_nil_of_length_eq_zero
    rw [List.length_dropLast, hone]
  refine ⟨unplaced_performerStageProxy _ _ _, rfl, hnew, ⟨fun hnil => ?_, hnamed⟩,
    fun hne => absurd htop hne, ⟨fun _ => htop, fun _ => rfl⟩, ZstEntityType.noConfusion⟩
  change buffer.uri = [] at hnil
  rw [hnil] at hone
  cases hone

theorem refines_joins {l : ZstHierarchy} {msg : ZstStageMessage} {performer : EntityBuffer}
    {address : String} {response : Signal} (represents : Represents h d)
    (hnamed : performer.uri.length = 1 ∧ "" ∉ performer.uri)
    (hrun : createClientHandler h msg performer address = .ok (l, response)) :
    Represents l (d.enter performer.uri .performer) := by
  unfold createClientHandler at hrun
  have hfind := represents.order.tree.findEntity_eq performer.uri
  rw [hfind] at hrun
  split at hrun
  · rename_i htaken
    obtain ⟨rfl, -⟩ := Prod.mk.inj (Except.ok.inj hrun)
    rw [represents.enter_taken htaken]
    exact represents
  · rename_i hfree
    obtain ⟨k, hadd, hrun⟩ := Library.bind_ok.mp hrun
    obtain ⟨rfl, -⟩ := Prod.mk.inj (Except.ok.inj hrun)
    obtain rfl := eq_arrive_of_ok ((keyed_of_order represents.order).above _)
      (unplaced_performerStageProxy _ _ _) hadd
    exact represents.arrive
      (fits_performer hnamed.1 hnamed.2 (Option.not_isSome_iff_eq_none.mp hfree))

/-- A client creates an entity below another one. -/
theorem fits_created {l : ZstHierarchy} {buffer : EntityBuffer} (order : InOrder h)
    (hkind : buffer.entityType ≠ .none) (hperformer : buffer.entityType ≠ .performer)
    (hnamed : "" ∉ buffer.uri) (hparent : (h.findEntity buffer.uri.parent).isSome)
    (hfree : h.findEntity buffer.uri = none)
    (hadd : addProxyEntity stageOverrides h (Entity.unpack buffer) = .ok l) :
    HasPlace h (Entity.unpack buffer) := by
  have keyed := keyed_of_order order
  obtain ⟨p, hp⟩ := Option.isSome_iff_exists.mp hparent
  have hcomponent : (h.entities p).isComponent = true := by
    by_contra hnot
    rw [addProxyEntity_error stageOverrides (keyed.above _) (x := Entity.unpack buffer) hp
      (Bool.eq_false_iff.mpr hnot)] at hadd
    cases hadd
  have hbelow : buffer.uri.dropLast ≠ [] := by
    intro hnil
    rw [parent_eq_dropLast hnamed, hnil, keyed.nowhere] at hp
    cases hp
  rw [order.tree.findEntity_eq] at hfree
  refine ⟨unplaced_unpack buffer, rfl, hfree, ⟨fun hnil => ?_, hnamed⟩,
    fun _ => ⟨p, ?_, hcomponent⟩, iff_of_false hperformer hbelow, hkind⟩
  · change buffer.uri = [] at hnil
    rw [hnil] at hp
    rw [show ZstURI.parent [] = [] from rfl, keyed.nowhere] at hp
    cases hp
  · rw [order.tree.findEntity_eq, parent_eq_dropLast hnamed] at hp
    exact hp

/-- The handler's answer leaves the hierarchy alone. -/
theorem answered {l : ZstHierarchy} {uri : ZstURI} {response : Signal}
    (hrun : (if (h.findEntity uri).isNone then .ok (h, Signal.errEntityNotFound)
      else .ok (h, Signal.ok) : Except Fault (ZstHierarchy × Signal)) = .ok (l, response)) :
    h = l := by
  split at hrun
  · exact (Prod.mk.inj (Except.ok.inj hrun)).1
  · exact (Prod.mk.inj (Except.ok.inj hrun)).1

theorem refines_creates {l : ZstHierarchy} {buffer : EntityBuffer} {sender : Option EntityId}
    {response : Signal} (represents : Represents h d) (hperformer : buffer.entityType ≠ .performer)
    (hnamed : "" ∉ buffer.uri) (hparent : (h.findEntity buffer.uri.parent).isSome)
    (hrun : createEntityHandler h buffer sender = .ok (l, response)) :
    Represents l (d.perform (if sender.any fun performer =>
        (h.entities performer).uri.first = buffer.uri.first then
      .enter buffer.uri buffer.entityType else .nothing)) := by
  have order := represents.order
  unfold createEntityHandler at hrun
  obtain ⟨field, hfield, hrun⟩ := Library.bind_ok.mp hrun
  obtain ⟨hkind, rfl⟩ : buffer.entityType ≠ .none ∧ buffer = field := by
    unfold getEntityField at hfield
    split at hfield
    · cases hfield
    · rename_i hkind
      exact ⟨hkind, Except.ok.inj hfield⟩
  obtain ⟨performer, hjoined, hrun⟩ := Library.bind_ok.mp hrun
  obtain ⟨first, hfirst, hrun⟩ := Library.bind_ok.mp hrun
  obtain ⟨entityFirst, hentityFirst, hrun⟩ := Library.bind_ok.mp hrun
  rw [firstSegment_ok hfirst, firstSegment_ok hentityFirst] at hrun
  rw [deref_ok hjoined, Option.any_some]
  split at hrun
  · rename_i hother
    obtain ⟨rfl, -⟩ := Prod.mk.inj (Except.ok.inj hrun)
    rw [if_neg fun hown => hother (of_decide_eq_true hown)]
    exact represents
  · rename_i hown
    rw [if_pos (decide_eq_true (not_not.mp hown))]
    change Represents l (d.enter buffer.uri buffer.entityType)
    have hbelow : buffer.uri.parent ≠ [] := by
      intro hnil
      rw [hnil, (keyed_of_order order).nowhere] at hparent
      cases hparent
    cases hcreate : h.createProxyEntity buffer with
    | none =>
      rw [hcreate] at hrun
      obtain ⟨k, hk, hrun⟩ := Library.bind_ok.mp hrun
      obtain rfl := Except.ok.inj hk
      obtain rfl := answered hrun
      unfold createProxyEntity at hcreate
      rw [order.tree.findEntity_eq] at hcreate
      split at hcreate
      · rename_i htaken
        rw [represents.enter_taken htaken]
        exact represents
      · rw [if_neg fun hboth => hbelow hboth.2] at hcreate
        cases hcreate
    | some y =>
      rw [hcreate] at hrun
      obtain ⟨k, hadd, hrun⟩ := Library.bind_ok.mp hrun
      obtain rfl := answered hrun
      obtain ⟨hfree, rfl⟩ := createProxyEntity_eq_some hcreate
      have fits := fits_created order hkind hperformer hnamed hparent hfree hadd
      obtain rfl := eq_arrive_of_ok ((keyed_of_order order).above _) (unplaced_unpack buffer) hadd
      exact represents.arrive fits

/-- One step of the stage. -/
theorem refines_step (refines : Refines s.hierarchy d) (hdisciplined : Disciplined s event)
    (hrun : step s event = .ok t) : Refines t.hierarchy (d.perform (requestOf s event)) := by
  by_cases hcalm : MovesNobody s event
  · rw [requestOf_movesNobody hcalm]
    exact refines.drain (drain_step hcalm hrun)
  obtain ⟨idle, orderly⟩ := hdisciplined.resolve_left hcalm
  have represents := refines.represents idle
  unfold requestOf
  cases hleavers : leavers s.hierarchy event with
  | cons e rest => exact refines_removes represents orderly hleavers hrun
  | nil =>
    cases event with
    | receive msg =>
      obtain ⟨l, response, hdispatch, rfl⟩ := receive_not_calm hcalm hrun
      have hnamed := orderly.named
      refine .settled (Represents.heard ?_ (.respond l msg response))
      unfold ZstStageHierarchy.dispatch at hdispatch
      cases hcontent : msg.content with
      | clientJoinRequest performer address =>
        simp only [hcontent, ArrivesInPlace] at hdispatch hnamed ⊢
        exact refines_joins represents hnamed hdispatch
      | entityCreateRequest buffer =>
        simp only [hcontent, ArrivesInPlace] at hdispatch hnamed ⊢
        exact refines_creates represents hnamed.1 hnamed.2.1 hnamed.2.2 hdispatch
      | entityUpdateRequest buffer path =>
        simp only [hcontent, ArrivesInPlace] at hnamed
      | clientLeaveRequest path reason =>
        simp only [leavers, hcontent, Option.toList_eq_nil_iff] at hdispatch hleavers
        rw [hleavers] at hdispatch
        cases hdispatch
      | entityDestroyRequest path =>
        simp only [leavers, hcontent, Option.toList_eq_nil_iff] at hdispatch hleavers ⊢
        unfold destroyEntityHandler at hdispatch
        rw [hleavers] at hdispatch
        obtain ⟨rfl, -⟩ := Prod.mk.inj (Except.ok.inj hdispatch)
        exact represents
      | _ =>
        simp only [MovesNobody, hcontent] at hcalm
        exact absurd trivial hcalm
    | heartbeatTimer => exact absurd hleavers hcalm
    | _ => exact absurd trivial hcalm

end Steps

theorem represents_opened : Represents ZstStage.opened.hierarchy .empty := by
  refine ⟨⟨registeredTree_ofList (by decide) (by decide) (by decide) (by decide) (by decide),
    atRest_ofList (by decide), ⟨rfl, rfl⟩, rfl, fun d hd => ?_, fun d => ?_, fun d hd => ?_,
    fun d hd => ?_, rfl, fun _ _ => rfl⟩, fun _ => rfl⟩
  · cases hd
  · exact iff_of_false (fun hd => by cases hd) List.not_mem_nil
  · cases hd
  · cases hd

theorem refines_run {events : List StageEvent} {s : ZstSession}
    (hdisciplined : Library.Along ZstStage.step Disciplined ZstStage.opened events)
    (hrun : Library.run ZstStage.step ZstStage.opened events = .ok s) :
    Refines s.hierarchy
      ((Library.requests ZstStage.step requestOf ZstStage.opened events).foldl
        Library.Directory.perform .empty) :=
  Library.run_refines (fun (s : ZstSession) d => Refines s.hierarchy d)
    (fun _ _ _ _ refines hdisciplined hstep => refines_step refines hdisciplined hstep)
    (.settled represents_opened) hdisciplined hrun

/-- Whenever nothing is left to do the stage is what the requests so far make of
the empty directory. -/
theorem run_represents {events : List StageEvent} {s : ZstSession}
    (hdisciplined : Library.Along ZstStage.step Disciplined ZstStage.opened events)
    (hrun : Library.run ZstStage.step ZstStage.opened events = .ok s) (idle : Idle s.hierarchy) :
    Represents s.hierarchy
      ((Library.requests ZstStage.step requestOf ZstStage.opened events).foldl
        Library.Directory.perform .empty) :=
  (refines_run hdisciplined hrun).represents idle

/-! ## A patch -/

theorem parts_of_getChildEntities (order : InOrder h) (he : h.InTree e)
    (hfree : ∀ d ∈ h.getChildEntities e, ∀ y ∈ h.lookup (h.entities d).uri.last,
      y ∈ h.getChildEntities e)
    (hnames : ∀ x ∈ h.getChildEntities e, ∀ d ∈ h.getChildEntities x,
      d ≠ x → (h.entities d).uri.last ≠ (h.entities x).uri.last) : Parts h e := by
  have hmem : ∀ d, d ∈ h.getChildEntities e ↔ h.Below e d := fun d =>
    order.tree.mem_getChildEntities order.rest.allocated he
  refine ⟨Or.inr fun d hd y hy => (hmem y).mp (hfree d ((hmem d).mpr hd) y hy), fun _ => ?_⟩
  exact distinct_of_getChildEntities order.tree order.rest.allocated he hnames

/-- A client makes an oscillator with an output. -/
def patch : List StageEvent :=
  [joining "ada" 1, .receive (Requests.creating .component ["ada", "osc"]),
    .receive (Requests.creating .plug ["ada", "osc", "out"])]

/-- The client removes the oscillator. -/
def unpatching : StageEvent :=
  .receive { content := .entityDestroyRequest ["ada", "osc"], id := 8, originEndpointUUID := 1 }

/-- The event loop has its way. -/
def tidying : List StageEvent :=
  [.synchronisableEvent, .hierarchyEvent, .synchronisableEvent, .cleanup, .cleanup]

/-- The session after some events. -/
def after (events : List StageEvent) : ZstSession :=
  (Library.run ZstStage.step ZstStage.opened events).toOption.getD ZstStage.opened

theorem run_after (events : List StageEvent)
    (hok : (Library.run ZstStage.step ZstStage.opened events).isOk = true) :
    Library.run ZstStage.step ZstStage.opened events = .ok (after events) := by
  unfold after
  cases hrun : Library.run ZstStage.step ZstStage.opened events with
  | error fault =>
    rw [hrun] at hok
    cases hok
  | ok s => rfl

/-- Nothing is left to do, and somebody with a name comes. -/
theorem disciplined_of_named {s : ZstSession} {event : StageEvent} (idle : Idle s.hierarchy)
    (named : ArrivesInPlace s event) (hnone : leavers s.hierarchy event = []) :
    Disciplined s event := by
  refine Or.inr ⟨idle, named, by rw [hnone]; exact Nat.zero_le 1, fun e he => ?_⟩
  rw [hnone] at he
  exact absurd he List.not_mem_nil

theorem along_patch : Library.Along ZstStage.step Disciplined ZstStage.opened patch := by
  refine ⟨disciplined_of_named (by decide) ⟨by decide, by decide⟩ rfl, fun s hs => ?_⟩
  obtain rfl := Except.ok.inj hs
  refine ⟨disciplined_of_named (by decide) ⟨by decide, by decide, by decide⟩ rfl, fun s hs => ?_⟩
  obtain rfl := Except.ok.inj hs
  exact ⟨disciplined_of_named (by decide) ⟨by decide, by decide, by decide⟩ rfl, fun _ _ => trivial⟩

/-- The oscillator can be removed. -/
theorem parts_patch (order : InOrder (after patch).hierarchy) : Parts (after patch).hierarchy 1 :=
  parts_of_getChildEntities order (by decide +kernel) (by decide +kernel) (by decide +kernel)

/-- The performer is left. -/
theorem run_represents_patch :
    Library.run ZstStage.step ZstStage.opened (patch ++ unpatching :: tidying) =
        .ok (after (patch ++ unpatching :: tidying)) ∧
      Represents (after (patch ++ unpatching :: tidying)).hierarchy
        ((((Library.Directory.empty.enter ["ada"] .performer).enter ["ada", "osc"]
          .component).enter ["ada", "osc", "out"] .plug).remove ["ada", "osc"]) := by
  have hpatch := run_after patch (by decide +kernel)
  have idle : Idle (after patch).hierarchy := by decide +kernel
  have hleavers : leavers (after patch).hierarchy unpatching = [1] := by decide +kernel
  have order := (run_represents along_patch hpatch idle).order
  have hall : Library.Along ZstStage.step Disciplined ZstStage.opened
      (patch ++ unpatching :: tidying) := by
    refine Library.along_append.mpr ⟨along_patch, fun v hv => ?_⟩
    obtain rfl := Except.ok.inj (hpatch.symm.trans hv)
    refine ⟨Or.inr ⟨idle, trivial, by rw [hleavers]; exact le_rfl, fun e he => ?_⟩, fun t _ => ?_⟩
    · rw [hleavers] at he
      obtain rfl := List.mem_singleton.mp he
      exact parts_patch order
    · exact ⟨Or.inl trivial, fun _ _ => ⟨Or.inl trivial, fun _ _ => ⟨Or.inl trivial, fun _ _ =>
        ⟨Or.inl trivial, fun _ _ => ⟨Or.inl trivial, fun _ _ => trivial⟩⟩⟩⟩⟩
  have hrun := run_after (patch ++ unpatching :: tidying) (by decide +kernel)
  have hrequests : Library.requests ZstStage.step requestOf ZstStage.opened
      (patch ++ unpatching :: tidying) =
        [.enter ["ada"] .performer, .enter ["ada", "osc"] .component,
          .enter ["ada", "osc", "out"] .plug, .remove ["ada", "osc"], .nothing, .nothing, .nothing,
          .nothing, .nothing] := by
    decide +kernel
  have represents := run_represents hall hrun (by decide +kernel)
  rw [hrequests] at represents
  exact ⟨hrun, represents⟩

end Showtime.Directories
