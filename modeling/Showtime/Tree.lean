import Mathlib.Logic.Relation
import Mathlib.Order.Interval.Finset.Nat
import Showtime.Client
import Showtime.Stage
/-!
# Registered trees

What a hierarchy looks like between two operations: every entity is found at
its URI, below the component that has it as a child, and nothing but
activations is queued.
-/

namespace Showtime
namespace ZstHierarchy

/-! ## One change of a URI -/

/-- `update_URI` writes nothing into entities but a factory's creatables. -/
theorem updateURI_entities (h : ZstHierarchy) (d e : EntityId) (path : ZstURI) :
    ∃ creatables, (h.updateURI d path).entities e = { h.entities e with creatables } := by
  unfold updateURI
  simp only
  have hlookup : (if (h.entities d).registered then h.updateEntityInLookup d path else h).entities =
      h.entities := by
    split <;> rfl
  generalize (if (h.entities d).registered then h.updateEntityInLookup d path else h) = k
    at hlookup ⊢
  split
  · rw [modify_entities, hlookup]
    split
    · rename_i hed
      exact ⟨_, by rw [hed]; rfl⟩
    · exact ⟨_, rfl⟩
  · rw [hlookup]
    exact ⟨_, rfl⟩

theorem updateURI_other (h : ZstHierarchy) (path : ZstURI) {d e : EntityId} (hd : d ≠ e) :
    (h.updateURI e path).entities d = h.entities d := by
  have hlookup : (if (h.entities e).registered then h.updateEntityInLookup e path else h).entities =
      h.entities := by
    split <;> rfl
  unfold updateURI
  dsimp only
  generalize (if (h.entities e).registered then h.updateEntityInLookup e path else h) = k
    at hlookup ⊢
  split
  · rw [modify_entities_of_ne k _ hd, hlookup]
  · rw [hlookup]

theorem updateURI_uri (h : ZstHierarchy) (d e : EntityId) (path : ZstURI) :
    ((h.updateURI d path).entities e).uri = (h.entities e).uri := by
  obtain ⟨creatables, he⟩ := updateURI_entities h d e path
  rw [he]

theorem updateURI_lookup (h : ZstHierarchy) (d : EntityId) (path : ZstURI)
    (hregistered : (h.entities d).registered = true) :
    (h.updateURI d path).lookup =
      Function.update (Function.update h.lookup path none) (h.entities d).uri (some d) := by
  unfold updateURI
  simp only [hregistered, if_true]
  split <;> rfl

theorem updateURI_root (h : ZstHierarchy) (d : EntityId) (path : ZstURI) :
    (h.updateURI d path).root = h.root := by
  unfold updateURI
  simp only
  split <;> split <;> rfl

theorem updateURI_cleanupOps (h : ZstHierarchy) (d : EntityId) (path : ZstURI) :
    (h.updateURI d path).cleanupOps = h.cleanupOps := by
  unfold updateURI
  simp only
  split <;> split <;> rfl

/-- The URI that an entity has after `set_parent` of one entity. -/
theorem setParentBase_uri (h : ZstHierarchy) (d e : EntityId) (parent : Option EntityId) :
    ((h.setParentBase d parent).entities e).uri =
      if e = d then reparentedURI (h.entities d).uri (h.addressOf parent)
      else (h.entities e).uri := by
  obtain ⟨creatables, he⟩ : ∃ creatables, (h.setParentBase d parent).entities e =
      { (h.modify d fun x =>
          { x with
            parentAddress := h.addressOf parent
            uri := reparentedURI x.uri (h.addressOf parent) }).entities e with creatables } :=
    updateURI_entities _ d e _
  rw [he, modify_entities]
  split <;> rfl

/-- A listed entity is found at its URI. -/
theorem ofList_lookup {entities : List Entity} {root : Option EntityId} {q : ZstURI}
    {e : EntityId} (he : (ofList entities root).lookup q = some e) :
    e < entities.length ∧ ((ofList entities root).entities e).uri = q := by
  obtain ⟨hlt, huri, -⟩ := List.findIdx?_eq_some_iff_getElem.mp he
  refine ⟨hlt, ?_⟩
  simpa [ofList, hlt] using huri

theorem ofList_entities {entities : List Entity} {root : Option EntityId} {e : EntityId}
    {x : Entity} (hx : entities[e]? = some x) : (ofList entities root).entities e = x := by
  simp [ofList, List.getD_eq_getElem?_getD, hx]

theorem ofList_lookup_iff {entities : List Entity} {root : Option EntityId}
    (hnodup : (entities.map Entity.uri).Nodup) {q : ZstURI} {e : EntityId} :
    (ofList entities root).lookup q = some e ↔ ∃ x, entities[e]? = some x ∧ x.uri = q := by
  constructor
  · intro he
    obtain ⟨hlt, huri⟩ := ofList_lookup he
    have hx : entities[e]? = some entities[e] := List.getElem?_eq_getElem hlt
    rw [ofList_entities hx] at huri
    exact ⟨_, hx, huri⟩
  · rintro ⟨x, hx, rfl⟩
    obtain ⟨hlt, rfl⟩ := List.getElem?_eq_some_iff.mp hx
    refine List.findIdx?_eq_some_iff_getElem.mpr ⟨hlt, by simp, fun j hj => ?_⟩
    have hjlt : j < (entities.map Entity.uri).length := by
      rw [List.length_map]
      exact Nat.lt_trans hj hlt
    have hne := (List.nodup_iff_pairwise_ne.mp hnodup)
    have := List.pairwise_iff_getElem.mp hne j e hjlt (by rw [List.length_map]; exact hlt) hj
    simpa using this

/-! ## A new object -/

@[simp] theorem alloc_self (h : ZstHierarchy) (x : Entity) :
    (h.alloc x).1.entities h.next = x := by
  simp [alloc]

theorem alloc_of_ne {h : ZstHierarchy} (x : Entity) {e : EntityId} (he : e ≠ h.next) :
    (h.alloc x).1.entities e = h.entities e := by
  simp [alloc, he]

/-! ## Trees -/

/-- The entity is in the tree: the lookup finds it at its URI. -/
def InTree (h : ZstHierarchy) (e : EntityId) : Prop :=
  h.lookup (h.entities e).uri = some e

instance (h : ZstHierarchy) (e : EntityId) : Decidable (h.InTree e) :=
  inferInstanceAs (Decidable (h.lookup (h.entities e).uri = some e))

/-- The URIs, the parent addresses, the child sets and the lookup agree. -/
structure RegisteredTree (h : ZstHierarchy) : Prop where
  keyed : ∀ q e, h.lookup q = some e →
    (h.entities e).uri = q ∧ h.live e = true ∧ (h.entities e).registered = true
  segments : ∀ e, h.InTree e → (h.entities e).uri ≠ [] ∧ "" ∉ (h.entities e).uri
  root : ∀ r, h.root = some r → h.InTree r ∧ (h.entities r).parentAddress = []
  top : ∀ e, h.InTree e → (h.entities e).parentAddress = [] → (h.entities e).uri.length = 1
  parent : ∀ e, h.InTree e → (h.entities e).parentAddress ≠ [] →
    ∃ p, h.lookup (h.entities e).parentAddress = some p ∧ (h.entities p).isComponent = true ∧
      (h.entities e).uri ∈ (h.entities p).children
  child : ∀ p, h.InTree p → ∀ q ∈ (h.entities p).children,
    ∃ c s, h.lookup q = some c ∧ (h.entities c).parentAddress = (h.entities p).uri ∧
      q = (h.entities p).uri ++ [s]
  nodup : ∀ p, h.InTree p → (h.entities p).children.Nodup

/-- The relation between a component and the entities it finds as its children. -/
def HasChild (h : ZstHierarchy) (p c : EntityId) : Prop :=
  ∃ q ∈ (h.entities p).children, h.lookup q = some c

/-- The entity is the first one or is found below it. -/
def Below (h : ZstHierarchy) : EntityId → EntityId → Prop :=
  Relation.ReflTransGen h.HasChild

/-- Nothing but activations is queued, and nothing waits for the reaper. -/
structure NoRemovalQueued (h : ZstHierarchy) : Prop where
  cleanupOps : h.cleanupOps = []
  events : ∀ e, ∀ event ∈ (h.entities e).synchronisableEvents,
    event = .activated ∨ event = .updated

theorem quiet_ofList {entities : List Entity} {root : Option EntityId}
    (hevents : ∀ x ∈ entities, x.synchronisableEvents = []) : NoRemovalQueued
    (ofList entities root) := by
  refine ⟨rfl, fun e event hevent => ?_⟩
  have hnone : ((ofList entities root).entities e).synchronisableEvents = [] := by
    by_cases he : e < entities.length
    · have hmem : entities[e] ∈ entities := List.getElem_mem he
      simpa [ofList, he] using hevents _ hmem
    · simp [ofList, he]
  rw [hnone] at hevent
  cases hevent

theorem quiet_alloc {h : ZstHierarchy} {x : Entity} (hquiet : NoRemovalQueued h)
    (hevents : x.synchronisableEvents = []) :
    NoRemovalQueued (h.alloc x).1 := by
  refine ⟨hquiet.cleanupOps, fun e event hevent => ?_⟩
  by_cases he : e = h.next
  · rw [he, alloc_self, hevents] at hevent
    cases hevent
  · rw [alloc_of_ne x he] at hevent
    exact hquiet.events e event hevent

/-- A list of entities is a registered tree if parents and children agree. -/
theorem registeredTree_ofList {entities : List Entity} {root : Option EntityId}
    (hnodup : (entities.map Entity.uri).Nodup)
    (hentity : ∀ x ∈ entities, x.registered = true ∧ x.uri ≠ [] ∧ "" ∉ x.uri ∧
      (x.parentAddress = [] → x.uri.length = 1) ∧ x.children.Nodup)
    (hroot : ∀ r ∈ root, ∃ x ∈ entities[r]?, x.parentAddress = [])
    (hparent : ∀ x ∈ entities, x.parentAddress ≠ [] → ∃ p ∈ entities,
      p.uri = x.parentAddress ∧ p.isComponent = true ∧ x.uri ∈ p.children)
    (hchild : ∀ p ∈ entities, ∀ q ∈ p.children, ∃ c ∈ entities,
      c.uri = q ∧ c.parentAddress = p.uri ∧ ∃ s ∈ c.uri.getLast?, q = p.uri ++ [s]) :
    RegisteredTree (ofList entities root) := by
  have hfind : ∀ x ∈ entities, ∃ e, (ofList entities root).lookup x.uri = some e ∧
      (ofList entities root).entities e = x := by
    intro x hx
    obtain ⟨e, he⟩ := List.mem_iff_getElem?.mp hx
    exact ⟨e, (ofList_lookup_iff hnodup).mpr ⟨x, he, rfl⟩, ofList_entities he⟩
  have hmem : ∀ q e, (ofList entities root).lookup q = some e →
      (ofList entities root).entities e ∈ entities := by
    intro q e he
    obtain ⟨x, hx, -⟩ := (ofList_lookup_iff hnodup).mp he
    rw [ofList_entities hx]
    exact List.mem_of_getElem? hx
  refine ⟨fun q e he => ?_, fun e he => ?_, fun r hr => ?_, fun e he => ?_, fun e he haddress => ?_,
    fun p hp q hq => ?_, fun p hp => ?_⟩
  · obtain ⟨hlt, huri⟩ := ofList_lookup he
    exact ⟨huri, by simpa [ofList] using hlt, (hentity _ (hmem q e he)).1⟩
  · obtain ⟨-, hne, hsegment, -⟩ := hentity _ (hmem _ e he)
    exact ⟨hne, hsegment⟩
  · obtain ⟨x, hx, haddress⟩ := hroot r hr
    unfold InTree
    rw [ofList_entities hx]
    exact ⟨(ofList_lookup_iff hnodup).mpr ⟨x, hx, rfl⟩, haddress⟩
  · exact (hentity _ (hmem _ e he)).2.2.2.1
  · obtain ⟨p, hp, huri, hcomponent, hchildren⟩ := hparent _ (hmem _ e he) haddress
    obtain ⟨i, hlookup, hentities⟩ := hfind p hp
    rw [huri] at hlookup
    exact ⟨i, hlookup, by rw [hentities]; exact hcomponent, by rw [hentities]; exact hchildren⟩
  · obtain ⟨c, hc, rfl, haddress, s, -, huri⟩ := hchild _ (hmem _ p hp) q hq
    obtain ⟨i, hlookup, hentities⟩ := hfind c hc
    exact ⟨i, s, hlookup, by rw [hentities]; exact haddress, huri⟩
  · exact (hentity _ (hmem _ p hp)).2.2.2.2

theorem getChildEntities_eq_cons {h : ZstHierarchy} {root : EntityId} (hroot : root < h.next) :
    ∃ n, h.getChildEntities root = root :: (h.childEntities root).flatMap (h.descendants n) := by
  obtain ⟨n, hn⟩ := Nat.exists_eq_add_one.mpr (Nat.zero_lt_of_lt hroot)
  refine ⟨n, ?_⟩
  unfold getChildEntities
  rw [hn]
  rfl

namespace RegisteredTree

variable {h : ZstHierarchy} (tree : RegisteredTree h)

include tree

theorem inTree_of_lookup {q : ZstURI} {e : EntityId} (hlookup : h.lookup q = some e) :
    h.InTree e := by
  unfold InTree
  rw [(tree.keyed q e hlookup).1]
  exact hlookup

/-- Only the places of those who are found matter. -/
theorem transfer {k : ZstHierarchy} (hroot : k.root = h.root) (hlookup : k.lookup = h.lookup)
    (hlive : ∀ e, h.InTree e → k.live e = h.live e)
    (huri : ∀ e, h.InTree e → (k.entities e).uri = (h.entities e).uri)
    (haddress : ∀ e, h.InTree e → (k.entities e).parentAddress = (h.entities e).parentAddress)
    (hchildren : ∀ e, h.InTree e → (k.entities e).children = (h.entities e).children)
    (hregistered : ∀ e, h.InTree e → (k.entities e).registered = (h.entities e).registered)
    (hcomponent : ∀ e, h.InTree e → (k.entities e).isComponent = (h.entities e).isComponent) :
    RegisteredTree k := by
  have hin : ∀ e, k.InTree e → h.InTree e := fun e he => by
    unfold InTree at he
    rw [hlookup] at he
    exact tree.inTree_of_lookup he
  refine ⟨fun q e he => ?_, fun e he => ?_, fun r hr => ?_, fun e he => ?_, fun e he => ?_,
    fun p hp => ?_, fun p hp => ?_⟩
  · rw [hlookup] at he
    have htree := tree.inTree_of_lookup he
    rw [huri e htree, hlive e htree, hregistered e htree]
    exact tree.keyed q e he
  · rw [huri e (hin e he)]
    exact tree.segments e (hin e he)
  · rw [hroot] at hr
    obtain ⟨htree, hnil⟩ := tree.root r hr
    unfold InTree
    rw [hlookup, huri r htree, haddress r htree]
    exact ⟨htree, hnil⟩
  · rw [haddress e (hin e he), huri e (hin e he)]
    exact tree.top e (hin e he)
  · rw [haddress e (hin e he), huri e (hin e he), hlookup]
    intro hne
    obtain ⟨p, hp, hkind, hlisted⟩ := tree.parent e (hin e he) hne
    have hpTree := tree.inTree_of_lookup hp
    exact ⟨p, hp, (hcomponent p hpTree).trans hkind, (hchildren p hpTree).symm ▸ hlisted⟩
  · rw [hchildren p (hin p hp), huri p (hin p hp), hlookup]
    intro q hq
    obtain ⟨c, s, hc, hparent, huri'⟩ := tree.child p (hin p hp) q hq
    exact ⟨c, s, hc, (haddress c (tree.inTree_of_lookup hc)).trans hparent, huri'⟩
  · rw [hchildren p (hin p hp)]
    exact tree.nodup p (hin p hp)

/-- A new object that nothing refers to leaves the tree as it is. -/
theorem alloc (hallocated : ∀ q e, h.lookup q = some e → e < h.next) (x : Entity) :
    RegisteredTree (h.alloc x).1 := by
  have hne : ∀ e, h.InTree e → e ≠ h.next := fun e he => (hallocated _ e he).ne
  have hsame : ∀ e, h.InTree e → (h.alloc x).1.entities e = h.entities e :=
    fun e he => alloc_of_ne x (hne e he)
  refine tree.transfer rfl rfl (fun e he => ?_) (fun e he => congrArg Entity.uri (hsame e he))
    (fun e he => congrArg Entity.parentAddress (hsame e he))
    (fun e he => congrArg Entity.children (hsame e he))
    (fun e he => congrArg Entity.registered (hsame e he))
    (fun e he => congrArg Entity.isComponent (hsame e he))
  simp [ZstHierarchy.alloc, hne e he]

theorem findEntity_eq (q : ZstURI) : h.findEntity q = h.lookup q := by
  unfold findEntity
  cases hroot : h.root with
  | none => rfl
  | some r =>
    simp only
    split
    · rename_i huri
      rw [← huri]
      exact (tree.root r hroot).1.symm
    · rfl

theorem registered {e : EntityId} (he : h.InTree e) : (h.entities e).registered = true :=
  (tree.keyed _ e he).2.2

theorem parent_eq {e p : EntityId} (he : h.InTree e) (hp : h.parent e = some p) :
    h.lookup (h.entities e).parentAddress = some p ∧ (h.entities p).isComponent = true ∧
      (h.entities e).uri ∈ (h.entities p).children := by
  unfold ZstHierarchy.parent at hp
  simp only [tree.registered he, if_true, tree.findEntity_eq] at hp
  split at hp
  · cases hp
  · rename_i haddress
    obtain ⟨p', hlookup, hcomponent, hmem⟩ := tree.parent e he haddress
    rw [hlookup] at hp
    cases hp
    exact ⟨hlookup, hcomponent, hmem⟩

/-- A child's URI is its parent's with one more segment. -/
theorem uri_of_hasChild {p c : EntityId} (hp : h.InTree p) (hc : h.HasChild p c) :
    ∃ s, (h.entities c).uri = (h.entities p).uri ++ [s] := by
  obtain ⟨q, hq, hlookup⟩ := hc
  obtain ⟨c', s, hlookup', -, rfl⟩ := tree.child p hp q hq
  exact ⟨s, (tree.keyed _ c hlookup).1⟩

/-- The children that a component finds are its children. -/
theorem hasChild_of_mem {p c : EntityId} (hc : c ∈ h.childEntities p) : h.HasChild p c := by
  unfold childEntities at hc
  split at hc
  · obtain ⟨q, hq, hfind⟩ := List.mem_filterMap.mp hc
    unfold getChildByURI at hfind
    split at hfind
    · rw [tree.findEntity_eq] at hfind
      exact ⟨q, hq, hfind⟩
    · cases hfind
  · simp at hc

theorem inTree_of_below {e d : EntityId} (he : h.InTree e) (hbelow : h.Below e d) :
    h.InTree d := by
  induction hbelow with
  | refl => exact he
  | tail _ hchild =>
    obtain ⟨q, -, hlookup⟩ := hchild
    exact tree.inTree_of_lookup hlookup

/-- What is below an entity has the entity's URI as a prefix of its own. -/
theorem prefix_of_below {e d : EntityId} (he : h.InTree e) (hbelow : h.Below e d) :
    (h.entities e).uri <+: (h.entities d).uri := by
  induction hbelow with
  | refl => exact List.prefix_refl _
  | tail hbelow hchild ih =>
    obtain ⟨s, huri⟩ := tree.uri_of_hasChild (tree.inTree_of_below he hbelow) hchild
    rw [huri]
    exact ih.trans (List.prefix_append _ _)

/-! ## What `get_child_entities` enumerates -/

/-- A component that is found finds its children. -/
theorem mem_childEntities {p c : EntityId} (hp : h.InTree p) (hc : h.HasChild p c) :
    c ∈ h.childEntities p := by
  obtain ⟨q, hq, hlookup⟩ := hc
  obtain ⟨c', s, hlookup', haddress, -⟩ := tree.child p hp q hq
  have hcc : c' = c := Option.some.inj (hlookup'.symm.trans hlookup)
  subst hcc
  have hne : (h.entities c').parentAddress ≠ [] := by
    rw [haddress]
    exact (tree.segments p hp).1
  obtain ⟨p', hparent, hcomponent, -⟩ :=
    tree.parent c' (tree.inTree_of_lookup hlookup) hne
  have hpp : p' = p := by
    rw [haddress] at hparent
    exact Option.some.inj (hparent.symm.trans hp)
  subst hpp
  unfold childEntities
  rw [if_pos hcomponent]
  refine List.mem_filterMap.mpr ⟨q, hq, ?_⟩
  unfold getChildByURI
  rw [if_pos (tree.registered hp), tree.findEntity_eq]
  exact hlookup

theorem below_of_mem_descendants {n : Nat} {e d : EntityId} (hd : d ∈ h.descendants n e) :
    h.Below e d := by
  induction n generalizing e with
  | zero =>
    rw [List.mem_singleton.mp hd]
    exact .refl
  | succ n ih =>
    rcases List.mem_cons.mp hd with rfl | hd
    · exact .refl
    · obtain ⟨c, hc, hdc⟩ := List.mem_flatMap.mp hd
      exact Relation.ReflTransGen.head (tree.hasChild_of_mem hc) (ih hdc)

theorem mem_descendants {e d : EntityId} (he : h.InTree e) (hbelow : h.Below e d) {n : Nat}
    (hn : (h.entities d).uri.length ≤ (h.entities e).uri.length + n) : d ∈ h.descendants n e := by
  induction hbelow using Relation.ReflTransGen.head_induction_on generalizing n with
  | refl => cases n <;> simp [descendants]
  | head hchild hbelow ih =>
    rename_i e c
    obtain ⟨s, huri⟩ := tree.uri_of_hasChild he hchild
    have hc : h.InTree c := tree.inTree_of_below he (.single hchild)
    have hle := (tree.prefix_of_below hc hbelow).length_le
    rw [huri, List.length_append, List.length_singleton] at hle
    cases n with
    | zero => omega
    | succ n =>
      refine List.mem_cons_of_mem _
        (List.mem_flatMap.mpr ⟨c, tree.mem_childEntities he hchild, ih hc ?_⟩)
      rw [huri, List.length_append, List.length_singleton]
      omega

/-- Every length between those of the two URIs is that of an entity in between. -/
theorem exists_of_length {e d : EntityId} (he : h.InTree e) (hbelow : h.Below e d) {n : Nat}
    (hle : (h.entities e).uri.length ≤ n) (hn : n ≤ (h.entities d).uri.length) :
    ∃ c, h.InTree c ∧ (h.entities c).uri.length = n := by
  induction hbelow with
  | refl => exact ⟨e, he, le_antisymm hle hn⟩
  | tail hbelow hchild ih =>
    rename_i p c
    have hp : h.InTree p := tree.inTree_of_below he hbelow
    obtain ⟨s, huri⟩ := tree.uri_of_hasChild hp hchild
    rcases Nat.lt_or_ge (h.entities p).uri.length n with hlt | hge
    · refine ⟨c, tree.inTree_of_below hp (.single hchild), ?_⟩
      rw [huri, List.length_append, List.length_singleton] at hn ⊢
      omega
    · exact ih hge

/-- No tree is deeper than the heap is large. -/
theorem length_le_of_below (hnext : ∀ e, h.InTree e → e < h.next) {e d : EntityId}
    (he : h.InTree e) (hbelow : h.Below e d) :
    (h.entities d).uri.length ≤ (h.entities e).uri.length + h.next := by
  have hsub : Finset.Icc (h.entities e).uri.length (h.entities d).uri.length ⊆
      (Finset.range h.next).image fun c => (h.entities c).uri.length := by
    intro n hn
    obtain ⟨hle, hn⟩ := Finset.mem_Icc.mp hn
    obtain ⟨c, hc, rfl⟩ := tree.exists_of_length he hbelow hle hn
    exact Finset.mem_image_of_mem _ (Finset.mem_range.mpr (hnext c hc))
  have hcard := (Finset.card_le_card hsub).trans Finset.card_image_le
  rw [Nat.card_Icc, Finset.card_range] at hcard
  omega

/-- `get_child_entities(bundle, true, true)` lists what is below an entity. -/
theorem mem_getChildEntities (hnext : ∀ e, h.InTree e → e < h.next) {e d : EntityId}
    (he : h.InTree e) : d ∈ h.getChildEntities e ↔ h.Below e d :=
  ⟨tree.below_of_mem_descendants,
    fun hbelow => tree.mem_descendants he hbelow (tree.length_le_of_below hnext he hbelow)⟩

/-- An entity below another one has a parent. -/
theorem address_of_below {root d : EntityId} (hroot : h.InTree root) (hd : h.Below root d)
    (hne : d ≠ root) : (h.entities d).parentAddress ≠ [] := by
  rcases Relation.ReflTransGen.cases_tail hd with heq | ⟨p, hp, q, hq, hlookup⟩
  · exact absurd heq hne
  · have hpTree := tree.inTree_of_below hroot hp
    obtain ⟨c, s, hlookup', haddress, -⟩ := tree.child p hpTree q hq
    obtain rfl : c = d := Option.some.inj (hlookup'.symm.trans hlookup)
    rw [haddress]
    exact (tree.segments p hpTree).1

/-- What is below a child is not the parent. -/
theorem ne_of_below_child {root c d : EntityId} (hroot : h.InTree root) (hc : h.HasChild root c)
    (hd : h.Below c d) : d ≠ root := by
  rintro rfl
  obtain ⟨s, huri⟩ := tree.uri_of_hasChild hroot hc
  have hle := (tree.prefix_of_below (tree.inTree_of_below hroot (.single hc)) hd).length_le
  rw [huri, List.length_append, List.length_singleton] at hle
  omega

/-- Only a child itself has it below, but for the parent. -/
theorem eq_of_child_below {root c e : EntityId} (hroot : h.InTree root) (hc : h.HasChild root c)
    (he : h.Below root e) (hne : e ≠ root) (hce : h.Below e c) : e = c := by
  have hcTree := tree.inTree_of_below hroot (.single hc)
  have heTree := tree.inTree_of_below hroot he
  obtain ⟨s, huri⟩ := tree.uri_of_hasChild hroot hc
  have hprefix := tree.prefix_of_below heTree hce
  rcases Relation.ReflTransGen.cases_head he with heq | ⟨b, hb, hbe⟩
  · exact absurd heq.symm hne
  · obtain ⟨s', huri'⟩ := tree.uri_of_hasChild hroot hb
    have hle := (tree.prefix_of_below (tree.inTree_of_below hroot (.single hb)) hbe).length_le
    have hsame : (h.entities e).uri = (h.entities c).uri := by
      refine hprefix.eq_of_length_le ?_
      rw [huri', List.length_append, List.length_singleton] at hle
      rw [huri, List.length_append, List.length_singleton]
      omega
    unfold InTree at heTree hcTree
    rw [hsame] at heTree
    exact Option.some.inj (heTree.symm.trans hcTree)

/-- What `get_child_entities(bundle, false, true)` lists. -/
theorem mem_drop_one (hnext : ∀ e, h.InTree e → e < h.next) {root d : EntityId}
    (hroot : h.InTree root) : d ∈ (h.getChildEntities root).drop 1 ↔ h.Below root d ∧ d ≠ root := by
  obtain ⟨n, hcons⟩ := getChildEntities_eq_cons (hnext root hroot)
  rw [← tree.mem_getChildEntities hnext hroot, hcons, List.drop_one, List.tail_cons,
    List.mem_cons]
  constructor
  · intro hd
    refine ⟨Or.inr hd, ?_⟩
    obtain ⟨c, hc, hdc⟩ := List.mem_flatMap.mp hd
    exact tree.ne_of_below_child hroot (tree.hasChild_of_mem hc)
      (tree.below_of_mem_descendants hdc)
  · rintro ⟨hd, hne⟩
    exact hd.resolve_left hne

/-- Two children of a component have nothing below both of them. -/
theorem eq_of_below_both {root c c' d : EntityId} (hroot : h.InTree root) (hc : h.HasChild root c)
    (hc' : h.HasChild root c') (hd : h.Below c d) (hd' : h.Below c' d) : c = c' := by
  have hcTree := tree.inTree_of_below hroot (.single hc)
  have hcTree' := tree.inTree_of_below hroot (.single hc')
  obtain ⟨s, huri⟩ := tree.uri_of_hasChild hroot hc
  obtain ⟨s', huri'⟩ := tree.uri_of_hasChild hroot hc'
  have hsame : (h.entities c).uri = (h.entities c').uri := by
    refine (List.prefix_of_prefix_length_le (tree.prefix_of_below hcTree hd)
      (tree.prefix_of_below hcTree' hd') ?_).eq_of_length_le ?_
    · rw [huri, huri', List.length_append, List.length_append]
      exact le_rfl
    · rw [huri, huri', List.length_append, List.length_append]
      exact le_rfl
  unfold InTree at hcTree hcTree'
  rw [hsame] at hcTree
  exact Option.some.inj (hcTree.symm.trans hcTree')

theorem nodup_childEntities {p : EntityId} (hp : h.InTree p) : (h.childEntities p).Nodup := by
  unfold childEntities
  split
  · refine List.Nodup.filterMap (fun q q' c hq hq' => ?_) (tree.nodup p hp)
    have hkeyed : ∀ q, c ∈ h.getChildByURI p q → (h.entities c).uri = q := by
      intro q hq
      unfold getChildByURI at hq
      split at hq
      · rw [tree.findEntity_eq] at hq
        exact (tree.keyed q c hq).1
      · cases hq
    exact (hkeyed q hq).symm.trans (hkeyed q' hq')
  · exact List.nodup_nil

theorem nodup_descendants (n : Nat) {e : EntityId} (he : h.InTree e) :
    (h.descendants n e).Nodup := by
  induction n generalizing e with
  | zero => exact List.nodup_singleton e
  | succ n ih =>
    have hchild : ∀ c ∈ h.childEntities e, h.HasChild e c := fun c hc => tree.hasChild_of_mem hc
    refine List.nodup_cons.mpr ⟨fun hmem => ?_, List.nodup_flatMap.mpr ⟨fun c hc => ?_, ?_⟩⟩
    · obtain ⟨c, hc, hec⟩ := List.mem_flatMap.mp hmem
      exact tree.ne_of_below_child he (hchild c hc) (tree.below_of_mem_descendants hec) rfl
    · exact ih (tree.inTree_of_below he (.single (hchild c hc)))
    · refine (tree.nodup_childEntities he).imp_of_mem fun hc hc' hne d hd hd' => hne ?_
      exact tree.eq_of_below_both he (hchild _ hc) (hchild _ hc')
        (tree.below_of_mem_descendants hd) (tree.below_of_mem_descendants hd')

/-- `get_child_entities` lists nobody twice. -/
theorem nodup_getChildEntities {e : EntityId} (he : h.InTree e) : (h.getChildEntities e).Nodup :=
  tree.nodup_descendants h.next he

end RegisteredTree
end ZstHierarchy
end Showtime
