import Showtime.CableSets
import Showtime.Tree
/-!
# Bundles

Entities and cables are collected into bundles that are handed down the tree.
Every component asks its children by their paths, and asks the hierarchy for what
is at a path. A bound on the depth of the recursion stands for the stack: without
a result the bound was too small.
-/

namespace Showtime.Bundles

open ZstHierarchy

/-! ## Collecting -/

/-- `ZstEntityBase::get_child_entities`. -/
def addEntity (h : ZstHierarchy) (bundle : List EntityId) (e : EntityId) (includeParent : Bool)
    (filter : ZstEntityType) : List EntityId :=
  if includeParent ∧ (filter = .none ∨ (h.entities e).entityType = filter) then bundle ++ [e]
  else bundle

/-- `ZstComponent::get_child_entities`, and that of `ZstEntityBase` for all others, with
all the arguments: the bundle is handed in. -/
def getChildEntitiesInto (h : ZstHierarchy) :
    Nat → List EntityId → EntityId → Bool → Bool → ZstEntityType → Option (List EntityId)
  | 0, _, _, _, _, _ => none
  | depth + 1, bundle, e, includeParent, recursive, filter =>
    let bundle := addEntity h bundle e includeParent filter
    if (h.entities e).isComponent then
      (h.entities e).children.foldlM (fun bundle path =>
        (h.getChildByURI e path).elim (some bundle) fun entity =>
          if recursive then getChildEntitiesInto h depth bundle entity true recursive filter
          else some (addEntity h bundle entity true filter)) bundle
    else some bundle

/-- `get_child_cables` of a component, of a plug, and of any other entity, into a bundle
that is handed in. -/
def getChildCablesInto (s : ZstSession) : Nat → List CableId → EntityId → Option (List CableId)
  | 0, _, _ => none
  | depth + 1, bundle, e =>
    if (s.hierarchy.entities e).isComponent then do
      let entities ← getChildEntitiesInto s.hierarchy (depth + 1) [] e false true .none
      entities.foldlM (fun bundle child => getChildCablesInto s depth bundle child) bundle
    else some (s.plugCables bundle e)

/-! ## Trees of addresses -/

/-- The lookup finds the entity at its URI. -/
def Present (h : ZstHierarchy) (e : EntityId) : Prop :=
  h.findEntity (h.entities e).uri = some e

instance (h : ZstHierarchy) (e : EntityId) : Decidable (Present h e) :=
  inferInstanceAs (Decidable (h.findEntity (h.entities e).uri = some e))

/-- A component's child is at the component's URI with one more segment. -/
def Child (h : ZstHierarchy) (e c : EntityId) : Prop :=
  (h.entities e).isComponent = true ∧ ∃ s, h.findEntity ((h.entities e).uri ++ [s]) = some c

/-- The lookup and the URIs agree, and so do the child sets. -/
structure EntityTree (h : ZstHierarchy) : Prop where
  keyed : ∀ q e, h.findEntity q = some e →
    (h.entities e).uri = q ∧ (h.entities e).registered = true ∧ e < h.next
  children : ∀ e, Present h e → (h.entities e).isComponent = true → ∀ q,
    q ∈ (h.entities e).children ↔
      ∃ s, q = (h.entities e).uri ++ [s] ∧ (h.findEntity q).isSome = true
  nodup : ∀ e, Present h e → (h.entities e).children.Nodup

/-- The entity is the first one, or a descendant. -/
def Below (h : ZstHierarchy) : EntityId → EntityId → Prop :=
  Relation.ReflTransGen (Child h)

/-- The entity is a descendant. -/
def Descendant (h : ZstHierarchy) : EntityId → EntityId → Prop :=
  Relation.TransGen (Child h)

/-- What the arguments of `get_child_entities` select. -/
def Selects (h : ZstHierarchy) (e : EntityId) (includeParent recursive : Bool)
    (filter : ZstEntityType) (d : EntityId) : Prop :=
  (filter = .none ∨ (h.entities d).entityType = filter) ∧
    ((includeParent = true ∧ d = e) ∨ if recursive then Descendant h e d else Child h e d)

/-- A registered tree on the heap is such a tree. -/
theorem EntityTree.of_registeredTree {h : ZstHierarchy} (tree : RegisteredTree h)
    (hnext : ∀ e, h.InTree e → e < h.next) : EntityTree h where
  keyed q e he := by
    rw [tree.findEntity_eq] at he
    obtain ⟨huri, -, hregistered⟩ := tree.keyed q e he
    exact ⟨huri, hregistered, hnext e (tree.inTree_of_lookup he)⟩
  children e he _ q := by
    unfold Present at he
    simp only [tree.findEntity_eq] at he ⊢
    constructor
    · intro hq
      obtain ⟨c, s, hlookup, -, rfl⟩ := tree.child e he q hq
      exact ⟨s, rfl, by rw [hlookup]; rfl⟩
    · rintro ⟨s, rfl, hfound⟩
      obtain ⟨c, hlookup⟩ := Option.isSome_iff_exists.mp hfound
      have huri : (h.entities c).uri = (h.entities e).uri ++ [s] := (tree.keyed _ c hlookup).1
      have hc := tree.inTree_of_lookup hlookup
      have haddress : (h.entities c).parentAddress ≠ [] := by
        intro hempty
        have hone := tree.top c hc hempty
        rw [huri, List.length_append, List.length_singleton] at hone
        exact (tree.segments e he).1 (List.length_eq_zero_iff.mp (by omega))
      obtain ⟨p, hp, -, hmem⟩ := tree.parent c hc haddress
      obtain ⟨-, s', -, -, hlast⟩ := tree.child p (tree.inTree_of_lookup hp) _ hmem
      have hsame : (h.entities p).uri = (h.entities e).uri :=
        (List.append_inj' (hlast.symm.trans huri) rfl).1
      have hpe : p = e := by
        have hp := tree.inTree_of_lookup hp
        unfold InTree at hp
        rw [hsame] at hp
        exact Option.some.inj (hp.symm.trans he)
      rw [huri, hpe] at hmem
      exact hmem
  nodup e he := by
    unfold Present at he
    rw [tree.findEntity_eq] at he
    exact tree.nodup e he

section Addresses

variable {h : ZstHierarchy} (tree : EntityTree h)

include tree

theorem EntityTree.present {q : ZstURI} {e : EntityId} (he : h.findEntity q = some e) :
    Present h e := by
  unfold Present
  rw [(tree.keyed q e he).1]
  exact he

theorem EntityTree.child {e c : EntityId} (hc : Child h e c) :
    Present h c ∧ ∃ s, (h.entities c).uri = (h.entities e).uri ++ [s] := by
  obtain ⟨-, s, hfind⟩ := hc
  exact ⟨tree.present hfind, s, (tree.keyed _ c hfind).1⟩

theorem EntityTree.below {e d : EntityId} (he : Present h e) (hd : Below h e d) :
    Present h d ∧ (h.entities e).uri <+: (h.entities d).uri := by
  induction hd with
  | refl => exact ⟨he, List.prefix_rfl⟩
  | tail _ hchild ih =>
    obtain ⟨hpresent, s, huri⟩ := tree.child hchild
    rw [huri]
    exact ⟨hpresent, ih.2.trans (List.prefix_append _ _)⟩

/-- What is below a child has a longer path than the parent. -/
theorem EntityTree.not_below {e c d : EntityId} (hc : Child h e c) (hd : Below h c d) :
    ¬ Below h d e := by
  intro he
  obtain ⟨hpresent, s, huri⟩ := tree.child hc
  obtain ⟨hpresent', hprefix⟩ := tree.below hpresent hd
  have hextends := tree.below hpresent' he
  have hlength := (List.IsPrefix.trans hprefix hextends.2).length_le
  rw [huri, List.length_append, List.length_singleton] at hlength
  omega

/-- Nothing is below two children of an entity. -/
theorem EntityTree.eq_of_below {e c c' d : EntityId} (hc : Child h e c) (hc' : Child h e c')
    (hd : Below h c d) (hd' : Below h c' d) : c = c' := by
  obtain ⟨hpresent, s, huri⟩ := tree.child hc
  obtain ⟨hpresent', s', huri'⟩ := tree.child hc'
  have hsame : (h.entities c).uri = (h.entities c').uri := by
    refine (List.prefix_of_prefix_length_le (tree.below hpresent hd).2
      (tree.below hpresent' hd').2 ?_).eq_of_length_le ?_
    · simp [huri, huri']
    · simp [huri, huri']
  unfold Present at hpresent hpresent'
  rw [hsame, hpresent'] at hpresent
  exact (Option.some.inj hpresent).symm

/-! ### Children that are found -/

theorem EntityTree.mem_childEntities {e c : EntityId} (he : Present h e) :
    c ∈ h.childEntities e ↔ Child h e c := by
  unfold childEntities Child
  cases hkind : (h.entities e).isComponent with
  | false => simp
  | true =>
    have hregistered := (tree.keyed _ e he).2.1
    simp only [if_true, List.mem_filterMap, getChildByURI, hregistered, tree.children e he hkind,
      true_and]
    constructor
    · rintro ⟨q, ⟨s, rfl, -⟩, hfind⟩
      exact ⟨s, hfind⟩
    · rintro ⟨s, hfind⟩
      exact ⟨_, ⟨s, rfl, by rw [hfind]; rfl⟩, hfind⟩

theorem EntityTree.nodup_childEntities {e : EntityId} (he : Present h e) :
    (h.childEntities e).Nodup := by
  unfold childEntities
  split
  · refine List.Nodup.filterMap (fun q q' c hq hq' => ?_) (tree.nodup e he)
    have hkeyed : ∀ q, c ∈ h.getChildByURI e q → (h.entities c).uri = q := by
      intro q hq
      unfold getChildByURI at hq
      split at hq
      · exact (tree.keyed q c hq).1
      · cases hq
    exact (hkeyed q hq).symm.trans (hkeyed q' hq')
  · exact List.nodup_nil

/-! ### Depth -/

omit tree in
/-- How many entities have longer paths: fewer for a child. -/
def room (h : ZstHierarchy) (e : EntityId) : Nat :=
  ((Finset.range h.next).filter fun d =>
    (h.entities e).uri.length < (h.entities d).uri.length).card

theorem EntityTree.room_lt {e c : EntityId} (hc : Child h e c) : room h c < room h e := by
  obtain ⟨-, s, hfind⟩ := hc
  obtain ⟨huri, -, hnext⟩ := tree.keyed _ c hfind
  have hlength : (h.entities e).uri.length < (h.entities c).uri.length := by
    rw [huri, List.length_append, List.length_singleton]
    exact Nat.lt_succ_self _
  refine Finset.card_lt_card (Finset.ssubset_iff_subset_ne.mpr ⟨fun d hd => ?_, fun hsame => ?_⟩)
  · rw [Finset.mem_filter] at hd ⊢
    exact ⟨hd.1, hlength.trans hd.2⟩
  · have hmem : c ∈ (Finset.range h.next).filter fun d =>
        (h.entities e).uri.length < (h.entities d).uri.length :=
      Finset.mem_filter.mpr ⟨Finset.mem_range.mpr hnext, hlength⟩
    rw [← hsame, Finset.mem_filter] at hmem
    exact absurd hmem.2 (Nat.lt_irrefl _)

/-- The descendants that are listed are below the entity. -/
theorem EntityTree.below_of_mem {depth : Nat} {e d : EntityId} (he : Present h e)
    (hd : d ∈ h.descendants depth e) : Below h e d := by
  induction depth generalizing e with
  | zero =>
    rw [List.mem_singleton.mp hd]
    exact .refl
  | succ depth ih =>
    simp only [descendants, List.mem_cons, List.mem_flatMap, tree.mem_childEntities he] at hd
    rcases hd with rfl | ⟨c, hc, hd⟩
    · exact .refl
    · exact Relation.ReflTransGen.head hc (ih (tree.child hc).1 hd)

/-- To the depth of the room below it, the descendants of an entity are all. -/
theorem EntityTree.mem_descendants {depth : Nat} {e d : EntityId} (he : Present h e)
    (hdepth : room h e ≤ depth) : d ∈ h.descendants depth e ↔ Below h e d := by
  refine ⟨tree.below_of_mem he, fun hd => ?_⟩
  induction depth generalizing e with
  | zero =>
    rcases Relation.ReflTransGen.cases_head hd with rfl | ⟨c, hc, -⟩
    · exact List.mem_singleton_self _
    · exact absurd (tree.room_lt hc) (by omega)
  | succ depth ih =>
    rcases Relation.ReflTransGen.cases_head hd with rfl | ⟨c, hc, hcd⟩
    · exact List.mem_cons_self
    · have hroom : room h c ≤ depth := Nat.le_of_lt_succ ((tree.room_lt hc).trans_le hdepth)
      exact List.mem_cons_of_mem _ (List.mem_flatMap.mpr
        ⟨c, (tree.mem_childEntities he).mpr hc, ih (tree.child hc).1 hroom hcd⟩)

theorem EntityTree.childEntities_of_room_eq_zero {e : EntityId} (he : Present h e)
    (hroom : room h e = 0) : h.childEntities e = [] := by
  refine List.eq_nil_iff_forall_not_mem.mpr fun c hc => ?_
  exact absurd (tree.room_lt ((tree.mem_childEntities he).mp hc)) (by omega)

/-- A greater depth changes nothing. -/
theorem EntityTree.descendants_eq {depth depth' : Nat} {e : EntityId} (he : Present h e)
    (hdepth : room h e ≤ depth) (hdepth' : room h e ≤ depth') :
    h.descendants depth e = h.descendants depth' e := by
  induction depth generalizing e depth' with
  | zero =>
    have hleaf := tree.childEntities_of_room_eq_zero he (Nat.le_zero.mp hdepth)
    cases depth' with
    | zero => rfl
    | succ depth' => simp [descendants, hleaf]
  | succ depth ih =>
    cases depth' with
    | zero =>
      have hleaf := tree.childEntities_of_room_eq_zero he (Nat.le_zero.mp hdepth')
      simp [descendants, hleaf]
    | succ depth' =>
      simp only [descendants]
      congr 1
      refine List.flatMap_congr fun c hc => ?_
      have hchild := (tree.mem_childEntities he).mp hc
      have hlt := tree.room_lt hchild
      exact ih (tree.child hchild).1 (by omega) (by omega)

/-- Whoever comes later is not above, nor the same. -/
theorem EntityTree.pairwise_flatMap {e : EntityId} {children : List EntityId}
    (hchildren : ∀ c ∈ children, Child h e c) (hnodup : children.Nodup) {depth : Nat}
    (hdepth : ∀ c ∈ children,
      (h.descendants depth c).Pairwise fun x y => ¬ Below h y x) :
    (children.flatMap (h.descendants depth)).Pairwise fun x y => ¬ Below h y x := by
  refine List.pairwise_flatMap.mpr ⟨hdepth, hnodup.imp_of_mem fun hc hc' hne x hx y hy hyx => ?_⟩
  have hbelow := tree.below_of_mem (tree.child (hchildren _ hc)).1 hx
  have hbelow' := tree.below_of_mem (tree.child (hchildren _ hc')).1 hy
  exact hne (tree.eq_of_below (hchildren _ hc) (hchildren _ hc') hbelow (hbelow'.trans hyx))

theorem EntityTree.pairwise_descendants (depth : Nat) {e : EntityId} (he : Present h e) :
    (h.descendants depth e).Pairwise fun x y => ¬ Below h y x := by
  induction depth generalizing e with
  | zero => exact List.pairwise_singleton _ _
  | succ depth ih =>
    have hchildren : ∀ c ∈ h.childEntities e, Child h e c :=
      fun c hc => (tree.mem_childEntities he).mp hc
    refine List.pairwise_cons.mpr ⟨fun d hd => ?_, tree.pairwise_flatMap hchildren
      (tree.nodup_childEntities he) fun c hc => ih (tree.child (hchildren c hc)).1⟩
    obtain ⟨c, hc, hd⟩ := List.mem_flatMap.mp hd
    have hchild := hchildren c hc
    exact tree.not_below hchild (tree.below_of_mem (tree.child hchild).1 hd)

end Addresses

/-! ## What a bundle gets -/

/-- The entity passes the filter. -/
def passes (h : ZstHierarchy) (filter : ZstEntityType) (d : EntityId) : Bool :=
  filter = .none ∨ (h.entities d).entityType = filter

@[simp] theorem passes_none (h : ZstHierarchy) (d : EntityId) : passes h .none d = true := by
  simp [passes]

theorem addEntity_eq (h : ZstHierarchy) (bundle : List EntityId) (e : EntityId)
    (includeParent : Bool) (filter : ZstEntityType) :
    addEntity h bundle e includeParent filter =
      bundle ++ (if includeParent then [e] else []).filter (passes h filter) := by
  unfold addEntity passes
  cases includeParent with
  | false => simp
  | true =>
    by_cases hfilter : filter = .none ∨ (h.entities e).entityType = filter
    · simp [hfilter]
    · simp [hfilter]

/-- A loop each of whose rounds appends something. -/
theorem foldlM_append {Item Entry : Type} {f : List Entry → Item → Option (List Entry)}
    {g : Item → List Entry} {items : List Item}
    (hf : ∀ item ∈ items, ∀ bundle, f bundle item = some (bundle ++ g item))
    (bundle : List Entry) : items.foldlM f bundle = some (bundle ++ items.flatMap g) := by
  induction items generalizing bundle with
  | nil => simp
  | cons item items ih =>
    rw [List.foldlM_cons, hf item List.mem_cons_self, List.flatMap_cons, ← List.append_assoc]
    exact ih (fun other hother => hf other (List.mem_cons_of_mem _ hother)) _

/-- The loop over the child paths goes over the children that are found. -/
theorem foldlM_children {h : ZstHierarchy} {e : EntityId}
    (hkind : (h.entities e).isComponent = true)
    {f : List EntityId → EntityId → Option (List EntityId)} {g : EntityId → List EntityId}
    (hf : ∀ c ∈ h.childEntities e, ∀ bundle, f bundle c = some (bundle ++ g c))
    (bundle : List EntityId) :
    (h.entities e).children.foldlM (fun bundle path =>
        (h.getChildByURI e path).elim (some bundle) (f bundle)) bundle =
      some (bundle ++ (h.childEntities e).flatMap g) := by
  have hround : ∀ path ∈ (h.entities e).children, ∀ bundle : List EntityId,
      (h.getChildByURI e path).elim (some bundle) (f bundle) =
        some (bundle ++ (h.getChildByURI e path).toList.flatMap g) := by
    intro path hpath bundle
    cases hfind : h.getChildByURI e path with
    | none => simp
    | some c =>
      have hc : c ∈ h.childEntities e := by
        rw [childEntities, if_pos hkind]
        exact List.mem_filterMap.mpr ⟨path, hpath, hfind⟩
      simpa using hf c hc bundle
  have hflat : (h.childEntities e).flatMap g =
      (h.entities e).children.flatMap fun path => (h.getChildByURI e path).toList.flatMap g := by
    rw [childEntities, if_pos hkind, List.filterMap_eq_flatMap_toList, List.flatMap_assoc]
  rw [foldlM_append hround, hflat]

/-- One call appends the entity and what it gets from its children, filtered. -/
theorem getChildEntities_eq {h : ZstHierarchy} {depth : Nat} {e : EntityId}
    {includeParent recursive : Bool} {filter : ZstEntityType} {g : EntityId → List EntityId}
    (hg : ∀ c ∈ h.childEntities e, ∀ bundle,
      (if recursive then getChildEntitiesInto h depth bundle c true recursive filter
        else some (addEntity h bundle c true filter)) =
          some (bundle ++ (g c).filter (passes h filter)))
    (bundle : List EntityId) :
    getChildEntitiesInto h (depth + 1) bundle e includeParent recursive filter =
      some (bundle ++ ((if includeParent then [e] else []) ++
        (h.childEntities e).flatMap g).filter (passes h filter)) := by
  unfold getChildEntitiesInto
  rw [addEntity_eq, List.filter_append, List.filter_flatMap]
  cases hkind : (h.entities e).isComponent with
  | false => simp [childEntities_of_not_component h e hkind]
  | true =>
    rw [if_pos rfl, foldlM_children hkind hg, List.append_assoc]

section Evaluation

variable {h : ZstHierarchy} (tree : EntityTree h)

include tree

/-- The recursion appends the descendants that pass the filter. -/
theorem EntityTree.getChildEntities_recursive {depth : Nat} {e : EntityId} (he : Present h e)
    (hdepth : room h e ≤ depth) (bundle : List EntityId) (includeParent : Bool)
    (filter : ZstEntityType) :
    getChildEntitiesInto h (depth + 1) bundle e includeParent true filter =
      some (bundle ++ ((if includeParent then [e] else []) ++
        (h.childEntities e).flatMap (h.descendants depth)).filter (passes h filter)) := by
  induction depth generalizing e bundle includeParent with
  | zero =>
    refine getChildEntities_eq (fun c hc => ?_) bundle
    exact absurd (tree.room_lt ((tree.mem_childEntities he).mp hc)) (by omega)
  | succ depth ih =>
    refine getChildEntities_eq (fun c hc bundle => ?_) bundle
    have hchild := (tree.mem_childEntities he).mp hc
    have hroom : room h c ≤ depth := Nat.le_of_lt_succ ((tree.room_lt hchild).trans_le hdepth)
    rw [if_pos rfl, ih (tree.child hchild).1 hroom]
    rfl

/-- With every option on it is the list that the hierarchy makes of a subtree. -/
theorem EntityTree.getChildEntitiesInto_subtree {depth : Nat} {e : EntityId} (he : Present h e)
    (hdepth : room h e ≤ depth) (bundle : List EntityId) :
    getChildEntitiesInto h (depth + 1) bundle e true true .none =
      some (bundle ++ h.getChildEntities e) := by
  have hheap : room h e ≤ h.next := (Finset.card_filter_le _ _).trans_eq (Finset.card_range _)
  have hall : ∀ d, passes h .none d = true := fun d => by simp [passes]
  rw [tree.getChildEntities_recursive he hdepth, List.filter_eq_self.mpr fun d _ => hall d]
  congr 2
  exact tree.descendants_eq he (hdepth.trans (Nat.le_succ _)) hheap

omit tree in
/-- Otherwise the children that pass the filter are appended. -/
theorem getChildEntities_children (depth : Nat) (e : EntityId) (bundle : List EntityId)
    (includeParent : Bool) (filter : ZstEntityType) :
    getChildEntitiesInto h (depth + 1) bundle e includeParent false filter =
      some (bundle ++ ((if includeParent then [e] else []) ++
        (h.childEntities e).flatMap fun c => [c]).filter (passes h filter)) := by
  refine getChildEntities_eq (fun c _ bundle => ?_) bundle
  rw [if_neg Bool.false_ne_true, addEntity_eq]
  rfl

/-- The descendants of an entity: those that come through its children. -/
theorem EntityTree.mem_flatMap_descendants {depth : Nat} {e d : EntityId} (he : Present h e)
    (hdepth : room h e ≤ depth) :
    d ∈ (h.childEntities e).flatMap (h.descendants depth) ↔ Descendant h e d := by
  unfold Descendant
  rw [List.mem_flatMap, Relation.TransGen.head'_iff]
  refine exists_congr fun c => ?_
  rw [tree.mem_childEntities he]
  refine and_congr_right fun hc => tree.mem_descendants (tree.child hc).1 ?_
  exact (tree.room_lt hc).le.trans hdepth

/-- What one call appends: everything that its arguments select, nobody twice, and
every ancestor first. -/
structure Collects (h : ZstHierarchy) (e : EntityId) (includeParent recursive : Bool)
    (filter : ZstEntityType) (added : List EntityId) : Prop where
  mem : ∀ d, d ∈ added ↔ Selects h e includeParent recursive filter d
  nodup : added.Nodup
  ancestors : added.Pairwise fun x y => ¬ Descendant h y x

theorem EntityTree.collects {e : EntityId} {includeParent recursive : Bool}
    {filter : ZstEntityType} (rest : List EntityId)
    (hrest : rest.Pairwise fun x y => ¬ Below h y x)
    (hmem : ∀ d, d ∈ rest ↔ if recursive then Descendant h e d else Child h e d) :
    Collects h e includeParent recursive filter
      (((if includeParent then [e] else []) ++ rest).filter (passes h filter)) := by
  have hdescendant : ∀ d ∈ rest, Descendant h e d := by
    intro d hd
    have hd := (hmem d).mp hd
    cases recursive with
    | false => exact .single hd
    | true => exact hd
  have hall : ((if includeParent then [e] else []) ++ rest).Pairwise fun x y => ¬ Below h y x := by
    refine List.pairwise_append.mpr ⟨by cases includeParent <;> simp, hrest, fun x hx d hd => ?_⟩
    obtain rfl : x = e := by
      cases includeParent with
      | false => exact absurd hx List.not_mem_nil
      | true => exact List.mem_singleton.mp hx
    obtain ⟨c, hc, hcd⟩ := Relation.TransGen.head'_iff.mp (hdescendant d hd)
    exact tree.not_below hc hcd
  refine ⟨fun d => ?_, (hall.filter _).imp ?_, (hall.filter _).imp ?_⟩
  · unfold Selects passes
    rw [List.mem_filter, List.mem_append, hmem, and_comm, decide_eq_true_eq]
    cases includeParent <;> simp
  · rintro x _ hbelow rfl
    exact hbelow .refl
  · exact fun hbelow hdescendant => hbelow hdescendant.to_reflTransGen

theorem EntityTree.pairwise_children {e : EntityId} (he : Present h e) :
    ((h.childEntities e).flatMap fun c => [c]).Pairwise fun x y => ¬ Below h y x := by
  refine List.pairwise_flatMap.mpr ⟨fun c _ => List.pairwise_singleton _ _, ?_⟩
  refine (tree.nodup_childEntities he).imp_of_mem fun hc hc' hne x hx y hy hyx => ?_
  rw [List.mem_singleton] at hx hy
  subst hx hy
  rw [tree.mem_childEntities he] at hc hc'
  exact hne (tree.eq_of_below hc hc' .refl hyx)

theorem EntityTree.pairwise_recursive (depth : Nat) {e : EntityId} (he : Present h e) :
    ((h.childEntities e).flatMap (h.descendants depth)).Pairwise fun x y => ¬ Below h y x := by
  have hchildren : ∀ c ∈ h.childEntities e, Child h e c :=
    fun c hc => (tree.mem_childEntities he).mp hc
  exact tree.pairwise_flatMap hchildren (tree.nodup_childEntities he)
    fun c hc => tree.pairwise_descendants _ (tree.child (hchildren c hc)).1

theorem EntityTree.flatMap_descendants_eq {depth : Nat} {e : EntityId} (he : Present h e)
    (hdepth : room h e ≤ depth) :
    (h.childEntities e).flatMap (h.descendants depth) =
      (h.childEntities e).flatMap (h.descendants (room h e)) := by
  refine List.flatMap_congr fun c hc => ?_
  have hchild := (tree.mem_childEntities he).mp hc
  have hlt := tree.room_lt hchild
  exact tree.descendants_eq (tree.child hchild).1 (by omega) (by omega)

end Evaluation

/-- In every tree, `get_child_entities` of every entity comes to an end, and appends
what its arguments select. -/
theorem getChildEntities_collects (h : ZstHierarchy) (tree : EntityTree h) (e : EntityId)
    (he : Present h e) (bundle : List EntityId) (includeParent recursive : Bool)
    (filter : ZstEntityType) :
    ∃ added, Collects h e includeParent recursive filter added ∧
      ∃ depth, ∀ more, depth ≤ more →
        getChildEntitiesInto h more bundle e includeParent recursive filter =
          some (bundle ++ added) := by
  cases recursive with
  | false =>
    refine ⟨_, tree.collects _ (tree.pairwise_children he) fun d => ?_, 1, fun more hmore => ?_⟩
    · simp [tree.mem_childEntities he]
    · obtain ⟨depth, rfl⟩ := Nat.exists_eq_add_of_le' hmore
      exact getChildEntities_children depth e bundle includeParent filter
  | true =>
    refine ⟨_, tree.collects _ (tree.pairwise_recursive (room h e) he)
      fun d => tree.mem_flatMap_descendants he le_rfl, room h e + 1, fun more hmore => ?_⟩
    obtain ⟨depth, rfl⟩ := Nat.exists_eq_add_of_le' (Nat.le_of_add_left_le hmore)
    have hroom : room h e ≤ depth := by omega
    rw [tree.getChildEntities_recursive he hroom, tree.flatMap_descendants_eq he hroom]

/-- The cable between the two plugs of `nested`. -/
def innerCable : ZstCableAddress where
  inputURI := ["perf", "comp", "in"]
  outputURI := ["perf", "comp", "out"]

/-- A performer with a component, which holds an input plug and an output plug. -/
def nested : ZstHierarchy :=
  ofList [
    { entityType := .performer, uri := ["perf"], children := [["perf", "comp"]],
      registered := true },
    { entityType := .component, uri := ["perf", "comp"], parentAddress := ["perf"],
      children := [["perf", "comp", "in"], ["perf", "comp", "out"]], registered := true },
    { entityType := .plug, uri := ["perf", "comp", "in"], parentAddress := ["perf", "comp"],
      direction := .inJack, registered := true, sessionAdaptor := true, cables := [innerCable] },
    { entityType := .plug, uri := ["perf", "comp", "out"], parentAddress := ["perf", "comp"],
      direction := .outJack, registered := true, sessionAdaptor := true, cables := [innerCable] }]

theorem nested_registeredTree : RegisteredTree nested :=
  registeredTree_ofList (by decide) (by decide) (by decide) (by decide) (by decide)

theorem nested_tree : EntityTree nested :=
  .of_registeredTree nested_registeredTree fun _ he => (ofList_lookup he).1

/-- The plugs of the performer, which are two levels below it. -/
theorem getChildEntities_collects_nested :
    ∃ added, Collects nested 0 true true .plug added ∧
      ∃ depth, ∀ more, depth ≤ more →
        getChildEntitiesInto nested more [] 0 true true .plug = some ([] ++ added) :=
  getChildEntities_collects nested nested_tree 0 (by decide) [] true true .plug

example : getChildEntitiesInto nested 4 [] 0 true true .plug = some [2, 3] := by decide

/-! ## Cables of a subtree -/

/-- The addresses at the plugs of a subtree. -/
def ends (s : ZstSession) (e : EntityId) : Set ZstCableAddress :=
  {a | ∃ d, Below s.hierarchy e d ∧ (s.hierarchy.entities d).entityType = .plug ∧
    a ∈ (s.hierarchy.entities d).cables}

/-- The bundle holds the session's cables at some addresses, each of them once. -/
structure Gathers (s : ZstSession) (visited : Set ZstCableAddress) (bundle : List CableId) :
    Prop where
  mem : ∀ c, c ∈ bundle ↔ c ∈ s.cables ∧ (s.cableObjects c).address ∈ visited
  nodup : bundle.Nodup

theorem gathers_empty (s : ZstSession) : Gathers s ∅ [] :=
  ⟨fun c => by simp, List.nodup_nil⟩

section Cables

variable {s : ZstSession} {visited : Set ZstCableAddress} {bundle : List CableId}

/-- An address that no cable of the session has. -/
theorem Gathers.insert_unknown (gathers : Gathers s visited bundle) {a : ZstCableAddress}
    (ha : ∀ c ∈ s.cables, (s.cableObjects c).address ≠ a) : Gathers s (insert a visited) bundle := by
  refine ⟨fun c => ?_, gathers.nodup⟩
  rw [gathers.mem c, Set.mem_insert_iff]
  refine and_congr_right fun hc => ?_
  simp [ha c hc]

section Distinct

variable (hdistinct : ∀ c ∈ s.cables, ∀ d ∈ s.cables,
  (s.cableObjects c).address = (s.cableObjects d).address → c = d)

include hdistinct

/-- A cable whose address the bundle does not have yet. -/
theorem Gathers.append (gathers : Gathers s visited bundle) {c : CableId} (hc : c ∈ s.cables)
    (hnew : ∀ b ∈ bundle, (s.cableObjects b).address ≠ (s.cableObjects c).address) :
    Gathers s (insert (s.cableObjects c).address visited) (bundle ++ [c]) := by
  have hfresh : c ∉ bundle := fun hmem => hnew c hmem rfl
  refine ⟨fun d => ?_, List.nodup_append.mpr ⟨gathers.nodup, List.nodup_singleton c, ?_⟩⟩
  · rw [List.mem_append, List.mem_singleton, gathers.mem d, Set.mem_insert_iff]
    constructor
    · rintro (⟨hd, hvisited⟩ | rfl)
      · exact ⟨hd, .inr hvisited⟩
      · exact ⟨hc, .inl rfl⟩
    · rintro ⟨hd, haddress | hvisited⟩
      · exact .inr (hdistinct d hd c hc haddress)
      · exact .inl ⟨hd, hvisited⟩
  · rintro d hd _ hd' rfl
    rw [List.mem_singleton] at hd'
    exact hfresh (hd' ▸ hd)

/-- A plug adds the cables at its addresses. -/
theorem Gathers.plugCables (gathers : Gathers s visited bundle) {e : EntityId}
    (hplug : (s.hierarchy.entities e).entityType = .plug)
    (hadaptor : (s.hierarchy.entities e).sessionAdaptor = true) :
    Gathers s (visited ∪ {a | a ∈ (s.hierarchy.entities e).cables}) (s.plugCables bundle e) := by
  unfold ZstSession.plugCables
  dsimp only
  rw [if_pos ⟨hplug, hadaptor⟩]
  generalize (s.hierarchy.entities e).cables = addresses
  induction addresses generalizing visited bundle with
  | nil => simpa using gathers
  | cons a addresses ih =>
    have hvisited : visited ∪ {b | b ∈ a :: addresses} =
        insert a visited ∪ {b | b ∈ addresses} := by
      ext b
      simp only [Set.mem_union, Set.mem_ofPred_eq, List.mem_cons, Set.mem_insert_iff]
      tauto
    rw [hvisited]
    refine ih ?_
    dsimp only
    split
    · rename_i c hfind
      have hc := List.mem_of_find?_eq_some hfind
      obtain rfl : (s.cableObjects c).address = a := by simpa using List.find?_some hfind
      split
      · rename_i hany
        obtain ⟨b, hb, hsame⟩ := List.any_eq_true.mp hany
        have hknown : (s.cableObjects c).address ∈ visited := by
          rw [← of_decide_eq_true hsame]
          exact ((gathers.mem b).mp hb).2
        rwa [Set.insert_eq_of_mem hknown]
      · rename_i hany
        refine gathers.append hdistinct hc fun b hb hsame => hany ?_
        exact List.any_eq_true.mpr ⟨b, hb, decide_eq_true hsame⟩
    · rename_i hfind
      exact gathers.insert_unknown fun c hc haddress =>
        List.find?_eq_none.mp hfind c hc (decide_eq_true haddress)

/-- Any entity adds the cables that it has as a plug. -/
theorem Gathers.visit (gathers : Gathers s visited bundle) {e : EntityId}
    (hadaptor : (s.hierarchy.entities e).entityType = .plug →
      (s.hierarchy.entities e).sessionAdaptor = true) :
    Gathers s (visited ∪ {a | (s.hierarchy.entities e).entityType = .plug ∧
      a ∈ (s.hierarchy.entities e).cables}) (s.plugCables bundle e) := by
  by_cases hplug : (s.hierarchy.entities e).entityType = .plug
  · simpa [hplug] using gathers.plugCables hdistinct hplug (hadaptor hplug)
  · simpa [hplug, ZstSession.plugCables] using gathers

/-- Entities that are asked one after the other. -/
theorem Gathers.foldl_plugCables (gathers : Gathers s visited bundle) (entities : List EntityId)
    (hplugs : ∀ d ∈ entities, (s.hierarchy.entities d).entityType = .plug →
      (s.hierarchy.entities d).sessionAdaptor = true) :
    Gathers s (visited ∪ {a | ∃ d ∈ entities, (s.hierarchy.entities d).entityType = .plug ∧
      a ∈ (s.hierarchy.entities d).cables}) (entities.foldl s.plugCables bundle) := by
  induction entities generalizing visited bundle with
  | nil => simpa using gathers
  | cons d entities ih =>
    have hvisited : visited ∪ {a | ∃ c ∈ d :: entities,
          (s.hierarchy.entities c).entityType = .plug ∧ a ∈ (s.hierarchy.entities c).cables} =
        visited ∪ {a | (s.hierarchy.entities d).entityType = .plug ∧
          a ∈ (s.hierarchy.entities d).cables} ∪ {a | ∃ c ∈ entities,
            (s.hierarchy.entities c).entityType = .plug ∧
            a ∈ (s.hierarchy.entities c).cables} := by
      ext a
      simp only [Set.mem_union, Set.mem_ofPred_eq, List.mem_cons, exists_eq_or_imp]
      tauto
    rw [hvisited]
    exact ih (gathers.visit hdistinct (hplugs d List.mem_cons_self))
      fun c hc => hplugs c (List.mem_cons_of_mem d hc)

end Distinct

/-- A loop each of whose rounds adds the cables of one subtree. -/
theorem Gathers.foldlM {f : Nat → List CableId → EntityId → Option (List CableId)} {limit : Nat}
    {entities : List EntityId}
    (hf : ∀ d ∈ entities, ∀ visited bundle, Gathers s visited bundle →
      ∃ added, Gathers s (visited ∪ ends s d) added ∧
        ∀ depth, limit ≤ depth → f depth bundle d = some added)
    (gathers : Gathers s visited bundle) :
    ∃ added, Gathers s (visited ∪ {a | ∃ d ∈ entities, a ∈ ends s d}) added ∧
      ∀ depth, limit ≤ depth → entities.foldlM (f depth) bundle = some added := by
  induction entities generalizing visited bundle with
  | nil => exact ⟨bundle, by simpa using gathers, fun _ _ => rfl⟩
  | cons d entities ih =>
    obtain ⟨first, hfirst, hround⟩ := hf d List.mem_cons_self visited bundle gathers
    obtain ⟨added, hadded, hrounds⟩ :=
      ih (fun other hother => hf other (List.mem_cons_of_mem d hother)) hfirst
    refine ⟨added, ?_, fun depth hdepth => ?_⟩
    · have hvisited : visited ∪ {a | ∃ x ∈ d :: entities, a ∈ ends s x} =
          visited ∪ ends s d ∪ {a | ∃ x ∈ entities, a ∈ ends s x} := by
        ext a
        simp only [Set.mem_union, Set.mem_ofPred_eq, List.mem_cons, exists_eq_or_imp]
        tauto
      rwa [hvisited]
    · rw [List.foldlM_cons, hround depth hdepth]
      exact hrounds depth hdepth

theorem ends_of_not_component {e : EntityId}
    (hkind : (s.hierarchy.entities e).isComponent = false) :
    ends s e = {a | (s.hierarchy.entities e).entityType = .plug ∧
      a ∈ (s.hierarchy.entities e).cables} := by
  ext a
  constructor
  · rintro ⟨d, hbelow, hplug, ha⟩
    rcases Relation.ReflTransGen.cases_head hbelow with rfl | ⟨c, hchild, -⟩
    · exact ⟨hplug, ha⟩
    · exact absurd hchild.1 (by simp [hkind])
  · rintro ⟨hplug, ha⟩
    exact ⟨e, .refl, hplug, ha⟩

/-- The plugs below a component are those of its descendants. -/
theorem ends_of_component {e : EntityId} (hkind : (s.hierarchy.entities e).isComponent = true)
    {entities : List EntityId} (hentities : ∀ d, d ∈ entities ↔ Descendant s.hierarchy e d) :
    ends s e = {a | ∃ d ∈ entities, a ∈ ends s d} := by
  ext a
  constructor
  · rintro ⟨d, hbelow, hplug, ha⟩
    rcases Relation.reflTransGen_iff_eq_or_transGen.mp hbelow with rfl | hdescendant
    · simp [Entity.isComponent, hplug] at hkind
    · exact ⟨d, (hentities d).mpr hdescendant, d, .refl, hplug, ha⟩
  · rintro ⟨d, hd, d', hbelow, hplug, ha⟩
    exact ⟨d', ((hentities d).mp hd).to_reflTransGen.trans hbelow, hplug, ha⟩

end Cables

theorem EntityTree.room_lt_of_descendant {h : ZstHierarchy} (tree : EntityTree h) {e d : EntityId}
    (hd : Descendant h e d) : room h d < room h e := by
  induction hd with
  | single hchild => exact tree.room_lt hchild
  | tail _ hchild ih => exact (tree.room_lt hchild).trans ih

/-- Whatever the bundle holds, the cables of the subtree join it. -/
theorem EntityTree.gathers {s : ZstSession} (tree : EntityTree s.hierarchy)
    (hdistinct : ∀ c ∈ s.cables, ∀ d ∈ s.cables,
      (s.cableObjects c).address = (s.cableObjects d).address → c = d)
    {e : EntityId} (he : Present s.hierarchy e)
    (hplugs : ∀ d, Below s.hierarchy e d → (s.hierarchy.entities d).entityType = .plug →
      (s.hierarchy.entities d).sessionAdaptor = true)
    {visited : Set ZstCableAddress} {bundle : List CableId} (hbundle : Gathers s visited bundle) :
    ∃ added, Gathers s (visited ∪ ends s e) added ∧
      ∀ depth, room s.hierarchy e < depth → getChildCablesInto s depth bundle e = some added := by
  induction hroom : room s.hierarchy e using Nat.strong_induction_on
    generalizing e visited bundle with
  | _ _ ih =>
    subst hroom
    cases hkind : (s.hierarchy.entities e).isComponent with
    | false =>
      refine ⟨s.plugCables bundle e, ?_, fun depth hdepth => ?_⟩
      · rw [ends_of_not_component hkind]
        exact hbundle.visit hdistinct (hplugs e .refl)
      · obtain ⟨depth, rfl⟩ := Nat.exists_eq_add_one_of_ne_zero (Nat.ne_zero_of_lt hdepth)
        rw [getChildCablesInto, hkind]
        rfl
    | true =>
      have hmem := fun d => tree.mem_flatMap_descendants (d := d) he (le_refl (room s.hierarchy e))
      obtain ⟨added, hadded, hloop⟩ := hbundle.foldlM
        (f := fun depth bundle d => getChildCablesInto s depth bundle d)
        (fun d hd visited bundle hbundle => by
          have hdescendant := (hmem d).mp hd
          have hbelow := hdescendant.to_reflTransGen
          obtain ⟨added, hadded, hround⟩ := ih _ (tree.room_lt_of_descendant hdescendant)
            (tree.below he hbelow).1 (fun d' hd' => hplugs d' (hbelow.trans hd')) hbundle rfl
          exact ⟨added, hadded, fun depth hdepth =>
            hround depth ((tree.room_lt_of_descendant hdescendant).trans_le hdepth)⟩)
      refine ⟨added, ?_, fun depth hdepth => ?_⟩
      · rwa [ends_of_component hkind hmem]
      · obtain ⟨depth, rfl⟩ := Nat.exists_eq_add_one_of_ne_zero (Nat.ne_zero_of_lt hdepth)
        have hdepth : room s.hierarchy e ≤ depth := Nat.le_of_lt_succ hdepth
        rw [getChildCablesInto, hkind, tree.getChildEntities_recursive he hdepth,
          tree.flatMap_descendants_eq he hdepth]
        simpa [List.filter_eq_self.mpr] using hloop depth hdepth

/-- `get_child_cables` of a component finds every cable of the session at a plug of
its subtree once, and no other. -/
theorem getChildCables_gathers (s : ZstSession) (tree : EntityTree s.hierarchy)
    (hdistinct : ∀ c ∈ s.cables, ∀ d ∈ s.cables,
      (s.cableObjects c).address = (s.cableObjects d).address → c = d)
    (e : EntityId) (he : Present s.hierarchy e)
    (hplugs : ∀ d, Below s.hierarchy e d → (s.hierarchy.entities d).entityType = .plug →
      (s.hierarchy.entities d).sessionAdaptor = true) :
    ∃ added, added.Nodup ∧
      (∀ c, c ∈ added ↔ c ∈ s.cables ∧ ∃ d, Below s.hierarchy e d ∧
        (s.hierarchy.entities d).entityType = .plug ∧
        (s.cableObjects c).address ∈ (s.hierarchy.entities d).cables) ∧
      ∃ depth, ∀ more, depth ≤ more → getChildCablesInto s more [] e = some added := by
  obtain ⟨added, hadded, hcall⟩ := tree.gathers hdistinct he hplugs (gathers_empty s)
  refine ⟨added, hadded.nodup, fun c => ?_, room s.hierarchy e + 1, hcall⟩
  rw [hadded.mem c, Set.empty_union]
  rfl

/-- The session asks every entity of the subtree once, and gets the same cables. -/
theorem getChildCablesInto_perm {s : ZstSession} (tree : EntityTree s.hierarchy)
    (hdistinct : ∀ c ∈ s.cables, ∀ d ∈ s.cables,
      (s.cableObjects c).address = (s.cableObjects d).address → c = d)
    {e : EntityId} (he : Present s.hierarchy e)
    (hplugs : ∀ d, Below s.hierarchy e d → (s.hierarchy.entities d).entityType = .plug →
      (s.hierarchy.entities d).sessionAdaptor = true) :
    ∃ added, added.Perm (s.getChildCables e) ∧
      ∀ depth, room s.hierarchy e < depth → getChildCablesInto s depth [] e = some added := by
  have hheap : room s.hierarchy e ≤ s.hierarchy.next :=
    (Finset.card_filter_le _ _).trans_eq (Finset.card_range _)
  have hbelow : ∀ d, d ∈ s.hierarchy.getChildEntities e ↔ Below s.hierarchy e d :=
    fun d => tree.mem_descendants he hheap
  obtain ⟨added, hadded, hcall⟩ := tree.gathers hdistinct he hplugs (gathers_empty s)
  have hall := (gathers_empty s).foldl_plugCables hdistinct (s.hierarchy.getChildEntities e)
    fun d hd => hplugs d ((hbelow d).mp hd)
  refine ⟨added, (List.perm_ext_iff_of_nodup hadded.nodup hall.nodup).mpr fun c => ?_, hcall⟩
  rw [hadded.mem c, hall.mem c]
  simp only [hbelow]
  rfl

/-- The session that holds the cable inside `nested`. -/
def nestedSession : ZstSession where
  hierarchy := nested
  cableObjects _ := { address := innerCable, input := 2, output := 3 }
  cables := [0]

theorem nested_sessionAdaptor (d : EntityId) (hplug : (nested.entities d).entityType = .plug) :
    (nested.entities d).sessionAdaptor = true := by
  by_cases hd : d < 4
  · interval_cases d
    · cases hplug
    · cases hplug
    · rfl
    · rfl
  · have hnone : nested.entities d = { entityType := .none, uri := [] } := by
      simp [nested, ofList, not_lt.mp hd]
    rw [hnone] at hplug
    cases hplug

/-- Both ends of the cable are below the performer. -/
theorem getChildCables_gathers_nested :
    ∃ added, added.Nodup ∧
      (∀ c, c ∈ added ↔ c ∈ nestedSession.cables ∧ ∃ d, Below nestedSession.hierarchy 0 d ∧
        (nestedSession.hierarchy.entities d).entityType = .plug ∧
        (nestedSession.cableObjects c).address ∈ (nestedSession.hierarchy.entities d).cables) ∧
      ∃ depth, ∀ more, depth ≤ more → getChildCablesInto nestedSession more [] 0 = some added :=
  getChildCables_gathers nestedSession nested_tree (by decide) 0 (by decide)
    fun d _ => nested_sessionAdaptor d

example : getChildCablesInto nestedSession 5 [] 0 = some [0] := by decide

end Showtime.Bundles
