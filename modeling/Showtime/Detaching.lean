import Showtime.Tree
import Showtime.TreeEdit
/-!
# Taking a subtree off its parent

`set_parent` takes every child off the entity that moves and adds it again, and
so do the children. On the way each entity below is alone at its last segment
for a while, with what is below it. As long as no two entities on one branch
share a name nobody of the subtree gets in the way of another one, and in the
end the whole subtree is below the new address.
-/

namespace Showtime.Detaching

open ZstHierarchy

/-! ## Paths within a subtree -/

/-- The path from one entity to another one below it, both ends included. -/
def relative (b : ZstHierarchy) (x d : EntityId) : ZstURI :=
  (b.entities d).uri.drop ((b.entities x).uri.length - 1)

/-- On no branch below the entity two of them have the same name. -/
def DistinctOnBranches (b : ZstHierarchy) (e : EntityId) : Prop :=
  ∀ x d, b.Below e x → b.Below x d → d ≠ x → (b.entities d).uri.last ≠ (b.entities x).uri.last

/-- One of the subtree has the path while another one above it, or itself, is at
the root. -/
def Passed (b : ZstHierarchy) (e : EntityId) (q : ZstURI) : Prop :=
  ∃ x d, b.Below e x ∧ b.Below x d ∧ relative b x d = q

section Paths

variable {b : ZstHierarchy} (tree : RegisteredTree b) {e x y c d : EntityId}

include tree

theorem relative_self (hx : b.InTree x) :
    ∃ s, s ≠ "" ∧ relative b x x = [s] ∧ (b.entities x).uri.dropLast ++ [s] = (b.entities x).uri := by
  obtain ⟨hne, hsegments⟩ := tree.segments x hx
  rcases List.eq_nil_or_concat (b.entities x).uri with hnil | ⟨v, s, huri⟩
  · exact absurd hnil hne
  · rw [List.concat_eq_append] at huri
    refine ⟨s, fun hs => hsegments ?_, ?_, ?_⟩
    · rw [huri, hs]
      simp
    · unfold relative
      rw [huri]
      simp
    · rw [huri]
      simp

theorem relative_self_eq (hx : b.InTree x) : relative b x x = (b.entities x).uri.last := by
  obtain ⟨s, hs, hname, huri⟩ := relative_self tree hx
  rw [hname, ← huri, ZstURI.last_append _ hs]

/-- The relative path takes the place of the last segment. -/
theorem uri_eq (hx : b.InTree x) (hd : b.Below x d) :
    (b.entities d).uri = (b.entities x).uri.dropLast ++ relative b x d := by
  obtain ⟨s, -, -, huri⟩ := relative_self tree hx
  obtain ⟨t, ht⟩ := tree.prefix_of_below hx hd
  unfold relative
  rw [← ht, ← huri]
  simp

theorem relative_inj (hx : b.InTree x) (hc : b.Below x c) (hd : b.Below x d)
    (heq : relative b x c = relative b x d) : c = d := by
  have hcTree := tree.inTree_of_below hx hc
  have hdTree := tree.inTree_of_below hx hd
  unfold InTree at hcTree hdTree
  rw [uri_eq tree hx hc, heq, ← uri_eq tree hx hd] at hcTree
  exact Option.some.inj (hcTree.symm.trans hdTree)

/-- The path to an entity below a child goes through the child. -/
theorem relative_child (hx : b.InTree x) (hc : b.HasChild x c) (hd : b.Below c d) :
    relative b x d = relative b x x ++ relative b c d := by
  have hcTree := tree.inTree_of_below hx (.single hc)
  obtain ⟨s, -, hname, huri⟩ := relative_self tree hx
  obtain ⟨s', hchild⟩ := tree.uri_of_hasChild hx hc
  have hdx := uri_eq tree hx (.head hc hd)
  rw [uri_eq tree hcTree hd, hchild, List.dropLast_concat, ← huri, List.append_assoc] at hdx
  rw [hname]
  exact (List.append_cancel_left (hdx.trans (by rw [huri]))).symm

theorem relative_ne_nil (hx : b.InTree x) (hd : b.Below x d) : relative b x d ≠ [] := by
  obtain ⟨s, -, hname, -⟩ := relative_self tree hx
  rcases Relation.ReflTransGen.cases_head hd with rfl | ⟨c, hc, hcd⟩
  · rw [hname]
    exact List.cons_ne_nil s []
  · rw [relative_child tree hx hc hcd, hname]
    exact List.cons_ne_nil s _

/-- Every segment of a relative path is the name of somebody below its first end. -/
theorem exists_of_mem_relative (hx : b.InTree x) (hd : b.Below x d) {s : String}
    (hs : s ∈ relative b x d) : ∃ w, b.Below x w ∧ relative b w w = [s] := by
  induction hd using Relation.ReflTransGen.head_induction_on with
  | refl =>
    obtain ⟨s', -, hname, -⟩ := relative_self tree hx
    rw [hname] at hs
    exact ⟨d, .refl, by rw [hname, List.mem_singleton.mp hs]⟩
  | head hc hcd ih =>
    rename_i x c
    have hcTree := tree.inTree_of_below hx (.single hc)
    rw [relative_child tree hx hc hcd] at hs
    rcases List.mem_append.mp hs with hs | hs
    · obtain ⟨s', -, hname, -⟩ := relative_self tree hx
      rw [hname] at hs
      exact ⟨x, .refl, by rw [hname, List.mem_singleton.mp hs]⟩
    · obtain ⟨w, hw, hname⟩ := ih hcTree hs
      exact ⟨w, .head hc hw, hname⟩

/-- A path below a child does not have the name of the parent. -/
theorem not_mem_relative (hdistinct : DistinctOnBranches b e) (hx : b.InTree x) (hex : b.Below e x)
    (hc : b.HasChild x c) (hy : b.Below c y) (hd : b.Below y d) {s : String}
    (hname : relative b x x = [s]) : s ∉ relative b y d := by
  intro hs
  have hcTree := tree.inTree_of_below hx (.single hc)
  obtain ⟨w, hw, hws⟩ := exists_of_mem_relative tree (tree.inTree_of_below hcTree hy) hd hs
  have hcw : b.Below c w := hy.trans hw
  refine hdistinct x w hex (.head hc hcw) (tree.ne_of_below_child hx hc hcw) ?_
  rw [← relative_self_eq tree hx, ← relative_self_eq tree (tree.inTree_of_below hcTree hcw)]
  exact hws.trans hname.symm

/-- Only components have children. -/
theorem isComponent_of_hasChild (hx : b.InTree x) (hc : b.HasChild x c) :
    (b.entities x).isComponent = true := by
  have hmem := tree.mem_childEntities hx hc
  unfold childEntities at hmem
  split at hmem
  · assumption
  · cases hmem

end Paths

/-! ## A subtree on its way -/

/-- The subtree of `x` is below an address. -/
structure SubtreePlaced (b h : ZstHierarchy) (x : EntityId) (address : ZstURI) : Prop where
  uri : ∀ d, b.Below x d → (h.entities d).uri = address ++ relative b x d
  children : ∀ d, b.Below x d → ∀ q, q ∈ (h.entities d).children ↔
    ∃ c, b.HasChild d c ∧ q = address ++ relative b x c
  nodup : ∀ d, b.Below x d → (h.entities d).children.Nodup

/-- Everybody below `e` is found, wherever it is for the moment, and nobody else
has moved. -/
structure Whole (b : ZstHierarchy) (e : EntityId) (h : ZstHierarchy) : Prop where
  edit : TreeEdit b h
  registered : ∀ d, b.Below e d → (h.entities d).registered = true
  found : ∀ d, b.Below e d → h.lookup (h.entities d).uri = some d
  keyed : ∀ q d, b.Below e d → h.lookup q = some d → (h.entities d).uri = q
  outside : ∀ d, ¬ b.Below e d → (h.entities d).uri = (b.entities d).uri
  moved : ∀ d, b.Below e d →
    (h.entities d).uri = (b.entities d).uri ∨ Passed b e (h.entities d).uri
  lookup : ∀ q, h.lookup q = b.lookup q ∨ Passed b e q ∨
    ∃ d, b.Below e d ∧ (b.entities d).uri = q

/-- Of the others nobody is found in the second hierarchy who was not found in
the first. -/
def Fewer (b : ZstHierarchy) (e : EntityId) (h k : ZstHierarchy) : Prop :=
  ∀ q y, ¬ b.Below e y → k.lookup q = some y → h.lookup q = some y

/-- The subtree of the entity has been at the root, and has taken the paths there
from whoever had them. -/
def Swept (b : ZstHierarchy) (e : EntityId) (h : ZstHierarchy) (x : EntityId) : Prop :=
  ∀ d, b.Below x d → ∀ y, h.lookup (relative b x d) = some y → b.Below e y

variable {b h k l : ZstHierarchy} {e x y c d p : EntityId} {address : ZstURI}

theorem Fewer.refl (h : ZstHierarchy) : Fewer b e h h :=
  fun _ _ _ hy => hy

theorem Fewer.trans (hk : Fewer b e h k) (kl : Fewer b e k l) : Fewer b e h l :=
  fun q y hout hy => hk q y hout (kl q y hout hy)

theorem Swept.of_fewer (hswept : Swept b e h x) (hk : Fewer b e h k) : Swept b e k x := by
  intro d hd y hy
  by_contra hout
  exact hout (hswept d hd y (hk _ y hout hy))

namespace SubtreePlaced

/-- Another entity's children change. -/
theorem relist (placed : SubtreePlaced b h x address) (hp : ¬ b.Below x p)
    (f : List ZstURI → List ZstURI) :
    SubtreePlaced b (h.modify p fun y => { y with children := f y.children }) x address := by
  have hsame : ∀ d, b.Below x d →
      (h.modify p fun y => { y with children := f y.children }).entities d = h.entities d :=
    fun d hd => modify_entities_of_ne h _ fun hdp => hp (hdp ▸ hd)
  refine ⟨fun d hd => ?_, fun d hd => ?_, fun d hd => ?_⟩
  · rw [hsame d hd]
    exact placed.uri d hd
  · rw [hsame d hd]
    exact placed.children d hd
  · rw [hsame d hd]
    exact placed.nodup d hd

/-- Nobody of the subtree changes. -/
theorem of_same (placed : SubtreePlaced b h x address)
    (huri : ∀ d, b.Below x d → (k.entities d).uri = (h.entities d).uri)
    (hchildren : ∀ d, b.Below x d → (k.entities d).children = (h.entities d).children) :
    SubtreePlaced b k x address := by
  refine ⟨fun d hd => ?_, fun d hd => ?_, fun d hd => ?_⟩
  · rw [huri d hd]
    exact placed.uri d hd
  · rw [hchildren d hd]
    exact placed.children d hd
  · rw [hchildren d hd]
    exact placed.nodup d hd

/-- A child's subtree is below the parent. -/
theorem child (tree : RegisteredTree b) (placed : SubtreePlaced b h x address) (hx : b.InTree x)
    (hc : b.HasChild x c) : SubtreePlaced b h c (address ++ relative b x x) := by
  have hpath : ∀ d, b.Below c d →
      address ++ relative b x d = address ++ relative b x x ++ relative b c d := fun d hd => by
    rw [relative_child tree hx hc hd, List.append_assoc]
  refine ⟨fun d hd => ?_, fun d hd q => ?_, fun d hd => placed.nodup d (.head hc hd)⟩
  · rw [placed.uri d (.head hc hd), hpath d hd]
  · rw [placed.children d (.head hc hd)]
    constructor
    · rintro ⟨y, hy, rfl⟩
      exact ⟨y, hy, hpath y (hd.tail hy)⟩
    · rintro ⟨y, hy, rfl⟩
      exact ⟨y, hy, (hpath y (hd.tail hy)).symm⟩

/-- An entity and the subtrees of its children. -/
theorem of_children (tree : RegisteredTree b) (hx : b.InTree x)
    (huri : (h.entities x).uri = address ++ relative b x x)
    (hlisted : ∀ q, q ∈ (h.entities x).children ↔
      ∃ c, b.HasChild x c ∧ q = address ++ relative b x c)
    (hnodup : (h.entities x).children.Nodup)
    (hplaced : ∀ c, b.HasChild x c → SubtreePlaced b h c (address ++ relative b x x)) :
    SubtreePlaced b h x address := by
  have hpath : ∀ c d, b.HasChild x c → b.Below c d →
      address ++ relative b x d = address ++ relative b x x ++ relative b c d :=
    fun c d hc hd => by rw [relative_child tree hx hc hd, List.append_assoc]
  refine ⟨fun d hd => ?_, fun d hd q => ?_, fun d hd => ?_⟩
  all_goals rcases Relation.ReflTransGen.cases_head hd with rfl | ⟨c, hc, hcd⟩
  · exact huri
  · rw [(hplaced c hc).uri d hcd, hpath c d hc hcd]
  · exact hlisted q
  · rw [(hplaced c hc).children d hcd]
    constructor
    · rintro ⟨y, hy, rfl⟩
      exact ⟨y, hy, (hpath c y hc (hcd.tail hy)).symm⟩
    · rintro ⟨y, hy, rfl⟩
      exact ⟨y, hy, hpath c y hc (hcd.tail hy)⟩
  · exact hnodup
  · exact (hplaced c hc).nodup d hcd

end SubtreePlaced

namespace Whole

/-- A list of children says nothing about who is found. -/
theorem relist (whole : Whole b e h) (p : EntityId) (f : List ZstURI → List ZstURI) :
    Whole b e (h.modify p fun y => { y with children := f y.children }) := by
  have hfield : ∀ {β : Type} (g : Entity → β), (∀ x l, g { x with children := l } = g x) →
      ∀ d, g ((h.modify p fun x => { x with children := f x.children }).entities d) =
        g (h.entities d) := by
    intro β g hg d
    rw [modify_entities]
    split
    · rename_i hde
      rw [hg, hde]
    · rfl
  have huri := hfield Entity.uri fun _ _ => rfl
  refine ⟨whole.edit.trans (.of_modify h p _ fun _ => rfl), fun d hd => ?_, fun d hd => ?_,
    fun q d hd hq => ?_, fun d hd => ?_, fun d hd => ?_, whole.lookup⟩
  · rw [hfield Entity.registered fun _ _ => rfl]
    exact whole.registered d hd
  · rw [huri]
    exact whole.found d hd
  · rw [huri]
    exact whole.keyed q d hd hq
  · rw [huri]
    exact whole.outside d hd
  · rw [huri]
    exact whole.moved d hd

/-- Two of the subtree are at different paths. -/
theorem uri_inj (whole : Whole b e h) (hc : b.Below e c) (hd : b.Below e d)
    (heq : (h.entities c).uri = (h.entities d).uri) : c = d := by
  have hfound := whole.found c hc
  rw [heq, whole.found d hd] at hfound
  exact (Option.some.inj hfound).symm

end Whole

/-- What `set_parent` of one entity does without its children. -/
theorem setParentBase_other (h : ZstHierarchy) {parent : Option EntityId} (hd : d ≠ x) :
    (h.setParentBase x parent).entities d = h.entities d := by
  unfold setParentBase
  exact (updateURI_other _ _ hd).trans (modify_entities_of_ne h _ hd)

theorem setParentBase_children (h : ZstHierarchy) (x d : EntityId) (parent : Option EntityId) :
    ((h.setParentBase x parent).entities d).children = (h.entities d).children ∧
      ((h.setParentBase x parent).entities d).registered = (h.entities d).registered := by
  obtain ⟨creatables, hd⟩ := updateURI_entities (h.modify x fun y =>
    { y with
      parentAddress := h.addressOf parent
      uri := reparentedURI y.uri (h.addressOf parent) }) x d (h.entities x).uri
  unfold setParentBase
  dsimp only
  rw [hd, modify_entities]
  split
  · rename_i hdx
    rw [hdx]
    exact ⟨rfl, rfl⟩
  · exact ⟨rfl, rfl⟩

theorem setParentBase_lookup (h : ZstHierarchy) (x : EntityId) (parent : Option EntityId)
    (hregistered : (h.entities x).registered = true) :
    (h.setParentBase x parent).lookup =
      Function.update (Function.update h.lookup (h.entities x).uri none)
        (reparentedURI (h.entities x).uri (h.addressOf parent)) (some x) := by
  unfold setParentBase
  dsimp only
  rw [updateURI_lookup]
  · rw [modify_entities_self, modify_lookup]
  · rw [modify_entities_self]
    exact hregistered

namespace Whole

/-- One entity goes to a path where nobody of the subtree is. -/
theorem setParentBase (whole : Whole b e h) (hx : b.Below e x) {parent : Option EntityId}
    {path : ZstURI} (hpath : reparentedURI (h.entities x).uri (h.addressOf parent) = path)
    (hfree : ∀ d, b.Below e d → d ≠ x → (h.entities d).uri ≠ path)
    (hpassed : Passed b e path) : Whole b e (h.setParentBase x parent) := by
  have hlookup := setParentBase_lookup h x parent (whole.registered x hx)
  have huri (d : EntityId) := setParentBase_uri h x d parent
  rw [hpath] at hlookup
  simp only [hpath] at huri
  have hother : ∀ d, d ≠ x → ((h.setParentBase x parent).entities d).uri = (h.entities d).uri :=
    fun d hd => by rw [huri, if_neg hd]
  have hself : ((h.setParentBase x parent).entities x).uri = path := by
    rw [huri, if_pos rfl]
  refine ⟨whole.edit.trans (.setParentBase h x parent), fun d hd => ?_, fun d hd => ?_,
    fun q d hd hq => ?_, fun d hd => ?_, fun d hd => ?_, fun q => ?_⟩
  · rw [(setParentBase_children h x d parent).2]
    exact whole.registered d hd
  · by_cases hdx : d = x
    · rw [hdx, hself, hlookup, Function.update_self]
    · rw [hother d hdx, hlookup, Function.update_of_ne (hfree d hd hdx), Function.update_of_ne]
      · exact whole.found d hd
      · exact fun heq => hdx (whole.uri_inj hd hx heq)
  · rw [hlookup, Function.update_apply] at hq
    split at hq
    · rename_i hqp
      obtain rfl := Option.some.inj hq
      rw [hself, hqp]
    · rw [Function.update_apply] at hq
      split at hq
      · cases hq
      · rename_i hqx
        have hold := whole.keyed q d hd hq
        rw [hother d fun hdx => hqx (by rw [← hold, hdx]), hold]
  · rw [hother d fun hdx => hd (hdx ▸ hx)]
    exact whole.outside d hd
  · by_cases hdx : d = x
    · rw [hdx, hself]
      exact Or.inr hpassed
    · rw [hother d hdx]
      exact whole.moved d hd
  · rw [hlookup, Function.update_apply]
    split
    · rename_i hqp
      rw [hqp]
      exact Or.inr (Or.inl hpassed)
    · rw [Function.update_apply]
      split
      · rename_i hqx
        rcases whole.moved x hx with hold | hbefore
        · exact Or.inr (Or.inr ⟨x, hx, by rw [hqx, hold]⟩)
        · rw [hqx]
          exact Or.inr (Or.inl hbefore)
      · exact whole.lookup q

theorem fewer_setParentBase (whole : Whole b e h) (hx : b.Below e x) (parent : Option EntityId) :
    Fewer b e h (h.setParentBase x parent) := by
  intro q y hout hy
  rw [setParentBase_lookup h x parent (whole.registered x hx), Function.update_apply] at hy
  split at hy
  · exact absurd (Option.some.inj hy ▸ hx) hout
  · rw [Function.update_apply] at hy
    split at hy
    · cases hy
    · exact hy

section Attached

variable (tree : RegisteredTree b) (he : b.InTree e)
  (hattached : (b.entities e).parentAddress ≠ [])

include tree he hattached

/-- No client's own performer is in the subtree, so a longer path is looked up
in the table. -/
theorem findEntity_eq (whole : Whole b e h) {q : ZstURI} (hq : 2 ≤ q.length) :
    h.findEntity q = h.lookup q := by
  unfold findEntity
  cases hroot : h.root with
  | none => rfl
  | some r =>
    rw [whole.edit.root] at hroot
    obtain ⟨hr, haddress⟩ := tree.root r hroot
    have hout : ¬ b.Below e r := by
      intro hbelow
      by_cases hre : r = e
      · exact hattached (hre ▸ haddress)
      · exact tree.address_of_below he hbelow hre haddress
    have hne : (h.entities r).uri ≠ q := by
      intro heq
      have hone := tree.top r hr haddress
      rw [whole.outside r hout] at heq
      rw [← heq, hone] at hq
      omega
    dsimp only
    rw [if_neg hne]

/-- A component finds its children, whatever its own path is. -/
theorem getChildByURI_eq (whole : Whole b e h) (hx : b.Below e x) (hc : b.HasChild x c)
    (hlength : 2 ≤ (h.entities c).uri.length) :
    h.getChildByURI x (h.entities c).uri = some c := by
  unfold getChildByURI
  rw [if_pos (whole.registered x hx), whole.findEntity_eq tree he hattached hlength]
  exact whole.found c (hx.tail hc)

theorem mem_childEntities (whole : Whole b e h) (hx : b.Below e x)
    (hlisted : ∀ q, q ∈ (h.entities x).children ↔ ∃ c, b.HasChild x c ∧ q = (h.entities c).uri)
    (hlength : ∀ c, b.HasChild x c → 2 ≤ (h.entities c).uri.length) {c : EntityId} :
    c ∈ h.childEntities x ↔ b.HasChild x c := by
  have hget (d : EntityId) (hd : b.HasChild x d) :=
    whole.getChildByURI_eq tree he hattached hx hd (hlength d hd)
  have hkind := whole.edit.field Entity.isComponent (fun _ => rfl) x
  unfold childEntities
  rw [hkind]
  constructor
  · intro hc
    split at hc
    · obtain ⟨q, hq, hfind⟩ := List.mem_filterMap.mp hc
      obtain ⟨d, hd, rfl⟩ := (hlisted q).mp hq
      rw [hget d hd] at hfind
      exact Option.some.inj hfind ▸ hd
    · cases hc
  · intro hc
    rw [if_pos (isComponent_of_hasChild tree (tree.inTree_of_below he hx) hc)]
    exact List.mem_filterMap.mpr ⟨_, (hlisted _).mpr ⟨c, hc, rfl⟩, hget c hc⟩

theorem nodup_childEntities (whole : Whole b e h) (hx : b.Below e x)
    (hlisted : ∀ q, q ∈ (h.entities x).children ↔ ∃ c, b.HasChild x c ∧ q = (h.entities c).uri)
    (hlength : ∀ c, b.HasChild x c → 2 ≤ (h.entities c).uri.length)
    (hnodup : (h.entities x).children.Nodup) : (h.childEntities x).Nodup := by
  unfold childEntities
  split
  · refine List.Nodup.of_map (fun c => (h.entities c).uri) ?_
    have hsame : ((h.entities x).children.filterMap (h.getChildByURI x)).map
        (fun c => (h.entities c).uri) = (h.entities x).children := by
      rw [List.map_filterMap]
      refine (List.filterMap_congr fun q hq => ?_).trans List.filterMap_some
      obtain ⟨c, hc, rfl⟩ := (hlisted q).mp hq
      rw [whole.getChildByURI_eq tree he hattached hx hc (hlength c hc)]
      rfl
    rw [hsame]
    exact hnodup
  · exact List.nodup_nil

end Attached

end Whole

/-! ## Everything below comes along -/

/-- The subtree of `x`, on its way from one address to another one, and the rest
of the subtree of `e` are apart. -/
structure SubtreesApart (b : ZstHierarchy) (e : EntityId) (h : ZstHierarchy) (x : EntityId)
    (old new : ZstURI) : Prop where
  others : ∀ m, b.Below e m → ¬ b.Below x m → ∀ y d, b.Below x y → b.Below y d →
    (h.entities m).uri ≠ relative b y d
  target : ∀ m, b.Below e m → ¬ b.Below x m → ∀ d, b.Below x d →
    (h.entities m).uri ≠ new ++ relative b x d
  switch : ∀ c d, b.Below x c → b.Below x d → old ++ relative b x c ≠ new ++ relative b x d
  reach : new = [] ∨ old = [] ∧ ¬ new <+: relative b x x
  passing : ∃ y, b.Below e y ∧ b.Below y x ∧ ∀ d, b.Below x d →
    new ++ relative b x d = relative b y d

/-- The subtree of `x` has come to an address, past the paths that are the names
of its members alone if it has no parent now. -/
structure SubtreeMoved (b : ZstHierarchy) (e : EntityId) (h : ZstHierarchy) (x : EntityId)
    (address : ZstURI) (k : ZstHierarchy) : Prop where
  whole : Whole b e k
  placed : SubtreePlaced b k x address
  stays : ∀ m, b.Below e m → ¬ b.Below x m → (k.entities m).uri = (h.entities m).uri ∧
    (k.entities m).children = (h.entities m).children
  fewer : Fewer b e h k
  swept : address = [] → ∀ d, b.Below x d → Swept b e k d

/-- What `set_parent` does to trees of at most the given depth. -/
def MovesTrees (b : ZstHierarchy) (e : EntityId) (depth : Nat)
    (move : ZstHierarchy → EntityId → Option EntityId → ZstHierarchy) : Prop :=
  ∀ h x old new parent, Whole b e h → b.Below e x →
    (∀ d, b.Below x d → (b.entities d).uri.length < (b.entities x).uri.length + depth) →
    SubtreePlaced b h x old → h.addressOf parent = new → SubtreesApart b e h x old new →
    SubtreeMoved b e h x new (move h x parent)

/-- Some children of `x` wait at their old paths, and the others are at their
new ones. -/
structure Loop (b : ZstHierarchy) (e x : EntityId) (old new : ZstURI) (start : ZstHierarchy)
    (rest : List EntityId) (h : ZstHierarchy) : Prop where
  whole : Whole b e h
  self : (h.entities x).uri = new ++ relative b x x
  waiting : ∀ c, b.HasChild x c → c ∈ rest → SubtreePlaced b h c (old ++ relative b x x)
  done : ∀ c, b.HasChild x c → c ∉ rest → SubtreePlaced b h c (new ++ relative b x x) ∧
    ∀ d, b.Below c d → Swept b e h d
  listed : ∀ q, q ∈ (h.entities x).children ↔ ∃ c, b.HasChild x c ∧ q = (h.entities c).uri
  nodup : (h.entities x).children.Nodup
  stays : ∀ m, b.Below e m → ¬ b.Below x m → (h.entities m).uri = (start.entities m).uri ∧
    (h.entities m).children = (start.entities m).children
  fewer : Fewer b e start h

theorem SubtreesApart.of_same {old new : ZstURI} (apart : SubtreesApart b e h x old new)
    (hsame : ∀ m, b.Below e m → ¬ b.Below x m → (k.entities m).uri = (h.entities m).uri) :
    SubtreesApart b e k x old new := by
  refine ⟨fun m hm hmx => ?_, fun m hm hmx => ?_, apart.switch, apart.reach, apart.passing⟩
  · rw [hsame m hm hmx]
    exact apart.others m hm hmx
  · rw [hsame m hm hmx]
    exact apart.target m hm hmx

theorem SubtreesApart.passed {old new : ZstURI} (apart : SubtreesApart b e h x old new) :
    Passed b e (new ++ relative b x x) := by
  obtain ⟨y, hy, hyx, hpath⟩ := apart.passing
  exact ⟨y, x, hy, hyx, (hpath x .refl).symm⟩

section Attached

variable (tree : RegisteredTree b) (he : b.InTree e)

include tree he

theorem reparentedURI_eq {old new : ZstURI} (hx : b.Below e x)
    (hreach : new = [] ∨ old = [] ∧ ¬ new <+: relative b x x) :
    reparentedURI (old ++ relative b x x) new = new ++ relative b x x := by
  obtain ⟨s, hs, hname, -⟩ := relative_self tree (tree.inTree_of_below he hx)
  unfold reparentedURI
  rw [hname] at hreach ⊢
  split
  · rename_i hnew
    rw [ZstURI.last_append old hs, hnew]
    rfl
  · rename_i hnew
    obtain ⟨rfl, hextends⟩ := hreach.resolve_left hnew
    have hcontains : ZstURI.contains ([] ++ [s]) new = false := by
      unfold ZstURI.contains
      rw [List.nil_append, Bool.and_eq_false_iff]
      exact Or.inr (Bool.eq_false_iff.mpr fun h => hextends (List.isPrefixOf_iff_prefix.mp h))
    rw [hcontains, ZstURI.last_append [] hs]
    exact ZstURI.add_singleton hnew s

namespace Loop

variable {old new : ZstURI} {start : ZstHierarchy} {rest : List EntityId}

/-- Who is below `x` is below the old or the new address of `x`. -/
theorem uri_below (loop : Loop b e x old new start rest h) (hx : b.Below e x) {m : EntityId}
    (hm : b.Below x m) : (h.entities m).uri = old ++ relative b x m ∨
      (h.entities m).uri = new ++ relative b x m := by
  rcases Relation.ReflTransGen.cases_head hm with rfl | ⟨c, hc, hcm⟩
  · exact Or.inr loop.self
  · have hpath : ∀ address : ZstURI,
        address ++ relative b x x ++ relative b c m = address ++ relative b x m := fun address => by
      rw [relative_child tree (tree.inTree_of_below he hx) hc hcm, List.append_assoc]
    by_cases hrest : c ∈ rest
    · rw [(loop.waiting c hc hrest).uri m hcm]
      exact Or.inl (hpath old)
    · rw [(loop.done c hc hrest).1.uri m hcm]
      exact Or.inr (hpath new)

/-- The name of `x` is in the paths of what is below `x`, but not in the paths
that a child passes. -/
theorem others_child (loop : Loop b e x old new start rest h) (hdistinct : DistinctOnBranches b e)
    (apart : SubtreesApart b e start x old new) (hx : b.Below e x) (hc : b.HasChild x c)
    {m : EntityId}
    (hm : b.Below e m) (hmc : ¬ b.Below c m) {d : EntityId} (hy : b.Below c y)
    (hd : b.Below y d) : (h.entities m).uri ≠ relative b y d := by
  have hxTree := tree.inTree_of_below he hx
  by_cases hxm : b.Below x m
  · obtain ⟨s, -, hname, -⟩ := relative_self tree hxTree
    have hs : s ∈ relative b x m := by
      rcases Relation.ReflTransGen.cases_head hxm with rfl | ⟨c', hc', hcm⟩
      · rw [hname]
        exact List.mem_singleton_self s
      · rw [relative_child tree hxTree hc' hcm, hname]
        exact List.mem_cons_self
    intro heq
    refine not_mem_relative tree hdistinct hxTree hx hc hy hd hname ?_
    rw [← heq]
    rcases loop.uri_below tree he hx hxm with huri | huri
    all_goals
      rw [huri]
      exact List.mem_append_right _ hs
  · rw [(loop.stays m hm hxm).1]
    exact apart.others m hm hxm y d (.head hc hy) hd

section Child

variable (loop : Loop b e x old new start rest h) (hdistinct : DistinctOnBranches b e)
  (apart : SubtreesApart b e start x old new) (hx : b.Below e x) (hc : b.HasChild x c)
  (hsame : ∀ m, b.Below e m → ¬ b.Below c m → (k.entities m).uri = (h.entities m).uri)

include loop hdistinct apart hx hc hsame

/-- A child that is taken off. -/
theorem apart_removeChild (old' : ZstURI) : SubtreesApart b e k c (old' ++ relative b x x) [] := by
  have hxTree := tree.inTree_of_below he hx
  obtain ⟨s, -, hname, -⟩ := relative_self tree hxTree
  refine ⟨fun m hm hmc y d hy hd => ?_, fun m hm hmc d hd => ?_, fun c' d hc' hd heq => ?_,
    Or.inl rfl, ⟨c, hx.tail hc, .refl, fun _ _ => rfl⟩⟩
  · rw [hsame m hm hmc]
    exact loop.others_child tree he hdistinct apart hx hc hm hmc hy hd
  · rw [hsame m hm hmc]
    exact loop.others_child tree he hdistinct apart hx hc hm hmc .refl hd
  · refine not_mem_relative tree hdistinct hxTree hx hc .refl hd hname ?_
    rw [← List.nil_append (relative b c d), ← heq, hname]
    simp

/-- A child that is added again. -/
theorem apart_addChild : SubtreesApart b e k c [] (new ++ relative b x x) := by
  have hxTree := tree.inTree_of_below he hx
  obtain ⟨s, -, hname, -⟩ := relative_self tree hxTree
  refine ⟨fun m hm hmc y d hy hd => ?_, fun m hm hmc d hd => ?_, fun c' d hc' hd heq => ?_,
    Or.inr ⟨rfl, fun hextends => ?_⟩, ?_⟩
  · rw [hsame m hm hmc]
    exact loop.others_child tree he hdistinct apart hx hc hm hmc hy hd
  · rw [hsame m hm hmc, List.append_assoc, ← relative_child tree hxTree hc hd]
    by_cases hxm : b.Below x m
    · rcases loop.uri_below tree he hx hxm with huri | huri
      · rw [huri]
        exact apart.switch m d hxm (.head hc hd)
      · rw [huri]
        intro heq
        have hmd := relative_inj tree hxTree hxm (.head hc hd) (List.append_cancel_left heq)
        exact hmc (hmd ▸ hd)
    · rw [(loop.stays m hm hxm).1]
      exact apart.target m hm hxm d (.head hc hd)
  · refine not_mem_relative tree hdistinct hxTree hx hc .refl hc' hname ?_
    rw [← List.nil_append (relative b c c'), heq, hname]
    simp
  · refine not_mem_relative tree hdistinct hxTree hx hc .refl .refl hname
      (hextends.subset ?_)
    rw [hname]
    simp
  · obtain ⟨z, hz, hzx, hpath⟩ := apart.passing
    refine ⟨z, hz, hzx.tail hc, fun d hd => ?_⟩
    rw [List.append_assoc, ← relative_child tree hxTree hc hd]
    exact hpath d (.head hc hd)

end Child

section Move

variable {depth : Nat} {move : ZstHierarchy → EntityId → Option EntityId → ZstHierarchy}
  (hmove : MovesTrees b e depth move) (loop : Loop b e x old new start (c :: rest) h)
  (hdistinct : DistinctOnBranches b e) (apart : SubtreesApart b e start x old new)
    (hx : b.Below e x)
  (hc : b.HasChild x c)
  (hdepth : ∀ d, b.Below c d → (b.entities d).uri.length < (b.entities c).uri.length + depth)

include hmove loop hdistinct apart hx hc hdepth

/-- `remove_child` brings a child to its name alone. -/
theorem removeChildWith :
    SubtreeMoved b e
      (h.modify x fun y => { y with children := y.children.erase (h.entities c).uri }) c []
      (ZstHierarchy.removeChildWith move h x c) := by
  have hxTree := tree.inTree_of_below he hx
  have hcx : ¬ b.Below c x := fun hbelow => tree.ne_of_below_child hxTree hc hbelow rfl
  have hkind : (h.entities x).isComponent = true := by
    rw [loop.whole.edit.field Entity.isComponent (fun _ => rfl)]
    exact isComponent_of_hasChild tree hxTree hc
  have huri : ∀ m, ((h.modify x fun y =>
      { y with children := y.children.erase (h.entities c).uri }).entities m).uri =
        (h.entities m).uri := fun m => by
    rw [modify_entities]
    split
    · rename_i hmx
      rw [hmx]
    · rfl
  unfold ZstHierarchy.removeChildWith
  rw [if_pos hkind]
  exact hmove _ c _ [] none
    (loop.whole.relist x fun children => children.erase (h.entities c).uri) (hx.tail hc) hdepth
    ((loop.waiting c hc List.mem_cons_self).relist hcx
      fun children => children.erase (h.entities c).uri) rfl
    (loop.apart_removeChild tree he hdistinct apart hx hc (fun m _ _ => huri m) old)

/-- `add_child` brings it below `x`, and tells nobody because it is a proxy. -/
theorem addChildWith {v : Overrides} (hproxy : (b.entities c).isProxy = true)
    (off : SubtreeMoved b e (h.modify x fun y =>
      { y with children := y.children.erase (h.entities c).uri }) c [] k) :
    SubtreeMoved b e k c (new ++ relative b x x) (move k c (some x)) ∧
      ZstHierarchy.addChildWith v move k x c true =
        (move k c (some x)).modify x fun y =>
          { y with children :=
              ZstURI.emplace y.children ((move k c (some x)).entities c).uri } := by
  have hxTree := tree.inTree_of_below he hx
  have hcx : ¬ b.Below c x := fun hbelow => tree.ne_of_below_child hxTree hc hbelow rfl
  have hsame : ∀ m, b.Below e m → ¬ b.Below c m → (k.entities m).uri = (h.entities m).uri := by
    intro m hm hmc
    rw [(off.stays m hm hmc).1, modify_entities]
    split
    · rename_i hmx
      rw [hmx]
    · rfl
  have haddress : k.addressOf (some x) = new ++ relative b x x := by
    unfold addressOf
    dsimp only
    rw [hsame x hx hcx, loop.self]
  have on : SubtreeMoved b e k c (new ++ relative b x x) (move k c (some x)) :=
    hmove k c [] _ (some x) off.whole (hx.tail hc) hdepth off.placed haddress
      (loop.apart_addChild tree he hdistinct apart hx hc hsame)
  refine ⟨on, ?_⟩
  have hkind : (k.entities x).isComponent = true := by
    rw [off.whole.edit.field Entity.isComponent (fun _ => rfl)]
    exact isComponent_of_hasChild tree hxTree hc
  -- the child's name alone is no path of a child
  have hnew : (k.entities c).uri ∉ (k.entities x).children := by
    rw [(off.stays x hx hcx).2, modify_entities_self, off.placed.uri c .refl, List.nil_append]
    intro hmem
    obtain ⟨hne, hmem⟩ := (loop.nodup.mem_erase_iff).mp hmem
    obtain ⟨c', hc', heq⟩ := (loop.listed _).mp hmem
    by_cases hcc : b.Below c c'
    · have hcc' := tree.eq_of_child_below hxTree hc' (.single hc)
        (tree.ne_of_below_child hxTree hc .refl) hcc
      exact hne (by rw [heq, hcc'])
    · exact loop.others_child tree he hdistinct apart hx hc (hx.tail hc') hcc .refl .refl heq.symm
  unfold ZstHierarchy.addChildWith
  rw [if_pos hkind, if_neg hnew]
  generalize move k c (some x) = l at on
  have hregistered : (l.entities c).registered = true := on.whole.registered c (hx.tail hc)
  have hproxyl : (l.entities c).isProxy = true := by
    rw [on.whole.edit.field Entity.isProxy fun _ => rfl]
    exact hproxy
  have hne : c ≠ x := tree.ne_of_below_child hxTree hc .refl
  unfold adoptChild
  simp only [modify_entities_of_ne _ _ hne, hregistered, hproxyl, Bool.not_true, Bool.and_false,
    Bool.false_and, Bool.false_eq_true, if_false]

/-- One child is taken off and added again. -/
theorem step {v : Overrides} (hproxy : (b.entities c).isProxy = true) (hrest : c ∉ rest) :
    Loop b e x old new start rest (ZstHierarchy.addChildWith v move
      (ZstHierarchy.removeChildWith move h x c) x c true) := by
  have hxTree := tree.inTree_of_below he hx
  have hcx : ¬ b.Below c x := fun hbelow => tree.ne_of_below_child hxTree hc hbelow rfl
  have hne : c ≠ x := tree.ne_of_below_child hxTree hc .refl
  have off := loop.removeChildWith tree he hmove hdistinct apart hx hc hdepth
  obtain ⟨on, hadd⟩ := loop.addChildWith tree he hmove hdistinct apart hx hc hdepth (v := v) hproxy off
  rw [hadd]
  generalize ZstHierarchy.removeChildWith move h x c = k at off on
  generalize move k c (some x) = l at on
  have hwhole := on.whole.relist x fun children => ZstURI.emplace children (l.entities c).uri
  -- the rest of the subtree is as before
  have huri : ∀ m, b.Below e m → ¬ b.Below c m → (l.entities m).uri = (h.entities m).uri := by
    intro m hm hmc
    rw [(on.stays m hm hmc).1, (off.stays m hm hmc).1, modify_entities]
    split
    · rename_i hmx
      rw [hmx]
    · rfl
  have hchildren : ∀ m, b.Below e m → ¬ b.Below c m → m ≠ x →
      (l.entities m).children = (h.entities m).children := by
    intro m hm hmc hmx
    rw [(on.stays m hm hmc).2, (off.stays m hm hmc).2, modify_entities_of_ne _ _ hmx]
  have hlist : (l.entities x).children =
      (h.entities x).children.erase (h.entities c).uri := by
    rw [(on.stays x hx hcx).2, (off.stays x hx hcx).2, modify_entities_self]
  have hapart : ∀ c', b.HasChild x c' → c' ≠ c → ∀ d, b.Below c' d → ¬ b.Below c d :=
    fun c' hc' hcc d hd hcd => hcc (tree.eq_of_below_both hxTree hc' hc hd hcd)
  have hkept : ∀ {address : ZstURI} c', b.HasChild x c' → c' ≠ c → SubtreePlaced b h c' address →
      SubtreePlaced b (l.modify x fun y =>
        { y with children := ZstURI.emplace y.children (l.entities c).uri }) c' address := by
    intro address c' hc' hcc placed
    have hx' : ¬ b.Below c' x := fun hbelow => tree.ne_of_below_child hxTree hc' hbelow rfl
    refine (placed.of_same (fun d hd => ?_) fun d hd => ?_).relist hx'
      fun children => ZstURI.emplace children (l.entities c).uri
    · exact huri d (hx.trans (.head hc' hd)) (hapart c' hc' hcc d hd)
    · exact hchildren d (hx.trans (.head hc' hd)) (hapart c' hc' hcc d hd)
        (tree.ne_of_below_child hxTree hc' hd)
  have hplaced := on.placed.relist hcx fun children => ZstURI.emplace children (l.entities c).uri
  have hfewer : Fewer b e h l := off.fewer.trans on.fewer
  have hself (m : EntityId) : ((l.modify x fun y =>
      { y with children := ZstURI.emplace y.children (l.entities c).uri }).entities m).uri =
        (l.entities m).uri := by
    rw [modify_entities]
    split
    · rename_i hmx
      rw [hmx]
    · rfl
  refine ⟨hwhole, ?_, fun c' hc' hmem => ?_, fun c' hc' hmem => ?_, fun q => ?_, ?_,
    fun m hm hmx => ?_, loop.fewer.trans hfewer⟩
  · rw [hself, huri x hx hcx]
    exact loop.self
  · have hcc : c' ≠ c := fun heq => hrest (heq ▸ hmem)
    exact hkept c' hc' hcc (loop.waiting c' hc' (List.mem_cons_of_mem c hmem))
  · by_cases hcc : c' = c
    · subst hcc
      refine ⟨hplaced, fun d hd => ?_⟩
      exact (off.swept rfl d hd).of_fewer on.fewer
    · obtain ⟨placed, hswept⟩ := loop.done c' hc' fun hmem' =>
        (List.mem_cons.mp hmem').elim hcc hmem
      exact ⟨hkept c' hc' hcc placed, fun d hd => (hswept d hd).of_fewer hfewer⟩
  · rw [modify_entities_self]
    dsimp only
    rw [ZstURI.mem_emplace, hlist, loop.nodup.mem_erase_iff]
    constructor
    · rintro (rfl | ⟨hnot, hmem⟩)
      · exact ⟨c, hc, (hself c).symm⟩
      · obtain ⟨c', hc', rfl⟩ := (loop.listed q).mp hmem
        have hcc : c' ≠ c := fun heq => hnot (by rw [heq])
        exact ⟨c', hc', ((hself c').trans
          (huri c' (hx.tail hc') (hapart c' hc' hcc c' .refl))).symm⟩
    · rintro ⟨c', hc', rfl⟩
      rw [hself]
      by_cases hcc : c' = c
      · exact Or.inl (by rw [hcc])
      · rw [huri c' (hx.tail hc') (hapart c' hc' hcc c' .refl)]
        refine Or.inr ⟨fun heq => hcc ?_, (loop.listed _).mpr ⟨c', hc', rfl⟩⟩
        exact loop.whole.uri_inj (hx.tail hc') (hx.tail hc) heq
  · rw [modify_entities_self]
    dsimp only
    rw [hlist]
    exact ZstURI.nodup_emplace _ (loop.nodup.erase _)
  · have hmc : ¬ b.Below c m := fun hcm => hmx (.head hc hcm)
    have hne' : m ≠ x := fun heq => hmx (heq ▸ .refl)
    rw [modify_entities_of_ne _ _ hne', huri m hm hmc, hchildren m hm hmc hne']
    exact loop.stays m hm hmx

end Move

/-- Every child is taken off and added again. -/
theorem run {v : Overrides} {depth : Nat}
    {move : ZstHierarchy → EntityId → Option EntityId → ZstHierarchy}
    (hmove : MovesTrees b e depth move) (hdistinct : DistinctOnBranches b e)
    (hproxies : ∀ d, b.Below e d → (b.entities d).isProxy = true)
    (apart : SubtreesApart b e start x old new) (hx : b.Below e x)
    (hdepth : ∀ d, b.Below x d → (b.entities d).uri.length < (b.entities x).uri.length + depth + 1)
    (loop : Loop b e x old new start rest h) (hnodup : rest.Nodup)
    (hrest : ∀ c ∈ rest, b.HasChild x c) :
    Loop b e x old new start [] (rest.foldl (fun h c => ZstHierarchy.addChildWith v move
      (ZstHierarchy.removeChildWith move h x c) x c true) h) := by
  induction rest generalizing h with
  | nil => exact loop
  | cons c rest ih =>
    obtain ⟨hnotin, hnodup⟩ := List.nodup_cons.mp hnodup
    have hc := hrest c List.mem_cons_self
    obtain ⟨s, huri⟩ := tree.uri_of_hasChild (tree.inTree_of_below he hx) hc
    have hchild : ∀ d, b.Below c d →
        (b.entities d).uri.length < (b.entities c).uri.length + depth := by
      intro d hd
      have hlt := hdepth d (.head hc hd)
      rw [huri, List.length_append, List.length_singleton]
      omega
    exact ih (loop.step tree he hmove hdistinct apart hx hc hchild (hproxies c (hx.tail hc)) hnotin)
      hnodup fun c' hc' => hrest c' (List.mem_cons_of_mem c hc')

end Loop

variable (hattached : (b.entities e).parentAddress ≠ [])

include hattached

/-- After `set_parent` of the entity alone all its children wait. -/
theorem Loop.start {old new : ZstURI} {parent : Option EntityId} (whole : Whole b e h)
    (hx : b.Below e x) (placed : SubtreePlaced b h x old) (haddress : h.addressOf parent = new)
    (apart : SubtreesApart b e h x old new) :
    Loop b e x old new (h.setParentBase x parent) ((h.setParentBase x parent).childEntities x)
      (h.setParentBase x parent) ∧ ((h.setParentBase x parent).childEntities x).Nodup ∧
      ∀ c ∈ (h.setParentBase x parent).childEntities x, b.HasChild x c := by
  have hxTree := tree.inTree_of_below he hx
  have hpath : reparentedURI (h.entities x).uri (h.addressOf parent) = new ++ relative b x x := by
    rw [placed.uri x .refl, haddress]
    exact reparentedURI_eq tree he hx apart.reach
  have hfree : ∀ d, b.Below e d → d ≠ x → (h.entities d).uri ≠ new ++ relative b x x := by
    intro d hd hdx
    by_cases hxd : b.Below x d
    · rw [placed.uri d hxd]
      exact apart.switch d x hxd .refl
    · exact apart.target d hd hxd x .refl
  have hwhole := whole.setParentBase hx hpath hfree apart.passed
  have huri (d : EntityId) := setParentBase_uri h x d parent
  have hchildren (d : EntityId) := (setParentBase_children h x d parent).1
  rw [hpath] at huri
  generalize h.setParentBase x parent = k at hwhole huri hchildren
  have hchild : ∀ c, b.HasChild x c → (k.entities c).uri = old ++ relative b x c := by
    intro c hc
    rw [huri, if_neg (tree.ne_of_below_child hxTree hc .refl)]
    exact placed.uri c (.single hc)
  have hlisted : ∀ q, q ∈ (k.entities x).children ↔
      ∃ c, b.HasChild x c ∧ q = (k.entities c).uri := by
    intro q
    rw [hchildren, placed.children x .refl]
    constructor
    · rintro ⟨c, hc, rfl⟩
      exact ⟨c, hc, (hchild c hc).symm⟩
    · rintro ⟨c, hc, rfl⟩
      exact ⟨c, hc, hchild c hc⟩
  have hlength : ∀ c, b.HasChild x c → 2 ≤ (k.entities c).uri.length := by
    intro c hc
    have hcTree := tree.inTree_of_below hxTree (.single hc)
    have hself := List.length_pos_iff.mpr (relative_ne_nil tree hxTree .refl)
    have hone := List.length_pos_iff.mpr (relative_ne_nil tree hcTree .refl)
    rw [hchild c hc, relative_child tree hxTree hc .refl, List.length_append, List.length_append]
    omega
  have hnodup : (k.entities x).children.Nodup := by
    rw [hchildren]
    exact placed.nodup x .refl
  have hmem {c : EntityId} : c ∈ k.childEntities x ↔ b.HasChild x c :=
    hwhole.mem_childEntities tree he hattached hx hlisted hlength
  refine ⟨⟨hwhole, ?_, fun c hc _ => ?_, fun c hc hnot => absurd (hmem.mpr hc) hnot, hlisted,
    hnodup, fun _ _ _ => ⟨rfl, rfl⟩, .refl k⟩,
    hwhole.nodup_childEntities tree he hattached hx hlisted hlength hnodup, fun c => hmem.mp⟩
  · rw [huri, if_pos rfl]
  · refine (placed.child tree hxTree hc).of_same (fun d hd => ?_) fun d hd => hchildren d
    rw [huri, if_neg (tree.ne_of_below_child hxTree hc hd)]

/-- `set_parent` moves a whole subtree, however deep it is. -/
theorem moves_setParent {v : Overrides} (hdistinct : DistinctOnBranches b e)
    (hproxies : ∀ d, b.Below e d → (b.entities d).isProxy = true) (depth : Nat) :
    MovesTrees b e depth (setParent v depth) := by
  induction depth with
  | zero =>
    intro h x old new parent _ _ hdepth
    exact absurd (hdepth x .refl) (Nat.lt_irrefl _)
  | succ depth ih =>
    intro h x old new parent whole hx hdepth placed haddress apart
    have hxTree := tree.inTree_of_below he hx
    obtain ⟨hstart, hnodup, hchildren⟩ :=
      Loop.start tree he hattached whole hx placed haddress apart
    have hfewer := whole.fewer_setParentBase hx parent
    have hother : ∀ m, b.Below e m → ¬ b.Below x m →
        ((h.setParentBase x parent).entities m) = h.entities m :=
      fun m _ hmx => setParentBase_other h fun heq => hmx (heq ▸ .refl)
    unfold setParent
    dsimp only
    generalize h.setParentBase x parent = k at hstart hnodup hchildren hfewer hother ⊢
    have hrun := hstart.run tree he (v := v) ih hdistinct hproxies
      (apart.of_same fun m hm hmx => by rw [hother m hm hmx]) hx hdepth hnodup hchildren
    generalize (k.childEntities x).foldl _ k = l at hrun ⊢
    have hchild : ∀ c, b.HasChild x c → (l.entities c).uri = new ++ relative b x c := by
      intro c hc
      rw [(hrun.done c hc List.not_mem_nil).1.uri c .refl, List.append_assoc,
        ← relative_child tree hxTree hc .refl]
    have hplaced : SubtreePlaced b l x new :=
      .of_children tree hxTree hrun.self (fun q => by
        rw [hrun.listed]
        constructor
        · rintro ⟨c, hc, rfl⟩
          exact ⟨c, hc, hchild c hc⟩
        · rintro ⟨c, hc, rfl⟩
          exact ⟨c, hc, (hchild c hc).symm⟩) hrun.nodup
        fun c hc => (hrun.done c hc List.not_mem_nil).1
    refine ⟨hrun.whole, hplaced, fun m hm hmx => ?_, hfewer.trans hrun.fewer, fun hnil d hd => ?_⟩
    · obtain ⟨huri, hlist⟩ := hrun.stays m hm hmx
      rw [hother m hm hmx] at huri hlist
      exact ⟨huri, hlist⟩
    · rcases Relation.ReflTransGen.cases_head hd with rfl | ⟨c, hc, hcd⟩
      · intro d hd y hy
        have hfound := hrun.whole.found d (hx.trans hd)
        rw [hplaced.uri d hd, hnil, List.nil_append, hy] at hfound
        exact Option.some.inj hfound ▸ hx.trans hd
      · exact (hrun.done c hc List.not_mem_nil).2 d hcd

end Attached

/-! ## An entity is taken off its parent -/

/-- The whole subtree is at the root, and nothing else has come there. -/
structure Detached (h : ZstHierarchy) (e : EntityId) (k : ZstHierarchy) : Prop where
  whole : Whole h e k
  placed : SubtreePlaced h k e []
  fewer : Fewer h e h k
  swept : ∀ d, h.Below e d → Swept h e k d

section Detach

variable {v : Overrides} (tree : RegisteredTree h) (he : h.InTree e)

include tree he

theorem Whole.start : Whole h e h where
  edit := .refl h
  registered _ hd := tree.registered (tree.inTree_of_below he hd)
  found _ hd := tree.inTree_of_below he hd
  keyed q d _ hq := (tree.keyed q d hq).1
  outside _ _ := rfl
  moved _ _ := Or.inl rfl
  lookup _ := Or.inl rfl

theorem SubtreePlaced.start : SubtreePlaced h h e (h.entities e).uri.dropLast := by
  refine ⟨fun d hd => uri_eq tree he hd, fun d hd q => ?_,
    fun d hd => tree.nodup d (tree.inTree_of_below he hd)⟩
  have hdTree := tree.inTree_of_below he hd
  constructor
  · intro hq
    obtain ⟨c, s, hlookup, -, -⟩ := tree.child d hdTree q hq
    have hc : h.HasChild d c := ⟨q, hq, hlookup⟩
    refine ⟨c, hc, ?_⟩
    rw [← uri_eq tree he (hd.tail hc), (tree.keyed q c hlookup).1]
  · rintro ⟨c, ⟨q', hq', hlookup⟩, rfl⟩
    have hc : h.HasChild d c := ⟨q', hq', hlookup⟩
    rw [← uri_eq tree he (hd.tail hc), (tree.keyed q' c hlookup).1]
    exact hq'

/-- The name of the entity is in its path once only. -/
theorem SubtreesApart.start (hdistinct : DistinctOnBranches h e) {old : ZstURI} (hold : old ≠ []) :
    SubtreesApart h e k e old [] := by
  obtain ⟨s, -, hname, -⟩ := relative_self tree he
  refine ⟨fun m hm hme => absurd hm hme, fun m hm hme => absurd hm hme, fun c d hc hd heq => ?_,
    Or.inl rfl, ⟨e, .refl, .refl, fun _ _ => rfl⟩⟩
  have hs : s ∈ relative h e c := by
    rcases Relation.ReflTransGen.cases_head hc with rfl | ⟨c', hc', hcc⟩
    · rw [hname]
      exact List.mem_singleton_self s
    · rw [relative_child tree he hc' hcc, hname]
      exact List.mem_cons_self
  obtain ⟨a, old, rfl⟩ := List.exists_cons_of_ne_nil hold
  rw [List.nil_append, List.cons_append] at heq
  rcases Relation.ReflTransGen.cases_head hd with rfl | ⟨d', hd', hdd⟩
  · rw [hname] at heq
    obtain ⟨-, hnil⟩ := List.cons.inj heq
    rw [(List.append_eq_nil_iff.mp hnil).2] at hs
    cases hs
  · rw [relative_child tree he hd' hdd, hname, List.singleton_append] at heq
    obtain ⟨-, htail⟩ := List.cons.inj heq
    refine not_mem_relative tree hdistinct he .refl hd' .refl hdd hname ?_
    rw [← htail]
    exact List.mem_append_right old hs

/-- `destroy_entity_complete` takes an entity off its parent. -/
theorem detached_removeFromParent (hnext : ∀ d, h.InTree d → d < h.next)
    (hparent : h.parent e = some p) (hdistinct : DistinctOnBranches h e)
    (hproxies : ∀ d, h.Below e d → (h.entities d).isProxy = true) :
    Detached h e (removeFromParent v h e) := by
  obtain ⟨hlookup, hkind, hmem⟩ := tree.parent_eq he hparent
  have hp := tree.inTree_of_lookup hlookup
  obtain ⟨c, s, -, -, huri⟩ := tree.child p hp _ hmem
  have hpe : ¬ h.Below e p := by
    intro hbelow
    have hle := (tree.prefix_of_below he hbelow).length_le
    rw [huri, List.length_append, List.length_singleton] at hle
    omega
  have hattached : (h.entities e).parentAddress ≠ [] := by
    intro hnil
    unfold ZstHierarchy.parent at hparent
    rw [if_pos hnil] at hparent
    cases hparent
  have hold : (h.entities e).uri.dropLast ≠ [] := by
    rw [huri, List.dropLast_concat]
    exact (tree.segments p hp).1
  have hdepth : ∀ d, h.Below e d →
      (h.entities d).uri.length < (h.entities e).uri.length + h.depth := by
    intro d hd
    have hle := tree.length_le_of_below hnext he hd
    unfold depth
    omega
  have hmoved : SubtreeMoved h e _ e [] _ := moves_setParent tree he hattached
      (v := v) hdistinct hproxies
    h.depth _ e _ [] none
    ((Whole.start tree he).relist p fun children => children.erase (h.entities e).uri) .refl hdepth
    ((SubtreePlaced.start tree he).relist hpe fun children => children.erase (h.entities e).uri) rfl
    (SubtreesApart.start tree he hdistinct hold)
  unfold removeFromParent
  rw [hparent]
  dsimp only
  unfold removeChild removeChildWith
  rw [if_pos hkind]
  exact ⟨hmoved.whole, hmoved.placed, hmoved.fewer, hmoved.swept rfl⟩

/-- Who is below the entity is two segments away from nothing at least. -/
theorem two_le_relative {d : EntityId} (hx : h.Below e x) (hd : h.HasChild x d) :
    2 ≤ (relative h e d).length := by
  have hxTree := tree.inTree_of_below he hx
  rcases Relation.ReflTransGen.cases_head (hx.tail hd) with rfl | ⟨c, hc, hcd⟩
  · obtain ⟨s, huri⟩ := tree.uri_of_hasChild hxTree hd
    have hle := (tree.prefix_of_below he hx).length_le
    rw [huri, List.length_append, List.length_singleton] at hle
    omega
  · have hcTree := tree.inTree_of_below he (.single hc)
    have hself := List.length_pos_iff.mpr (relative_ne_nil tree he .refl)
    have hrest := List.length_pos_iff.mpr (relative_ne_nil tree hcTree hcd)
    rw [relative_child tree he hc hcd, List.length_append]
    omega

variable (hattached : (h.entities e).parentAddress ≠ [])

include hattached

/-- The subtree is still enumerated. -/
theorem Detached.mem_childEntities (detached : Detached h e k) (hx : h.Below e x) :
    c ∈ k.childEntities x ↔ h.HasChild x c := by
  refine detached.whole.mem_childEntities tree he hattached hx (fun q => ?_) fun c hc => ?_
  · rw [detached.placed.children x hx]
    constructor
    · rintro ⟨c, hc, rfl⟩
      exact ⟨c, hc, (detached.placed.uri c (hx.tail hc)).symm⟩
    · rintro ⟨c, hc, rfl⟩
      exact ⟨c, hc, detached.placed.uri c (hx.tail hc)⟩
  · rw [detached.placed.uri c (hx.tail hc), List.nil_append]
    exact two_le_relative tree he hx hc

theorem Detached.mem_descendants (detached : Detached h e k) {n : Nat} (hx : h.Below e x)
    (hn : ∀ d, h.Below x d → (h.entities d).uri.length ≤ (h.entities x).uri.length + n) :
    d ∈ k.descendants n x ↔ h.Below x d := by
  have hxTree := tree.inTree_of_below he hx
  induction n generalizing x with
  | zero =>
    unfold descendants
    rw [List.mem_singleton]
    constructor
    · rintro rfl
      exact .refl
    · intro hd
      rcases Relation.ReflTransGen.cases_head hd with rfl | ⟨c, hc, hcd⟩
      · rfl
      · obtain ⟨s, huri⟩ := tree.uri_of_hasChild hxTree hc
        have hle := hn c (.single hc)
        rw [huri, List.length_append, List.length_singleton] at hle
        omega
  | succ n ih =>
    have hchild : ∀ c, h.HasChild x c → (d ∈ k.descendants n c ↔ h.Below c d) := by
      intro c hc
      refine ih (hx.tail hc) (fun y hy => ?_) (tree.inTree_of_below hxTree (.single hc))
      obtain ⟨s, huri⟩ := tree.uri_of_hasChild hxTree hc
      have hle := hn y (.head hc hy)
      rw [huri, List.length_append, List.length_singleton]
      omega
    unfold descendants
    rw [List.mem_cons, List.mem_flatMap]
    constructor
    · rintro (rfl | ⟨c, hc, hd⟩)
      · exact .refl
      · have hxc := (detached.mem_childEntities tree he hattached hx).mp hc
        exact .head hxc ((hchild c hxc).mp hd)
    · intro hd
      rcases Relation.ReflTransGen.cases_head hd with rfl | ⟨c, hc, hcd⟩
      · exact Or.inl rfl
      · exact Or.inr ⟨c, (detached.mem_childEntities tree he hattached hx).mpr hc,
          (hchild c hc).mpr hcd⟩

/-- `get_child_entities` lists the same entities as before. -/
theorem Detached.mem_getChildEntities (detached : Detached h e k)
    (hnext : ∀ d, h.InTree d → d < h.next) : d ∈ k.getChildEntities e ↔ h.Below e d := by
  unfold getChildEntities
  rw [detached.whole.edit.next]
  exact detached.mem_descendants tree he hattached .refl fun d hd =>
    tree.length_le_of_below hnext he hd

end Detach

end Showtime.Detaching
