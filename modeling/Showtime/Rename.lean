import Showtime.Tree
/-!
# Renaming entities

What `set_name` does to the tree around an entity. The entity and everything
below it move through temporary URIs while they are taken off and added again,
and the parent is asked to forget a path that it never knew.
-/

namespace Showtime.Rename

open ZstHierarchy

/-! ## A subtree on the move -/

section Moving

-- the subtree that moves, the parent of its root, the path that the parent
-- keeps, the last segment of every entity's URI, and the path of a client's root
variable (S : EntityId → Prop) (p : EntityId) (oldPath : ZstURI) (name : EntityId → ZstURI)
  (rootPath : Option ZstURI)

/-- Whatever URIs the entities of a subtree have for the moment, the subtree
finds none but its own entities, and the parent outside keeps a path. -/
structure Moving (h : ZstHierarchy) : Prop where
  outside : ¬ S p
  kept : oldPath ∈ (h.entities p).children
  registered : ∀ d, S d → (h.entities d).registered = true
  named : ∀ d, S d → (h.entities d).uri.last = name d ∧ name d ≠ []
  keyed : ∀ q d, h.lookup q = some d → S d → (h.entities d).uri = q
  own : ∀ d, S d → ∀ x, h.lookup (h.entities d).uri = some x → S x
  childKeys : ∀ d, S d → ∀ q ∈ (h.entities d).children, ∀ x, h.lookup q = some x → S x
  root : ∀ r, h.root = some r → ¬ S r ∧ rootPath = some (h.entities r).uri
  apart : ∀ d, S d → ∀ q ∈ (h.entities d).children, rootPath ≠ some q
  noNest : ∀ d, S d → rootPath = some (name d) → ∀ q ∈ (h.entities d).children,
    rootPath ≠ some q.last
  quiet : NoRemovalQueued h

/-- An entity of the subtree is at the path of the root for the moment. -/
def AtRoot (h : ZstHierarchy) (d : EntityId) : Prop :=
  S d ∧ rootPath = some (h.entities d).uri

/-- The two entities do not both bear the name of the root. -/
def NoNest (x d : EntityId) : Prop :=
  rootPath = some (name x) → rootPath ≠ some (name d)

end Moving

namespace Moving

variable {S : EntityId → Prop} {p : EntityId} {oldPath : ZstURI} {name name' : EntityId → ZstURI}
  {rootPath : Option ZstURI} {h k : ZstHierarchy}

theorem findEntity_eq (hm : Moving S p oldPath name rootPath h) {q : ZstURI}
    (hq : rootPath ≠ some q) : h.findEntity q = h.lookup q := by
  unfold findEntity
  cases hroot : h.root with
  | none => rfl
  | some r =>
    simp only
    split
    · rename_i huri
      rw [← huri] at hq
      exact absurd (hm.root r hroot).2 hq
    · rfl

/-- The children that a component of the subtree finds are in the subtree. -/
theorem childEntities (hm : Moving S p oldPath name rootPath h) {x d : EntityId} (hx : S x)
    (hd : d ∈ h.childEntities x) :
    S d ∧ NoNest name rootPath x d ∧ ¬ AtRoot S rootPath h d := by
  unfold ZstHierarchy.childEntities at hd
  split at hd
  · obtain ⟨q, hq, hfind⟩ := List.mem_filterMap.mp hd
    simp only [getChildByURI, hm.registered x hx, if_true] at hfind
    rw [hm.findEntity_eq (hm.apart x hx q hq)] at hfind
    have hSd := hm.childKeys x hx q hq d hfind
    have huri := hm.keyed q d hfind hSd
    refine ⟨hSd, fun hroot => ?_, fun hat => hm.apart x hx q hq (huri ▸ hat.2)⟩
    rw [← (hm.named d hSd).1, huri]
    exact hm.noNest x hx hroot q hq
  · simp at hd

/-- An entity gets another URI, and the lookup is told. -/
theorem rekey (hm : Moving S p oldPath name rootPath h) {d : EntityId} (hd : S d)
    (f : Entity → Entity) (hchildren : ∀ x, (f x).children = x.children)
    (hregistered : ∀ x, (f x).registered = x.registered)
    (hevents : ∀ x, (f x).synchronisableEvents = x.synchronisableEvents)
    (hname : ∀ e, e ≠ d → name' e = name e)
    (hlast : (f (h.entities d)).uri.last = name' d) (hne : name' d ≠ [])
    (hnest : rootPath = some (name' d) → ∀ q ∈ (h.entities d).children, rootPath ≠ some q.last) :
    Moving S p oldPath name' rootPath ((h.modify d f).updateURI d (h.entities d).uri) := by
  have hreg : ((h.modify d f).entities d).registered = true := by
    rw [modify_entities_self, hregistered, hm.registered d hd]
  have hlookup := updateURI_lookup (h.modify d f) d (h.entities d).uri hreg
  have hroot := updateURI_root (h.modify d f) d (h.entities d).uri
  have hcleanup := updateURI_cleanupOps (h.modify d f) d (h.entities d).uri
  have hentities (e : EntityId) := updateURI_entities (h.modify d f) d e (h.entities d).uri
  generalize (h.modify d f).updateURI d (h.entities d).uri = k at hlookup hroot hcleanup hentities ⊢
  rw [modify_entities_self, modify_lookup] at hlookup
  -- the entities of the new state, but for what a factory creates
  have hself : (k.entities d).uri = (f (h.entities d)).uri := by
    obtain ⟨creatables, he⟩ := hentities d
    rw [he, modify_entities_self]
  have huri (e : EntityId) (he : e ≠ d) : (k.entities e).uri = (h.entities e).uri := by
    obtain ⟨creatables, hke⟩ := hentities e
    rw [hke, modify_entities_of_ne h f he]
  have hkept (e : EntityId) : (k.entities e).children = (h.entities e).children ∧
      (k.entities e).registered = (h.entities e).registered ∧
      (k.entities e).synchronisableEvents = (h.entities e).synchronisableEvents := by
    obtain ⟨creatables, hke⟩ := hentities e
    rw [hke, modify_entities]
    split
    · rename_i hed
      rw [hed]
      exact ⟨hchildren _, hregistered _, hevents _⟩
    · exact ⟨rfl, rfl, rfl⟩
  -- an entity found now was found there before, or is the one that moved
  have hfound (q : ZstURI) (x : EntityId) (hx : k.lookup q = some x) :
      (x = d ∧ q = (k.entities d).uri) ∨ (q ≠ (h.entities d).uri ∧ h.lookup q = some x) := by
    rw [hlookup, Function.update_apply] at hx
    split at hx
    · rename_i hq
      cases hx
      exact Or.inl ⟨rfl, hq.trans hself.symm⟩
    · rw [Function.update_apply] at hx
      split at hx
      · cases hx
      · rename_i hq
        exact Or.inr ⟨hq, hx⟩
  refine ⟨hm.outside, ?_, ?_, ?_, ?_, ?_, ?_, ?_, ?_, ?_, ?_⟩
  · rw [(hkept p).1]
    exact hm.kept
  · intro e he
    rw [(hkept e).2.1]
    exact hm.registered e he
  · intro e he
    by_cases hed : e = d
    · rw [hed, hself]
      exact ⟨hlast, hne⟩
    · rw [huri e hed, hname e hed]
      exact hm.named e he
  · intro q x hx hSx
    rcases hfound q x hx with ⟨rfl, rfl⟩ | ⟨hq, hx⟩
    · rfl
    · have hold := hm.keyed q x hx hSx
      by_cases hxd : x = d
      · rw [hxd] at hold
        exact absurd hold.symm hq
      · rw [huri x hxd, hold]
  · intro e he x hx
    by_cases hed : e = d
    · rw [hed, hself, hlookup, Function.update_self] at hx
      cases hx
      exact hd
    · rcases hfound _ x hx with ⟨rfl, -⟩ | ⟨-, hx⟩
      · exact hd
      · rw [huri e hed] at hx
        exact hm.own e he x hx
  · intro e he q hq x hx
    rw [(hkept e).1] at hq
    rcases hfound q x hx with ⟨rfl, -⟩ | ⟨-, hx⟩
    · exact hd
    · exact hm.childKeys e he q hq x hx
  · intro r hr
    rw [hroot] at hr
    obtain ⟨hSr, hpath⟩ := hm.root r hr
    refine ⟨hSr, ?_⟩
    rw [huri r fun hrd => hSr (hrd ▸ hd)]
    exact hpath
  · intro e he q hq
    rw [(hkept e).1] at hq
    exact hm.apart e he q hq
  · intro e he hpath q hq
    rw [(hkept e).1] at hq
    by_cases hed : e = d
    · rw [hed] at hpath hq
      exact hnest hpath q hq
    · rw [hname e hed] at hpath
      exact hm.noNest e he hpath q hq
  · refine ⟨hcleanup.trans hm.quiet.cleanupOps, fun e event hevent => ?_⟩
    rw [(hkept e).2.2] at hevent
    exact hm.quiet.events e event hevent

/-- Some entity forgets children, or one outside the subtree changes its own. -/
theorem of_children (hm : Moving S p oldPath name rootPath h) (x : EntityId)
    (children : List ZstURI) (hkept : x = p → oldPath ∈ children)
    (hsub : S x → ∀ q ∈ children, q ∈ (h.entities x).children ∨
      ((∀ y, h.lookup q = some y → S y) ∧ rootPath ≠ some q ∧
        (rootPath = some (name x) → rootPath ≠ some q.last))) :
    Moving S p oldPath name rootPath (h.modify x fun e => { e with children }) := by
  have huri (e : EntityId) :
      ((h.modify x fun e => { e with children }).entities e).uri = (h.entities e).uri := by
    rw [modify_entities]
    split
    · rename_i hex
      rw [hex]
    · rfl
  have hregistered (e : EntityId) :
      ((h.modify x fun e => { e with children }).entities e).registered =
        (h.entities e).registered := by
    rw [modify_entities]
    split
    · rename_i hex
      rw [hex]
    · rfl
  have hevents (e : EntityId) :
      ((h.modify x fun e => { e with children }).entities e).synchronisableEvents =
        (h.entities e).synchronisableEvents := by
    rw [modify_entities]
    split
    · rename_i hex
      rw [hex]
    · rfl
  have hchildren (e : EntityId) (q : ZstURI) (he : S e)
      (hq : q ∈ ((h.modify x fun e => { e with children }).entities e).children) :
      q ∈ (h.entities e).children ∨
        ((∀ y, h.lookup q = some y → S y) ∧ rootPath ≠ some q ∧
          (rootPath = some (name e) → rootPath ≠ some q.last)) := by
    rw [modify_entities] at hq
    split at hq
    · rename_i hex
      rw [hex] at he ⊢
      exact hsub he q hq
    · exact Or.inl hq
  refine ⟨hm.outside, ?_, ?_, ?_, ?_, ?_, ?_, ?_, ?_, ?_, ?_⟩
  · rw [modify_entities]
    split
    · rename_i hpx
      exact hkept hpx.symm
    · exact hm.kept
  · intro e he
    rw [hregistered e]
    exact hm.registered e he
  · intro e he
    rw [huri e]
    exact hm.named e he
  · intro q y hy hSy
    rw [huri y]
    exact hm.keyed q y hy hSy
  · intro e he y hy
    rw [huri e] at hy
    exact hm.own e he y hy
  · intro e he q hq y hy
    rcases hchildren e q he hq with hold | hnew
    · exact hm.childKeys e he q hold y hy
    · exact hnew.1 y hy
  · intro r hr
    rw [huri r]
    exact hm.root r hr
  · intro e he q hq
    rcases hchildren e q he hq with hold | hnew
    · exact hm.apart e he q hold
    · exact hnew.2.1
  · intro e he hpath q hq
    rcases hchildren e q he hq with hold | hnew
    · exact hm.noNest e he hpath q hold
    · exact hnew.2.2 hpath
  · refine ⟨hm.quiet.cleanupOps, fun e event hevent => ?_⟩
    rw [hevents e] at hevent
    exact hm.quiet.events e event hevent

end Moving

/-- The overrides leave a moving subtree alone: requests for an activation
change no URI, and publishing changes nothing that matters here. -/
structure Bystander (v : Overrides) : Prop where
  activation : ∀ {S p oldPath name rootPath h} (d : EntityId),
    Moving S p oldPath name rootPath h → S d →
      Moving S p oldPath name rootPath (v.requestEntityActivation h d) ∧
        ∀ e, ((v.requestEntityActivation h d).entities e).uri = (h.entities e).uri
  publish : ∀ {S p oldPath name rootPath h} (d : EntityId) (path : ZstURI),
    Moving S p oldPath name rootPath h →
      Moving S p oldPath name rootPath (v.publishEntityUpdate h d path)

namespace Moving

variable {S : EntityId → Prop} {p : EntityId} {oldPath : ZstURI} {name : EntityId → ZstURI}
  {rootPath : Option ZstURI} {h k : ZstHierarchy}

theorem last_reparentedURI (u parent : ZstURI) : (reparentedURI u parent).last = u.last := by
  unfold reparentedURI
  split
  · exact ZstURI.last_last u
  · split
    · rfl
    · exact ZstURI.last_add parent u

/-- Only an entity that is named like a root and its parent as well gets the
root's path below that parent. -/
theorem reparentedURI_ne_root {u parent r : ZstURI} (hu : u.last ≠ []) (hparent : parent ≠ [])
    (hlength : r.length = 1) (hnest : parent.last = r → u.last ≠ r) :
    reparentedURI u parent ≠ r := by
  obtain ⟨v, s, hs, rfl, hlast⟩ := ZstURI.eq_append_of_last hu
  unfold reparentedURI
  rw [if_neg hparent]
  split
  · rename_i hcontains
    rintro rfl
    have hv : v = [] := by
      rw [List.length_append, List.length_singleton] at hlength
      exact List.length_eq_zero_iff.mp (by omega)
    subst hv
    have hprefix : parent <+: [s] := by
      simpa [ZstURI.contains, hparent] using hcontains
    have heq : parent = [s] :=
      hprefix.eq_of_length_le (List.length_pos_iff.mpr hparent)
    exact hnest (by rw [heq]; exact hlast) hlast
  · intro heq
    rw [hlast, ZstURI.add_singleton hparent] at heq
    rw [← heq, List.length_append, List.length_singleton] at hlength
    exact hparent (List.length_eq_zero_iff.mp (by omega))

theorem setParentBase (hm : Moving S p oldPath name rootPath h) {d : EntityId} (hd : S d)
    (parent : Option EntityId) :
    Moving S p oldPath name rootPath (h.setParentBase d parent) := by
  obtain ⟨hlast, hne⟩ := hm.named d hd
  refine hm.rekey hd _ (fun _ => rfl) (fun _ => rfl) (fun _ => rfl) (fun _ _ => rfl) ?_ hne
    (hm.noNest d hd)
  rw [last_reparentedURI, hlast]

theorem of_sameUri (huri : ∀ e, (k.entities e).uri = (h.entities e).uri) {e : EntityId}
    (hat : AtRoot S rootPath k e) : AtRoot S rootPath h e :=
  ⟨hat.1, by rw [← huri e]; exact hat.2⟩

/-- After `set_parent` of one entity only this entity can be at the root's
path, and not below a parent in the subtree. -/
theorem setParentBase_atRoot (hm : Moving S p oldPath name rootPath h)
    (hlength : ∀ r, rootPath = some r → r.length = 1) {d : EntityId} (hd : S d)
    (parent : Option EntityId) :
    (∀ e, AtRoot S rootPath (h.setParentBase d parent) e → AtRoot S rootPath h e ∨ e = d) ∧
      ∀ x, parent = some x → S x → NoNest name rootPath x d →
        ¬ AtRoot S rootPath (h.setParentBase d parent) d := by
  refine ⟨fun e hat => ?_, fun x hparent hx hnest hat => ?_⟩
  · by_cases hed : e = d
    · exact Or.inr hed
    · refine Or.inl ⟨hat.1, ?_⟩
      have hpath := hat.2
      rw [setParentBase_uri, if_neg hed] at hpath
      exact hpath
  · subst hparent
    have hpath := hat.2
    rw [setParentBase_uri, if_pos rfl, addressOf] at hpath
    obtain ⟨hlastd, hned⟩ := hm.named d hd
    obtain ⟨hlastx, hnex⟩ := hm.named x hx
    refine reparentedURI_ne_root (hlastd ▸ hned) ?_ (hlength _ hpath) ?_ rfl
    · intro hnil
      rw [hnil] at hlastx
      exact hnex hlastx.symm
    · intro hxr hdr
      rw [hlastx] at hxr
      rw [hlastd] at hdr
      exact hnest (hpath.trans (congrArg some hxr.symm)) (hpath.trans (congrArg some hdr.symm))

theorem eraseChild (hm : Moving S p oldPath name rootPath h) (x : EntityId) (q : ZstURI)
    (hq : x = p → q ≠ oldPath) :
    Moving S p oldPath name rootPath
      (h.modify x fun e => { e with children := (h.entities x).children.erase q }) := by
  refine hm.of_children x _ ?_ ?_
  · rintro rfl
    exact (List.mem_erase_of_ne (hq rfl).symm).mpr hm.kept
  · exact fun _ q' hq' => Or.inl (List.mem_of_mem_erase hq')

/-! ## Taking children off and adding them again -/

section Children

variable {v : Overrides} (hv : Bystander v)

/-- What one `set_parent` does to a moving subtree, for the proofs about the
`set_parent` of a component that contains it. -/
def SetParentSpec (S : EntityId → Prop) (p : EntityId) (oldPath : ZstURI)
    (name : EntityId → ZstURI) (rootPath : Option ZstURI) (depth : Nat)
    (setParent : ZstHierarchy → EntityId → Option EntityId → ZstHierarchy) : Prop :=
  ∀ h d parent, Moving S p oldPath name rootPath h → S d →
    Moving S p oldPath name rootPath (setParent h d parent) ∧
    (∀ e, AtRoot S rootPath (setParent h d parent) e →
      AtRoot S rootPath h e ∨ (e = d ∧ depth ≠ 0)) ∧
    ∀ x, parent = some x → S x → NoNest name rootPath x d →
      (depth = 0 → ¬ AtRoot S rootPath h d) → ¬ AtRoot S rootPath (setParent h d parent) d

variable {setParent : ZstHierarchy → EntityId → Option EntityId → ZstHierarchy} {depth : Nat}
  (hset : SetParentSpec S p oldPath name rootPath depth setParent)

include hset in
theorem removeChildWith (hm : Moving S p oldPath name rootPath h) (x : EntityId) {d : EntityId}
    (hd : S d) (hp : x = p → (h.entities d).uri ≠ oldPath) :
    Moving S p oldPath name rootPath (ZstHierarchy.removeChildWith setParent h x d) ∧
      ∀ e, AtRoot S rootPath (ZstHierarchy.removeChildWith setParent h x d) e →
        AtRoot S rootPath h e ∨ (e = d ∧ depth ≠ 0) := by
  unfold ZstHierarchy.removeChildWith
  simp only
  split
  · obtain ⟨hmoving, hat, -⟩ := hset _ d none (hm.eraseChild x _ hp) hd
    refine ⟨hmoving, fun e he => ?_⟩
    rcases hat e he with hbefore | hmoved
    · exact Or.inl (of_sameUri (fun e => by rw [modify_entities]; split <;> simp_all) hbefore)
    · exact Or.inr hmoved
  · obtain ⟨hmoving, hat, -⟩ := hset h d none hm hd
    exact ⟨hmoving, hat⟩

include hv in
theorem adoptChild (hm : Moving S p oldPath name rootPath h) (x : EntityId) {d : EntityId}
    (hd : S d) (hx : S x → NoNest name rootPath x d ∧ ¬ AtRoot S rootPath h d)
    (autoActivate : Bool) :
    Moving S p oldPath name rootPath (ZstHierarchy.adoptChild v h x d autoActivate) ∧
      ∀ e, ((ZstHierarchy.adoptChild v h x d autoActivate).entities e).uri =
        (h.entities e).uri := by
  have hemplace : Moving S p oldPath name rootPath (h.modify x fun e =>
      { e with children := ZstURI.emplace e.children (h.entities d).uri }) := by
    refine hm.of_children x (ZstURI.emplace (h.entities x).children (h.entities d).uri) ?_ ?_
    · rintro rfl
      exact (ZstURI.mem_emplace _ _ _).mpr (Or.inr hm.kept)
    · intro hSx q hq
      rcases (ZstURI.mem_emplace _ _ _).mp hq with rfl | hold
      · obtain ⟨hnest, hapart⟩ := hx hSx
        refine Or.inr ⟨hm.own d hd, fun hroot => hapart ⟨hd, hroot⟩, fun hroot => ?_⟩
        rw [(hm.named d hd).1]
        exact hnest hroot
      · exact Or.inl hold
  have huri (e : EntityId) : ((h.modify x fun e =>
      { e with children := ZstURI.emplace e.children (h.entities d).uri }).entities e).uri =
        (h.entities e).uri := by
    rw [modify_entities]
    split
    · rename_i hex
      rw [hex]
    · rfl
  unfold ZstHierarchy.adoptChild
  simp only
  generalize (h.modify x fun e =>
      { e with children := ZstURI.emplace e.children (h.entities d).uri }) = k at hemplace huri ⊢
  have hregistered := hemplace.registered d hd
  simp only [hregistered, Bool.not_true, Bool.and_false, Bool.false_eq_true, if_false]
  split
  · obtain ⟨hmoving, hsame⟩ := hv.activation d hemplace hd
    exact ⟨hmoving, fun e => (hsame e).trans (huri e)⟩
  · exact ⟨hemplace, huri⟩

include hv hset in
theorem addChildWith (hm : Moving S p oldPath name rootPath h) (x : EntityId) {d : EntityId}
    (hd : S d)
    (hx : S x → NoNest name rootPath x d ∧ (depth = 0 → ¬ AtRoot S rootPath h d))
    (autoActivate : Bool) :
    Moving S p oldPath name rootPath
      (ZstHierarchy.addChildWith v setParent h x d autoActivate) ∧
    ∀ e, AtRoot S rootPath (ZstHierarchy.addChildWith v setParent h x d autoActivate) e →
      AtRoot S rootPath h e ∧ (S x → e ≠ d) ∨ (e = d ∧ ¬ S x) := by
  obtain ⟨hmoving, hat, hapart⟩ := hset h d (some x) hm hd
  have hother : ∀ e, AtRoot S rootPath (setParent h d (some x)) e →
      AtRoot S rootPath h e ∧ (S x → e ≠ d) ∨ (e = d ∧ ¬ S x) := by
    intro e he
    by_cases hSx : S x
    · have hne : e ≠ d := by
        rintro rfl
        exact hapart x rfl hSx (hx hSx).1 (hx hSx).2 he
      rcases hat e he with hbefore | hmoved
      · exact Or.inl ⟨hbefore, fun _ => hne⟩
      · exact absurd hmoved.1 hne
    · rcases hat e he with hbefore | hmoved
      · exact Or.inl ⟨hbefore, fun h => absurd h hSx⟩
      · exact Or.inr ⟨hmoved.1, hSx⟩
  unfold ZstHierarchy.addChildWith
  split
  · split
    · -- the path is known already, so it is not the root's
      rename_i hmem
      refine ⟨hm, fun e he => ?_⟩
      by_cases hSx : S x
      · refine Or.inl ⟨he, fun _ hed => hm.apart x hSx _ hmem ?_⟩
        rw [← hed]
        exact he.2
      · exact Or.inl ⟨he, fun h => absurd h hSx⟩
    · obtain ⟨hadopt, hsame⟩ := hmoving.adoptChild hv x hd
        (fun hSx => ⟨(hx hSx).1, hapart x rfl hSx (hx hSx).1 (hx hSx).2⟩) autoActivate
      exact ⟨hadopt, fun e he => hother e (of_sameUri hsame he)⟩
  · exact ⟨hmoving, hother⟩

include hv hset in
/-- A component of the subtree takes off its children and adds them again. -/
theorem reattach (hm : Moving S p oldPath name rootPath h) {x : EntityId} (hx : S x)
    (children : List EntityId)
    (hchildren : ∀ d ∈ children, S d ∧ NoNest name rootPath x d ∧ ¬ AtRoot S rootPath h d) :
    Moving S p oldPath name rootPath (children.foldl (fun h d =>
      ZstHierarchy.addChildWith v setParent (ZstHierarchy.removeChildWith setParent h x d) x d
        true) h) ∧
    ∀ e, AtRoot S rootPath (children.foldl (fun h d =>
      ZstHierarchy.addChildWith v setParent (ZstHierarchy.removeChildWith setParent h x d) x d
        true) h) e → AtRoot S rootPath h e := by
  induction children generalizing h with
  | nil => exact ⟨hm, fun e he => he⟩
  | cons d children ih =>
    obtain ⟨hd, hnest, hapart⟩ := hchildren d (List.mem_cons_self ..)
    have hxp : x ≠ p := fun hxp => hm.outside (hxp ▸ hx)
    obtain ⟨hremoved, hatRemoved⟩ := hm.removeChildWith hset x hd fun h => absurd h hxp
    obtain ⟨hadded, hatAdded⟩ := hremoved.addChildWith hv hset x hd (fun _ => ⟨hnest, fun h0 he => by
      rcases hatRemoved d he with hbefore | ⟨-, hne⟩
      · exact hapart hbefore
      · exact hne h0⟩) true
    have hat : ∀ e, AtRoot S rootPath (ZstHierarchy.addChildWith v setParent
        (ZstHierarchy.removeChildWith setParent h x d) x d true) e → AtRoot S rootPath h e := by
      intro e he
      rcases hatAdded e he with ⟨hbefore, hne⟩ | ⟨-, hout⟩
      · rcases hatRemoved e hbefore with hold | ⟨heq, -⟩
        · exact hold
        · exact absurd heq (hne hx)
      · exact absurd hx hout
    obtain ⟨hrest, hatRest⟩ := ih hadded fun c hc => by
      obtain ⟨hSc, hnestc, hapartc⟩ := hchildren c (List.mem_cons_of_mem d hc)
      exact ⟨hSc, hnestc, fun he => hapartc (hat c he)⟩
    exact ⟨hrest, fun e he => hat e (hatRest e he)⟩

include hv in
/-- `set_parent` at any depth. -/
theorem setParent_spec (hlength : ∀ r, rootPath = some r → r.length = 1) (depth : Nat) :
    SetParentSpec S p oldPath name rootPath depth (ZstHierarchy.setParent v depth) := by
  induction depth with
  | zero =>
    intro h d parent hm hd
    exact ⟨hm, fun e he => Or.inl he, fun x _ _ _ h0 => h0 rfl⟩
  | succ depth ih =>
    intro h d parent hm hd
    have hbase := hm.setParentBase hd parent
    obtain ⟨hatBase, hapartBase⟩ := hm.setParentBase_atRoot hlength hd parent
    obtain ⟨hloop, hatLoop⟩ := hbase.reattach hv ih hd _ fun c hc => hbase.childEntities hd hc
    refine ⟨hloop, fun e he => ?_, fun x hparent hx hnest _ he => ?_⟩
    · rcases hatBase e (hatLoop e he) with hbefore | heq
      · exact Or.inl hbefore
      · exact Or.inr ⟨heq, Nat.succ_ne_zero depth⟩
    · exact hapartBase x hparent hx hnest (hatLoop d he)

include hv in
theorem removeChild (hlength : ∀ r, rootPath = some r → r.length = 1)
    (hm : Moving S p oldPath name rootPath h) (x : EntityId) {d : EntityId} (hd : S d)
    (hp : x = p → (h.entities d).uri ≠ oldPath) :
    Moving S p oldPath name rootPath (ZstHierarchy.removeChild v h x d) :=
  (hm.removeChildWith (setParent_spec hv hlength h.depth) x hd hp).1

include hv in
theorem addChild (hlength : ∀ r, rootPath = some r → r.length = 1)
    (hm : Moving S p oldPath name rootPath h) (x : EntityId) {d : EntityId} (hd : S d)
    (hx : S x → NoNest name rootPath x d) :
    Moving S p oldPath name rootPath (ZstHierarchy.addChild v h x d) :=
  (hm.addChildWith hv (setParent_spec hv hlength h.depth) x hd
    (fun hSx => ⟨hx hSx, fun h0 => absurd h0 (Nat.succ_ne_zero h.next)⟩) true).1

include hv in
theorem renameChildren (hlength : ∀ r, rootPath = some r → r.length = 1)
    (hm : Moving S p oldPath name rootPath h) {x : EntityId} (hx : S x) (children : List EntityId)
    (hchildren : ∀ d ∈ children, S d ∧ NoNest name rootPath x d) :
    Moving S p oldPath name rootPath (children.foldl (fun h d =>
      ZstHierarchy.addChild v (ZstHierarchy.removeChild v h x d) x d) h) := by
  induction children generalizing h with
  | nil => exact hm
  | cons d children ih =>
    obtain ⟨hd, hnest⟩ := hchildren d (List.mem_cons_self ..)
    have hxp : x ≠ p := fun hxp => hm.outside (hxp ▸ hx)
    have hremoved := hm.removeChild hv hlength x hd fun h => absurd h hxp
    have hadded := hremoved.addChild hv hlength x hd fun _ => hnest
    exact ih hadded fun c hc => hchildren c (List.mem_cons_of_mem d hc)

end Children

end Moving

/-! ## Renaming in a registered tree -/

/-- The prefix of a path is exchanged. -/
def renamedPath (oldPath newPath q : ZstURI) : ZstURI :=
  if oldPath.isPrefixOf q then newPath ++ q.drop oldPath.length else q

/-- The second hierarchy is the first one after a child of `p` and everything
below it got a new prefix for its paths. -/
structure Renamed (h k : ZstHierarchy) (e p : EntityId) (oldPath newPath : ZstURI) : Prop where
  lookup : ∀ q, k.lookup q =
    if newPath.isPrefixOf q then h.lookup (oldPath ++ q.drop newPath.length)
    else if oldPath.isPrefixOf q then none
    else h.lookup q
  parentChildren : ∀ q, q ∈ (k.entities p).children ↔
    q = newPath ∨ q ∈ (h.entities p).children ∧ q ≠ oldPath
  children : ∀ d, h.Below e d → ∀ q, q ∈ (k.entities d).children ↔
    ∃ c ∈ (h.entities d).children, q = renamedPath oldPath newPath c

/-- The path of a client's own performer. -/
def clientPath (h : ZstHierarchy) : Option ZstURI :=
  h.root.map fun r => (h.entities r).uri

/-- Neither the old nor the new names put two entities in a row below `e` that
both bear the name of the client's own performer. -/
def NoNestAfter (h : ZstHierarchy) (e : EntityId) (newName : ZstURI) : Prop :=
  ∀ x d, h.Below e x → h.HasChild x d →
    (clientPath h = some (h.entities x).uri.last ∨ (x = e ∧ clientPath h = some newName)) →
      clientPath h ≠ some (h.entities d).uri.last

theorem last_ne_nil {u : ZstURI} (hu : u ≠ []) (hsegments : "" ∉ u) : u.last ≠ [] := by
  rcases List.eq_nil_or_concat u with rfl | ⟨v, s, rfl⟩
  · exact absurd rfl hu
  · rw [List.concat_eq_append] at hsegments ⊢
    rw [ZstURI.last_append v (fun hs => hsegments (by simp [hs]))]
    simp

section Tree

variable {h : ZstHierarchy} (tree : RegisteredTree h) {e p : EntityId}

include tree

/-- A parent's URI is its child's without the last segment. -/
theorem uri_of_parent (he : h.InTree e) (hparent : h.parent e = some p) :
    h.InTree p ∧ (h.entities e).parentAddress = (h.entities p).uri ∧
      ∃ s, (h.entities e).uri = (h.entities p).uri ++ [s] := by
  obtain ⟨hlookup, -, hmem⟩ := tree.parent_eq he hparent
  have hp := tree.inTree_of_lookup hlookup
  obtain ⟨c, s, -, -, huri⟩ := tree.child p hp _ hmem
  exact ⟨hp, (tree.keyed _ p hlookup).1.symm, s, huri⟩

theorem clientPath_length {r : ZstURI} (hr : clientPath h = some r) : r.length = 1 := by
  unfold clientPath at hr
  obtain ⟨root, hroot, rfl⟩ := Option.map_eq_some_iff.mp hr
  obtain ⟨hin, haddress⟩ := tree.root root hroot
  exact tree.top root hin haddress

theorem moving_start (hquiet : NoRemovalQueued h) (he : h.InTree e) (hparent : h.parent e = some p)
    {newName : ZstURI} (hnest : NoNestAfter h e newName) :
    Moving (h.Below e) p (h.entities e).uri (fun d => (h.entities d).uri.last) (clientPath h) h := by
  obtain ⟨hp, -, s, huri⟩ := uri_of_parent tree he hparent
  have hlong (d : EntityId) (hd : h.Below e d) :
      (h.entities p).uri.length < (h.entities d).uri.length := by
    have hprefix := (tree.prefix_of_below he hd).length_le
    rw [huri, List.length_append, List.length_singleton] at hprefix
    omega
  have hpositive : 0 < (h.entities p).uri.length :=
    List.length_pos_iff.mpr (tree.segments p hp).1
  refine ⟨?_, (tree.parent_eq he hparent).2.2, ?_, ?_, ?_, ?_, ?_, ?_, ?_, ?_, hquiet⟩
  · intro hbelow
    exact lt_irrefl _ (hlong p hbelow)
  · exact fun d hd => tree.registered (tree.inTree_of_below he hd)
  · intro d hd
    obtain ⟨hne, hsegments⟩ := tree.segments d (tree.inTree_of_below he hd)
    exact ⟨rfl, last_ne_nil hne hsegments⟩
  · exact fun q d hlookup _ => (tree.keyed q d hlookup).1
  · intro d hd x hx
    have hin := tree.inTree_of_below he hd
    unfold InTree at hin
    rw [hin] at hx
    cases hx
    exact hd
  · exact fun d hd q hq x hx => hd.tail ⟨q, hq, hx⟩
  · intro r hr
    refine ⟨fun hbelow => ?_, by rw [clientPath, hr]; rfl⟩
    obtain ⟨hin, haddress⟩ := tree.root r hr
    have hone := tree.top r hin haddress
    have := hlong r hbelow
    omega
  · intro d hd q hq hroot
    obtain ⟨c, s', -, -, rfl⟩ := tree.child d (tree.inTree_of_below he hd) q hq
    have hone := clientPath_length tree hroot
    rw [List.length_append, List.length_singleton] at hone
    have := hlong d hd
    omega
  · intro d hd hname q hq
    obtain ⟨c, s', hlookup, -, -⟩ := tree.child d (tree.inTree_of_below he hd) q hq
    have hlast := hnest d c hd ⟨q, hq, hlookup⟩ (Or.inl hname)
    rw [(tree.keyed q c hlookup).1] at hlast
    exact hlast

/-- After the entity got its new URI it is still found below its parent. -/
theorem parent_renamed (he : h.InTree e) (hparent : h.parent e = some p) (n : String) :
    ((h.modify e fun x => { x with uri := (h.entities p).uri.add [n] }).updateURI e
      (h.entities e).uri).parent e = some p := by
  obtain ⟨hp, haddress, s, huri⟩ := uri_of_parent tree he hparent
  have hne := (tree.segments p hp).1
  have hep : p ≠ e := by
    rintro rfl
    exact absurd (congrArg List.length huri) (by simp)
  have hreg : ((h.modify e fun x =>
      { x with uri := (h.entities p).uri.add [n] }).entities e).registered = true := by
    rw [modify_entities_self]
    exact tree.registered he
  have hlookup := updateURI_lookup (h.modify e fun x =>
    { x with uri := (h.entities p).uri.add [n] }) e (h.entities e).uri hreg
  have hroot := updateURI_root (h.modify e fun x =>
    { x with uri := (h.entities p).uri.add [n] }) e (h.entities e).uri
  have hentities (d : EntityId) := updateURI_entities (h.modify e fun x =>
    { x with uri := (h.entities p).uri.add [n] }) e d (h.entities e).uri
  generalize (h.modify e fun x => { x with uri := (h.entities p).uri.add [n] }).updateURI e
    (h.entities e).uri = k at hlookup hroot hentities ⊢
  obtain ⟨creatables, hke⟩ := hentities e
  rw [modify_entities_self] at hlookup hke
  rw [modify_lookup, ZstURI.add_singleton hne] at hlookup
  have hfound : k.lookup (h.entities p).uri = some p := by
    rw [hlookup, Function.update_of_ne, Function.update_of_ne]
    · exact hp
    · rw [huri]
      simp
    · simp
  unfold ZstHierarchy.parent
  simp only [hke, haddress, if_neg hne, tree.registered he, if_true]
  unfold findEntity
  rw [hroot]
  cases hr : h.root with
  | none => simp only [modify_root, hr, hfound]
  | some r =>
    simp only [modify_root, hr]
    split
    · rename_i hpath
      obtain ⟨hin, haddressr⟩ := tree.root r hr
      obtain ⟨creatables', hkr⟩ := hentities r
      have hre : r ≠ e := by
        rintro rfl
        rw [haddressr] at haddress
        exact hne haddress.symm
      rw [hkr, modify_entities_of_ne h _ hre] at hpath
      unfold InTree at hin hp
      rw [← hpath] at hp
      exact hin.symm.trans hp
    · exact hfound

/-- The parent keeps the old path, whatever happens to the subtree. -/
theorem kept_setName {v : Overrides} (hv : Bystander v) (hquiet : NoRemovalQueued h)
    (he : h.InTree e)
    (hparent : h.parent e = some p) {n : String} (hn : n ≠ "")
    (hfree : h.lookup ((h.entities p).uri.add [n]) = none) (hnest : NoNestAfter h e [n]) :
    (h.entities e).uri ∈ ((setName v h e [n]).entities p).children := by
  obtain ⟨hp, haddress, s, huri⟩ := uri_of_parent tree he hparent
  obtain ⟨hne, hsegments⟩ := tree.segments p hp
  have hstart := moving_start tree hquiet he hparent hnest
  have hlength : ∀ r, clientPath h = some r → r.length = 1 :=
    fun r hr => clientPath_length tree hr
  -- the names below, with the new name of the entity itself
  let name : EntityId → ZstURI :=
    Function.update (fun d => (h.entities d).uri.last) e [n]
  have hbelow : h.Below e e := Relation.ReflTransGen.refl
  have hnewLast : ((h.entities p).uri.add [n]).last = [n] := by
    rw [ZstURI.add_singleton hne]
    exact ZstURI.last_append _ hn
  have hrenamed : Moving (h.Below e) p (h.entities e).uri name (clientPath h)
      ((h.modify e fun x => { x with uri := (h.entities p).uri.add [n] }).updateURI e
        (h.entities e).uri) := by
    refine hstart.rekey hbelow _ (fun _ => rfl) (fun _ => rfl) (fun _ => rfl)
      (fun d hd => Function.update_of_ne hd _ _) ?_ ?_ ?_
    · rw [show name e = [n] from Function.update_self ..]
      exact hnewLast
    · rw [show name e = [n] from Function.update_self ..]
      simp
    · intro hroot q hq
      rw [show name e = [n] from Function.update_self ..] at hroot
      obtain ⟨c, s', hlookup, -, -⟩ := tree.child e he q hq
      have hlast := hnest e c hbelow ⟨q, hq, hlookup⟩ (Or.inr ⟨rfl, hroot⟩)
      rw [(tree.keyed q c hlookup).1] at hlast
      exact hlast
  have hchildren : ∀ d ∈ h.childEntities e, h.Below e d ∧ NoNest name (clientPath h) e d := by
    intro d hd
    obtain ⟨hbelowd, -, -⟩ := hstart.childEntities hbelow hd
    have hchild := tree.hasChild_of_mem hd
    refine ⟨hbelowd, fun hroot => ?_⟩
    rw [show name e = [n] from Function.update_self ..] at hroot
    have hde : d ≠ e := by
      rintro rfl
      obtain ⟨s', huri'⟩ := tree.uri_of_hasChild he hchild
      exact absurd (congrArg List.length huri') (by simp)
    rw [show name d = (h.entities d).uri.last from Function.update_of_ne hde _ _]
    exact hnest e d hbelow hchild (Or.inr ⟨rfl, hroot⟩)
  have hmoved := parent_renamed tree he hparent n
  have hpath : (h.entities e).uri.parent = (h.entities p).uri := by
    rw [huri]
    exact ZstURI.parent_append (fun hp => hsegments (by rw [hp]; simp)) s
  have hbase : Moving (h.Below e) p (h.entities e).uri name (clientPath h)
      (setNameBase v h e [n]) := by
    unfold setNameBase
    simp only [hparent, Option.isSome_some, if_true, hpath, hmoved]
    refine hv.publish e _ ?_
    refine Moving.addChild hv hlength ?_ p hbelow fun hout => absurd hout hrenamed.outside
    refine hrenamed.removeChild hv hlength p hbelow fun _ => ?_
    rw [updateURI_uri, modify_entities_self]
    intro (hsame : (h.entities p).uri.add [n] = (h.entities e).uri)
    rw [hsame] at hfree
    unfold InTree at he
    rw [hfree] at he
    cases he
  have hend := hbase.renameChildren hv hlength hbelow (h.childEntities e) hchildren
  exact hend.kept

/-- `set_name` never leaves the tree as a renaming should. -/
theorem not_renamed_of_bystander {v : Overrides} (hv : Bystander v) (hquiet : NoRemovalQueued h)
    (he : h.InTree e) (hparent : h.parent e = some p) {n : String} (hn : n ≠ "")
    (hfree : h.lookup ((h.entities p).uri.add [n]) = none) (hnest : NoNestAfter h e [n]) :
    ¬ Renamed h (setName v h e [n]) e p (h.entities e).uri ((h.entities p).uri.add [n]) := by
  intro hrenamed
  have hkept := kept_setName tree hv hquiet he hparent hn hfree hnest
  rcases (hrenamed.parentChildren _).mp hkept with hsame | ⟨-, hother⟩
  · rw [← hsame] at hfree
    unfold InTree at he
    rw [hfree] at he
    cases he
  · exact hother rfl

end Tree

/-! ## The stage and the clients leave a moving subtree alone -/

theorem stage_bystander : Bystander stageOverrides :=
  ⟨fun _ hm _ => ⟨hm, fun _ => rfl⟩, fun _ _ hm => hm⟩

/-- What the constructor gave an entity, and its place and its activation leave alone. -/
def built (x : Entity) : Entity :=
  { x with
    uri := []
    parentAddress := []
    children := []
    registered := false
    creatables := []
    sessionAdaptor := false
    syncStatus := .deactivated
    synchronisableEvents := []
    canFire := false }

/-- The second hierarchy differs from the first in nothing that a move looks
at, except that entities of the subtree may have been registered and put into the
lookup. -/
structure Settles (S : EntityId → Prop) (h k : ZstHierarchy) : Prop where
  uri : ∀ e, (k.entities e).uri = (h.entities e).uri
  children : ∀ e, (k.entities e).children = (h.entities e).children
  registered : ∀ e, (h.entities e).registered = true → (k.entities e).registered = true
  enrolled : ∀ e, (k.entities e).registered = true → (h.entities e).registered = true ∨ S e
  lookup : ∀ q x, k.lookup q = some x → h.lookup q = some x ∨ S x ∧ (h.entities x).uri = q
  kept : ∀ q, h.lookup q ≠ none → k.lookup q ≠ none
  root : k.root = h.root
  quiet : NoRemovalQueued h → NoRemovalQueued k
  built : ∀ e, built (k.entities e) = built (h.entities e)

/-- The children that some entities list are found among them. -/
def Closed (S : EntityId → Prop) (h : ZstHierarchy) : Prop :=
  ∀ d, S d → ∀ q ∈ (h.entities d).children, ∀ x, h.findEntity q = some x → S x

theorem Moving.closed {S : EntityId → Prop} {p : EntityId} {oldPath : ZstURI}
    {name : EntityId → ZstURI} {rootPath : Option ZstURI} {h : ZstHierarchy}
    (hm : Moving S p oldPath name rootPath h) : Closed S h := by
  intro d hd q hq x hx
  rw [hm.findEntity_eq (hm.apart d hd q hq)] at hx
  exact hm.childKeys d hd q hq x hx

namespace Settles

variable {S : EntityId → Prop} {p : EntityId} {oldPath : ZstURI} {name : EntityId → ZstURI}
  {rootPath : Option ZstURI} {h k l : ZstHierarchy}

theorem refl (h : ZstHierarchy) : Settles S h h :=
  ⟨fun _ => rfl, fun _ => rfl, fun _ hr => hr, fun _ hr => Or.inl hr, fun _ _ hx => Or.inl hx,
    fun _ hq => hq, rfl, fun hq => hq, fun _ => rfl⟩

theorem trans (hk : Settles S h k) (kl : Settles S k l) : Settles S h l := by
  refine ⟨fun e => (kl.uri e).trans (hk.uri e), fun e => (kl.children e).trans (hk.children e),
    fun e hr => kl.registered e (hk.registered e hr),
    fun e hr => (kl.enrolled e hr).elim (hk.enrolled e) Or.inr, fun q x hx => ?_,
    fun q hq => kl.kept q (hk.kept q hq), kl.root.trans hk.root,
    fun hq => kl.quiet (hk.quiet hq), fun e => (kl.built e).trans (hk.built e)⟩
  rcases kl.lookup q x hx with hx | ⟨hSx, huri⟩
  · exact hk.lookup q x hx
  · exact Or.inr ⟨hSx, (hk.uri x).symm.trans huri⟩

theorem moving (hk : Settles S h k) (hm : Moving S p oldPath name rootPath h) :
    Moving S p oldPath name rootPath k := by
  refine ⟨hm.outside, ?_, ?_, ?_, ?_, ?_, ?_, ?_, ?_, ?_, hk.quiet hm.quiet⟩
  · rw [hk.children]
    exact hm.kept
  · exact fun d hd => hk.registered d (hm.registered d hd)
  · intro d hd
    rw [hk.uri]
    exact hm.named d hd
  · intro q d hd hSd
    rw [hk.uri]
    rcases hk.lookup q d hd with hd | ⟨-, huri⟩
    · exact hm.keyed q d hd hSd
    · exact huri
  · intro d hd x hx
    rw [hk.uri] at hx
    rcases hk.lookup _ x hx with hx | ⟨hSx, -⟩
    · exact hm.own d hd x hx
    · exact hSx
  · intro d hd q hq x hx
    rw [hk.children] at hq
    rcases hk.lookup q x hx with hx | ⟨hSx, -⟩
    · exact hm.childKeys d hd q hq x hx
    · exact hSx
  · intro r hr
    rw [hk.root] at hr
    rw [hk.uri]
    exact hm.root r hr
  · intro d hd q hq
    rw [hk.children] at hq
    exact hm.apart d hd q hq
  · intro d hd hpath q hq
    rw [hk.children] at hq
    exact hm.noNest d hd hpath q hq

theorem closed (hk : Settles S h k) (hclosed : Closed S h) : Closed S k := by
  intro d hd q hq x hx
  rw [hk.children] at hq
  have hbefore := hclosed d hd q hq x
  unfold findEntity at hx hbefore
  rw [hk.root] at hx
  have hlookup (hx : k.lookup q = some x) (hbefore : h.lookup q = some x → S x) : S x :=
    (hk.lookup q x hx).elim hbefore And.left
  cases hroot : h.root with
  | none =>
    rw [hroot] at hx hbefore
    exact hlookup hx hbefore
  | some r =>
    rw [hroot] at hx hbefore
    dsimp only at hx hbefore
    rw [hk.uri] at hx
    split at hx
    · rename_i hpath
      rw [if_pos hpath] at hbefore
      exact hbefore hx
    · rename_i hpath
      rw [if_neg hpath] at hbefore
      exact hlookup hx hbefore

/-- Only queues change, and nothing is put in front of the reaper. -/
theorem of_entities (hentities : k.entities = h.entities) (hlookup : k.lookup = h.lookup)
    (hroot : k.root = h.root) (hcleanup : k.cleanupOps = h.cleanupOps) : Settles S h k := by
  have hentity (e : EntityId) : k.entities e = h.entities e := congrFun hentities e
  refine ⟨fun e => ?_, fun e => ?_, fun e hr => ?_, fun e hr => ?_, fun q x hx => ?_,
    fun q hq => ?_, hroot, fun hq => ⟨hcleanup.trans hq.cleanupOps, fun e event hevent => ?_⟩,
    fun e => ?_⟩
  · rw [hentity]
  · rw [hentity]
  · rw [hentity, hr]
  · rw [hentity] at hr
    exact Or.inl hr
  · rw [hlookup] at hx
    exact Or.inl hx
  · rw [hlookup]
    exact hq
  · rw [hentity] at hevent
    exact hq.events e event hevent
  · rw [hentity]

theorem of_modify (h : ZstHierarchy) (e : EntityId) (f : Entity → Entity)
    (huri : (f (h.entities e)).uri = (h.entities e).uri)
    (hchildren : (f (h.entities e)).children = (h.entities e).children)
    (hregistered : (h.entities e).registered = true → (f (h.entities e)).registered = true)
    (henrolled : (f (h.entities e)).registered = true → (h.entities e).registered = true ∨ S e)
    (hevents : ∀ event ∈ (f (h.entities e)).synchronisableEvents,
      event ∈ (h.entities e).synchronisableEvents ∨ event = .activated)
    (hbuilt : Rename.built (f (h.entities e)) = Rename.built (h.entities e)) :
    Settles S h (h.modify e f) := by
  refine ⟨fun d => ?_, fun d => ?_, fun d => ?_, fun d => ?_, fun _ _ hx => Or.inl hx,
    fun _ hq => hq, rfl, fun hq => ?_, fun d => ?_⟩
  · rw [modify_entities]
    split
    · rename_i hde
      rw [hde, huri]
    · rfl
  · rw [modify_entities]
    split
    · rename_i hde
      rw [hde, hchildren]
    · rfl
  · rw [modify_entities]
    split
    · rename_i hde
      rw [hde]
      exact hregistered
    · exact fun hr => hr
  · rw [modify_entities]
    split
    · rename_i hde
      rw [hde]
      exact henrolled
    · exact Or.inl
  · refine ⟨hq.cleanupOps, fun d event hevent => ?_⟩
    rw [modify_entities] at hevent
    split at hevent
    · rcases hevents event hevent with hold | hnew
      · exact hq.events e event hold
      · exact Or.inl hnew
    · exact hq.events d event hevent
  · rw [modify_entities]
    split
    · rename_i hde
      rw [hde, hbuilt]
    · rfl

theorem foldl {α : Type} {f : ZstHierarchy → α → ZstHierarchy} (items : List α)
    (hf : ∀ h, ∀ a ∈ items, Settles S h (f h a)) (h : ZstHierarchy) :
    Settles S h (items.foldl f h) := by
  induction items generalizing h with
  | nil => exact .refl h
  | cons a items ih =>
    exact (hf h a (List.mem_cons_self ..)).trans
      (ih (fun h b hb => hf h b (List.mem_cons_of_mem a hb)) (f h a))

theorem addEntityToLookup (h : ZstHierarchy) {e : EntityId} (he : S e) :
    Settles S h (h.addEntityToLookup e) := by
  refine ⟨fun _ => rfl, fun _ => rfl, fun _ hr => hr, fun _ hr => Or.inl hr, fun q x hx => ?_,
    fun q hq => ?_, rfl, fun hq => ⟨hq.1, hq.2⟩, fun _ => rfl⟩
  swap
  · simp only [ZstHierarchy.addEntityToLookup, Function.update_apply]
    split
    · exact Option.some_ne_none e
    · exact hq
  simp only [ZstHierarchy.addEntityToLookup, Function.update_apply] at hx
  split at hx
  · rename_i hquri
    cases hx
    exact Or.inr ⟨he, hquri.symm⟩
  · exact Or.inl hx

theorem registerEntity (h : ZstHierarchy) {e : EntityId} (he : S e) :
    Settles S h (h.registerEntity e) :=
  (addEntityToLookup h he).trans
    (of_modify _ e _ rfl rfl (fun _ => rfl) (fun _ => Or.inr he) (fun _ hevent => Or.inl hevent)
      rfl)

theorem setActivationStatus (h : ZstHierarchy) (e : EntityId) (status : ZstSyncStatus) :
    Settles S h (h.setActivationStatus e status) :=
  of_modify h e _ rfl rfl (fun hr => hr) Or.inl (fun _ hevent => Or.inl hevent) rfl

theorem synchronisableHasEvent (h : ZstHierarchy) (e : EntityId) :
    Settles S h (h.synchronisableHasEvent e) := by
  unfold ZstHierarchy.synchronisableHasEvent
  split
  · exact of_entities rfl rfl rfl rfl
  · exact .refl h

theorem enqueueActivation (h : ZstHierarchy) (e : EntityId) :
    Settles S h (h.enqueueActivation e) := by
  unfold ZstHierarchy.enqueueActivation
  split
  · have hdefer : Settles S (h.setActivationStatus e .activationQueued)
        ((h.setActivationStatus e .activationQueued).deferEvents e [.activated]) := by
      refine of_modify _ e _ rfl rfl (fun hr => hr) Or.inl (fun event hevent => ?_) rfl
      rcases List.mem_append.mp hevent with hold | hnew
      · exact Or.inl hold
      · exact Or.inr (List.mem_singleton.mp hnew)
    exact ((setActivationStatus h e _).trans hdefer).trans (synchronisableHasEvent _ e)
  · exact .refl h

theorem descendants (hclosed : Closed S h) (depth : Nat) {d : EntityId} (hd : S d) :
    ∀ c ∈ h.descendants depth d, S c := by
  induction depth generalizing d with
  | zero =>
    intro c hc
    rw [List.mem_singleton.mp hc]
    exact hd
  | succ depth ih =>
    intro c hc
    rcases List.mem_cons.mp hc with rfl | hc
    · exact hd
    · obtain ⟨x, hx, hcx⟩ := List.mem_flatMap.mp hc
      refine ih ?_ c hcx
      unfold ZstHierarchy.childEntities at hx
      split at hx
      · obtain ⟨q, hq, hfind⟩ := List.mem_filterMap.mp hx
        unfold getChildByURI at hfind
        split at hfind
        · exact hclosed d hd q hq x hfind
        · cases hfind
      · cases hx

theorem getChildEntities (hclosed : Closed S h) {d : EntityId} (hd : S d) :
    ∀ c ∈ h.getChildEntities d, S c :=
  descendants hclosed h.next hd

theorem onEntityArriving (h : ZstHierarchy) (e : EntityId) :
    Settles S h (ZstClientHierarchy.onEntityArriving h e) := by
  refine .trans (foldl _ (fun h c _ => ?_) h) (foldl _ (fun h c _ => ?_) _)
  · exact of_modify h c _ rfl rfl (fun hr => hr) Or.inl (fun _ hevent => Or.inl hevent) rfl
  · unfold ZstClientHierarchy.initArrivingPlug
    split
    · exact of_modify h c _ rfl rfl (fun hr => hr) Or.inl (fun _ hevent => Or.inl hevent) rfl
    · exact .refl h

theorem of_freedAccess (h : ZstHierarchy) (b : Bool) : Settles S h { h with freedAccess := b } :=
  of_entities rfl rfl rfl rfl

theorem activateEntityComplete (hclosed : Closed S h) {d : EntityId} (hd : S d) :
    Settles S h (ZstClientHierarchy.activateEntityComplete h d) := by
  refine .trans (foldl _ (fun h c hc => ?_) h) (foldl _ (fun h c _ => onEntityArriving h c) _)
  refine .trans ?_ (enqueueActivation _ c)
  exact (addEntityToLookup h (getChildEntities hclosed hd c hc)).trans (setActivationStatus _ c _)

section Client

variable (v : Overrides) (link : StageLink)

theorem publish (h : ZstHierarchy) (message : Outgoing) :
    Settles S h (ZstClientHierarchy.publish link h message) := by
  unfold ZstClientHierarchy.publish
  split
  · exact of_entities rfl rfl rfl rfl
  · exact .refl h

/-- A request for an activation settles, whatever the stage answers. -/
theorem request (hclosed : Closed S h) {d : EntityId} (hd : S d) (content : Content)
    (behaviour : SendBehaviour) :
    Settles S h (ZstClientHierarchy.request v link h content behaviour
      (.entityActivated d none)) := by
  unfold ZstClientHierarchy.request
  split
  · split
    · have hsend := publish (S := S) link h { target := 0, content }
      refine hsend.trans ?_
      unfold ZstClientHierarchy.onRecvResponse
      simp only
      split
      · exact activateEntityComplete (hsend.closed hclosed) hd
      · exact .refl _
    · exact publish link h _
  · exact .refl h

theorem requests (hclosed : Closed S h) {d : EntityId} (hd : S d) (behaviour : SendBehaviour)
    (children : List EntityId) :
    Settles S h (children.foldl (fun h c =>
      ZstClientHierarchy.request v link h (.entityCreateRequest (h.entities c).serialize) behaviour
        (.entityActivated d none)) h) := by
  induction children generalizing h with
  | nil => exact .refl h
  | cons c children ih =>
    have hrequest := request v link hclosed hd
      (.entityCreateRequest (h.entities c).serialize) behaviour
    exact hrequest.trans (ih (hrequest.closed hclosed))

/-- The events that are queued here do not destroy anything. -/
theorem processOwnEvents (fuel : Nat) (h : ZstHierarchy) (hquiet : NoRemovalQueued h)
    (e : EntityId) :
    Settles S h (ZstHierarchy.processOwnEvents v fuel h e) := by
  induction fuel generalizing h with
  | zero => exact .refl h
  | succ fuel ih =>
    unfold ZstHierarchy.processOwnEvents
    cases hevents : (h.entities e).synchronisableEvents with
    | nil => exact .refl h
    | cons event rest =>
      have hpop : Settles S h (h.modify e fun x => { x with synchronisableEvents := rest }) := by
        refine of_modify h e _ rfl rfl (fun hr => hr) Or.inl (fun event' hevent => Or.inl ?_) rfl
        rw [hevents]
        exact List.mem_cons_of_mem event hevent
      have hevent : Settles S (h.modify e fun x => { x with synchronisableEvents := rest })
          (processEvent v (h.modify e fun x => { x with synchronisableEvents := rest }) e
            event) := by
        rcases hquiet.events e event (by rw [hevents]; exact List.mem_cons_self ..) with rfl | rfl
        · refine (setActivationStatus _ e .activated).trans (of_modify _ e _ ?_ ?_ ?_ ?_ ?_ ?_)
          all_goals unfold onActivation
          · split <;> rfl
          · split <;> rfl
          · split <;> exact fun hr => hr
          · split <;> exact Or.inl
          · split <;> exact fun _ hevent => Or.inl hevent
          · split <;> rfl
        · exact .refl _
      have hboth := hpop.trans hevent
      exact hboth.trans (ih _ (hboth.quiet hquiet))

theorem processItems (fuel : Nat) (h : ZstHierarchy) (hquiet : NoRemovalQueued h) :
    Settles S h (ZstHierarchy.processItems v fuel h) := by
  induction fuel generalizing h with
  | zero => exact .refl h
  | succ fuel ih =>
    unfold ZstHierarchy.processItems
    cases hqueue : h.synchronisableEvents with
    | nil => exact .refl h
    | cons e rest =>
      have hpop : Settles S h { h with synchronisableEvents := rest } :=
        of_entities rfl rfl rfl rfl
      have hitem : Settles S { h with synchronisableEvents := rest }
          (processItem v { h with synchronisableEvents := rest } e) := by
        unfold processItem
        split
        · exact .refl _
        · refine .trans (of_freedAccess _ _) (processOwnEvents v _ _ ?_ e)
          exact ⟨hquiet.1, hquiet.2⟩
      have hboth := hpop.trans hitem
      exact hboth.trans (ih _ (hboth.quiet hquiet))

theorem processEvents (fuel : Nat) (h : ZstHierarchy) (hquiet : NoRemovalQueued h) :
    Settles S h (ZstClientHierarchy.processEvents v fuel h) := by
  have hevents : Settles S h
      (h.hierarchyEvents.foldl ZstClientHierarchy.processHierarchyEvent
        { h with hierarchyEvents := [] }) := by
    refine .trans (k := { h with hierarchyEvents := [] }) ?_ (foldl _ (fun h event _ => ?_) _)
    · exact of_entities rfl rfl rfl rfl
    · unfold ZstClientHierarchy.processHierarchyEvent
      split
      · exact (of_freedAccess h _).trans (onEntityArriving _ _)
      · exact (of_freedAccess h _).trans (onEntityArriving _ _)
      · exact .refl h
  unfold ZstClientHierarchy.processEvents
  simp only
  generalize h.hierarchyEvents.foldl ZstClientHierarchy.processHierarchyEvent
    { h with hierarchyEvents := [] } = k at hevents ⊢
  have hitems : Settles S k (ZstHierarchy.processItems v (k.synchronisableEvents.length + fuel) k) :=
    processItems v _ k (hevents.quiet hquiet)
  have hboth := hevents.trans hitems
  have hcleanup := (hboth.quiet hquiet).cleanupOps
  generalize ZstHierarchy.processItems v (k.synchronisableEvents.length + fuel) k = l
    at hboth hcleanup ⊢
  have hreap (n : Nat) : reapAll v n l = l := by
    cases n with
    | zero => rfl
    | succ n =>
      unfold reapAll
      rw [hcleanup]
  rw [hreap]
  exact hboth.trans (of_entities rfl rfl rfl rfl)

theorem activateEntity (fuel : Nat) (hclosed : Closed S h) (hquiet : NoRemovalQueued h)
    {d : EntityId}
    (hd : S d) (behaviour : SendBehaviour) :
    Settles S h (ZstClientHierarchy.activateEntity v link fuel h d behaviour) := by
  unfold ZstClientHierarchy.activateEntity
  split
  · exact .refl h
  · split
    · exact .refl h
    · have hregister := registerEntity h hd
      have hrequests := requests v link (hregister.closed hclosed) hd behaviour
        ((h.registerEntity d).getChildEntities d)
      have hboth := hregister.trans hrequests
      simp only
      split
      · exact hboth.trans (processEvents v fuel _ (hboth.quiet hquiet))
      · exact hboth

theorem requestEntityActivation (fuel : Nat) (hclosed : Closed S h) (hquiet : NoRemovalQueued h)
    {d : EntityId} (hd : S d) :
    Settles S h ((ZstClientHierarchy.overrides link fuel).requestEntityActivation h d) := by
  cases fuel with
  | zero => exact .refl h
  | succ fuel =>
    exact activateEntity (ZstClientHierarchy.overrides link fuel) link fuel hclosed hquiet hd
      .syncReply

end Client

end Settles

theorem client_bystander (link : StageLink) (fuel : Nat) :
    Bystander (ZstClientHierarchy.overrides link fuel) := by
  have hpublish {S p oldPath name rootPath h} (d : EntityId) (path : ZstURI)
      (hm : Moving S p oldPath name rootPath h) :
      Moving S p oldPath name rootPath (ZstClientHierarchy.publishEntityUpdate link h d path) := by
    unfold ZstClientHierarchy.publishEntityUpdate
    split
    · exact hm
    · exact (Settles.publish link h _).moving hm
  have hactivation {S p oldPath name rootPath h} (d : EntityId)
      (hm : Moving S p oldPath name rootPath h) (hd : S d) :=
    Settles.requestEntityActivation link fuel hm.closed hm.quiet hd
  refine ⟨fun d hm hd => ?_, fun d path hm => ?_⟩
  · exact ⟨(hactivation d hm hd).moving hm, (hactivation d hm hd).uri⟩
  · cases fuel with
    | zero => exact hpublish d path hm
    | succ fuel => exact hpublish d path hm

/-- The hierarchies of the program. -/
inductive IsHierarchy : Overrides → Prop
  | stage : IsHierarchy stageOverrides
  | client (link : StageLink) (fuel : Nat) : IsHierarchy (ZstClientHierarchy.overrides link fuel)

/-- `set_name` is no renaming in any registered tree: the parent's child set
keeps the old path. -/
theorem setName_not_renamed (v : Overrides) (h : ZstHierarchy) (e p : EntityId) (n : String)
    (hv : IsHierarchy v) (tree : RegisteredTree h) (hquiet : NoRemovalQueued h) (he : h.InTree e)
    (hparent : h.parent e = some p) (hn : n ≠ "")
    (hfree : h.lookup ((h.entities p).uri.add [n]) = none) (hnest : NoNestAfter h e [n]) :
    ¬ Renamed h (setName v h e [n]) e p (h.entities e).uri ((h.entities p).uri.add [n]) := by
  cases hv with
  | stage =>
    exact not_renamed_of_bystander tree stage_bystander hquiet he hparent hn hfree hnest
  | client link fuel =>
    exact not_renamed_of_bystander tree (client_bystander link fuel) hquiet he hparent hn hfree
      hnest

/-- The performer `ada` with the component `ada/synth`, as the stage has them. -/
def synthTree : ZstHierarchy :=
  ofList
    [ { entityType := .performer, uri := ["ada"], registered := true, isProxy := true
        syncStatus := .activated, children := [["ada", "synth"]] },
      { entityType := .component, uri := ["ada", "synth"], parentAddress := ["ada"]
        registered := true, isProxy := true, syncStatus := .activated } ]

theorem synthTree_registered : RegisteredTree synthTree :=
  registeredTree_ofList (by decide) (by decide) (by decide) (by decide) (by decide)

/-- The entities of the client `ada`, which has a synthesiser with an output. -/
def voiceTree : ZstHierarchy :=
  ofList
    [ { entityType := .performer, uri := ["ada"], registered := true
        syncStatus := .activated, children := [["ada", "synth"]] },
      { entityType := .component, uri := ["ada", "synth"], parentAddress := ["ada"]
        registered := true, syncStatus := .activated, children := [["ada", "synth", "out"]] },
      { entityType := .plug, uri := ["ada", "synth", "out"], parentAddress := ["ada", "synth"]
        registered := true, syncStatus := .activated, direction := .outJack } ] (some 0)

theorem voiceTree_below {d : EntityId} (hd : voiceTree.Below 1 d) : d = 1 ∨ d = 2 := by
  induction hd with
  | refl => exact .inl rfl
  | tail _ hchild ih =>
    obtain ⟨q, hq, hlookup⟩ := hchild
    rcases ih with rfl | rfl
    · obtain rfl : q = ["ada", "synth", "out"] := List.mem_singleton.mp hq
      exact .inr (Option.some.inj hlookup).symm
    · cases hq

theorem setName_not_renamed_synth :
    ¬ Renamed voiceTree
      (setName (ZstClientHierarchy.overrides ⟨true, fun _ => none⟩ 1) voiceTree 1 ["organ"])
      1 0 ["ada", "synth"] ["ada", "organ"] := by
  refine setName_not_renamed (ZstClientHierarchy.overrides ⟨true, fun _ => none⟩ 1) voiceTree 1 0
    "organ" (.client _ _)
    (registeredTree_ofList (by decide) (by decide) (by decide) (by decide) (by decide))
    (quiet_ofList (by decide)) (by decide) (by decide) (by decide) (by decide) ?_
  -- neither the synthesiser nor its output is called `ada`
  intro x d hx _ hroot
  rcases voiceTree_below hx with rfl | rfl <;> rcases hroot with hroot | ⟨-, hroot⟩ <;>
    exact absurd hroot (by decide)

/-- The parent of a renamed component has two paths for it. -/
theorem rename_keeps_old_child :
    ¬ Renamed synthTree (setName stageOverrides synthTree 1 ["organ"]) 1 0 ["ada", "synth"]
      ["ada", "organ"] := by
  intro hrenamed
  have hkept : ["ada", "synth"] ∈
      ((setName stageOverrides synthTree 1 ["organ"]).entities 0).children := by decide
  rcases (hrenamed.parentChildren _).mp hkept with hsame | ⟨-, hother⟩
  · exact absurd hsame (by decide)
  · exact hother rfl

end Showtime.Rename
