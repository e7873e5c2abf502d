import Showtime.Rename
import Showtime.TreeEdit
/-!
# The path of whoever leaves

`destroy_entity_complete` takes an entity off its parent before it keeps the
path for the event, and an entity without a parent is named by its last segment
alone.
-/

namespace Showtime.LeavingPath

open ZstHierarchy

/-! ## Whoever is found after one change of a path -/

section Rekeying

variable {h : ZstHierarchy} {d x : EntityId} {q : ZstURI}

/-- Whoever is found now was found before, or is the entity that moved. -/
theorem findEntity_rekey (f : Entity → Entity) (hf : ∀ y, (f y).registered = y.registered)
    (hregistered : (h.entities d).registered = true)
    (hfind : ((h.modify d f).updateURI d (h.entities d).uri).findEntity q = some x) :
    x = d ∧ (f (h.entities d)).uri = q ∨ h.findEntity q = some x := by
  have hlookup := updateURI_lookup (h.modify d f) d (h.entities d).uri
    (by rw [modify_entities_self, hf, hregistered])
  have huri (e : EntityId) := updateURI_uri (h.modify d f) d e (h.entities d).uri
  have hroot := updateURI_root (h.modify d f) d (h.entities d).uri
  generalize (h.modify d f).updateURI d (h.entities d).uri = k at hlookup huri hroot hfind
  rw [modify_entities_self, modify_lookup] at hlookup
  -- the lookup table only knows the entity that moved, and forgets its old path
  have htable : k.lookup q = some x → x = d ∧ (f (h.entities d)).uri = q ∨
      (h.entities d).uri ≠ q ∧ h.lookup q = some x := by
    intro hx
    rw [hlookup, Function.update_apply] at hx
    split at hx
    · rename_i hq
      exact Or.inl ⟨(Option.some.inj hx).symm, hq.symm⟩
    · rw [Function.update_apply] at hx
      split at hx
      · cases hx
      · rename_i hq
        exact Or.inr ⟨fun heq => hq heq.symm, hx⟩
  unfold findEntity at hfind ⊢
  rw [hroot] at hfind
  have hsame : (h.modify d f).root = h.root := rfl
  rw [hsame] at hfind
  cases hr : h.root with
  | none =>
    rw [hr] at hfind
    exact (htable hfind).imp id And.right
  | some r =>
    rw [hr] at hfind
    dsimp only at hfind ⊢
    rw [huri, modify_entities] at hfind
    by_cases hrd : r = d
    · rw [if_pos hrd] at hfind
      subst hrd
      split at hfind
      · rename_i hq
        exact Or.inl ⟨(Option.some.inj hfind).symm, hq⟩
      · rcases htable hfind with hself | ⟨hne, hx⟩
        · exact Or.inl hself
        · rw [if_neg hne]
          exact Or.inr hx
    · rw [if_neg hrd] at hfind
      split at hfind
      · rename_i hq
        rw [if_pos hq]
        exact Or.inr hfind
      · rename_i hq
        rw [if_neg hq]
        exact (htable hfind).imp id And.right

/-- At its new path the entity is found, unless the root is there. -/
theorem findEntity_rekey_self (f : Entity → Entity) (hf : ∀ y, (f y).registered = y.registered)
    (hregistered : (h.entities d).registered = true)
    (hfind : ((h.modify d f).updateURI d (h.entities d).uri).findEntity
      (f (h.entities d)).uri = some x) :
    x = d ∨ h.root = some x ∧ (h.entities x).uri = (f (h.entities d)).uri := by
  have hlookup := updateURI_lookup (h.modify d f) d (h.entities d).uri
    (by rw [modify_entities_self, hf, hregistered])
  have huri (e : EntityId) := updateURI_uri (h.modify d f) d e (h.entities d).uri
  have hroot := updateURI_root (h.modify d f) d (h.entities d).uri
  generalize (h.modify d f).updateURI d (h.entities d).uri = k at hlookup huri hroot hfind
  rw [modify_entities_self] at hlookup
  have htable : k.lookup (f (h.entities d)).uri = some d := by
    rw [hlookup, Function.update_self]
  unfold findEntity at hfind
  rw [hroot, htable] at hfind
  have hsame : (h.modify d f).root = h.root := rfl
  rw [hsame] at hfind
  cases hr : h.root with
  | none =>
    rw [hr] at hfind
    exact Or.inl (Option.some.inj hfind).symm
  | some r =>
    rw [hr] at hfind
    dsimp only at hfind
    rw [huri, modify_entities] at hfind
    by_cases hrd : r = d
    · rw [if_pos hrd] at hfind
      split at hfind
      · exact Or.inl ((Option.some.inj hfind).symm.trans hrd)
      · exact Or.inl (Option.some.inj hfind).symm
    · rw [if_neg hrd] at hfind
      split at hfind
      · rename_i hq
        obtain rfl := Option.some.inj hfind
        exact Or.inr ⟨rfl, hq⟩
      · exact Or.inl (Option.some.inj hfind).symm

end Rekeying

/-! ## What is below an entity -/

/-- Those below an entity are registered proxies, found at their paths and
among the children of each other and of the entity. The entity is not below
itself. -/
structure Strand (M : EntityId → Prop) (e : EntityId) (h : ZstHierarchy) : Prop where
  apart : ¬ M e
  registered : ∀ d, M d → (h.entities d).registered = true
  isProxy : ∀ d, M d → (h.entities d).isProxy = true
  named : ∀ d, M d → (h.entities d).uri.last ≠ []
  own : ∀ d, M d → ∀ x, h.findEntity (h.entities d).uri = some x → M x
  closed : ∀ d, M d ∨ d = e → ∀ q ∈ (h.entities d).children, ∀ x, h.findEntity q = some x → M x
  root : ∀ r, h.root = some r → ¬ M r ∧
    ∀ d, M d → (h.entities d).uri.last ≠ (h.entities r).uri.last

/-- Nothing of the entity changed but its children. -/
structure KeepsButChildren (e : EntityId) (h k : ZstHierarchy) : Prop where
  self : { k.entities e with children := [] } = { h.entities e with children := [] }
  hierarchyEvents : k.hierarchyEvents = h.hierarchyEvents

theorem KeepsButChildren.refl (e : EntityId) (h : ZstHierarchy) : KeepsButChildren e h h :=
  ⟨rfl, rfl⟩

theorem KeepsButChildren.trans {e : EntityId} {h k l : ZstHierarchy} (hk : KeepsButChildren e h k)
    (kl : KeepsButChildren e k l) :
    KeepsButChildren e h l :=
  ⟨kl.self.trans hk.self, kl.hierarchyEvents.trans hk.hierarchyEvents⟩

namespace Strand

variable {M : EntityId → Prop} {e d p : EntityId} {h k : ZstHierarchy}

theorem child (strand : Strand M e h) (hd : M d ∨ d = e) {c : EntityId}
    (hc : c ∈ h.childEntities d) : M c := by
  unfold childEntities at hc
  split at hc
  · obtain ⟨q, hq, hfind⟩ := List.mem_filterMap.mp hc
    unfold getChildByURI at hfind
    split at hfind
    · exact strand.closed d hd q hq c hfind
    · cases hfind
  · cases hc

/-- One of those below passes to another path. -/
theorem rekey (strand : Strand M e h) (hd : M d) (f : Entity → Entity)
    (hf : ∀ y, placeless (f y) = placeless y) (hregistered : ∀ y, (f y).registered = y.registered)
    (hchildren : ∀ y, (f y).children = y.children)
    (hlast : (f (h.entities d)).uri.last = (h.entities d).uri.last) :
    Strand M e ((h.modify d f).updateURI d (h.entities d).uri) ∧
      KeepsButChildren e h ((h.modify d f).updateURI d (h.entities d).uri) := by
  have hfound := fun q x => findEntity_rekey (q := q) (x := x) f hregistered (strand.registered d hd)
  have hself := fun x => findEntity_rekey_self (x := x) f hregistered (strand.registered d hd)
  have hentities (c : EntityId) := updateURI_entities (h.modify d f) d c (h.entities d).uri
  have hroot := updateURI_root (h.modify d f) d (h.entities d).uri
  have hedit := (TreeEdit.of_modify h d f hf).trans
    (TreeEdit.updateURI (h.modify d f) d (h.entities d).uri)
  have hother (c : EntityId) (hc : c ≠ d) :
      ((h.modify d f).updateURI d (h.entities d).uri).entities c = h.entities c :=
    (updateURI_other _ _ hc).trans (modify_entities_of_ne h f hc)
  generalize (h.modify d f).updateURI d (h.entities d).uri = k
    at hfound hself hentities hroot hedit hother ⊢
  have huri : (k.entities d).uri = (f (h.entities d)).uri := by
    obtain ⟨creatables, hkd⟩ := hentities d
    rw [hkd, modify_entities_self]
  have hkept (c : EntityId) : (k.entities c).registered = (h.entities c).registered ∧
      (k.entities c).children = (h.entities c).children ∧
      (k.entities c).uri.last = (h.entities c).uri.last := by
    by_cases hc : c = d
    · subst hc
      obtain ⟨creatables, hkc⟩ := hentities c
      rw [hkc, modify_entities_self]
      exact ⟨hregistered _, hchildren _, hlast⟩
    · rw [hother c hc]
      exact ⟨rfl, rfl, rfl⟩
  have hde : e ≠ d := fun hed => strand.apart (hed ▸ hd)
  refine ⟨⟨strand.apart, fun c hc => ?_, fun c hc => ?_, fun c hc => ?_, fun c hc x hx => ?_,
    fun c hc q hq x hx => ?_, fun r hr => ?_⟩, ?_, hedit.hierarchyEvents⟩
  · rw [(hkept c).1]
    exact strand.registered c hc
  · exact (congrArg Entity.isProxy (hedit.entities c)).trans (strand.isProxy c hc)
  · rw [(hkept c).2.2]
    exact strand.named c hc
  · by_cases hcd : c = d
    · subst hcd
      rw [huri] at hx
      rcases hself x hx with rfl | ⟨hr, hpath⟩
      · exact hc
      · refine absurd ?_ ((strand.root x hr).2 c hc)
        rw [hpath, hlast]
    · rw [hother c hcd] at hx
      rcases hfound _ x hx with ⟨rfl, -⟩ | hx
      · exact hd
      · exact strand.own c hc x hx
  · rw [(hkept c).2.1] at hq
    rcases hfound q x hx with ⟨rfl, -⟩ | hx
    · exact hd
    · exact strand.closed c hc q hq x hx
  · rw [hroot] at hr
    refine ⟨(strand.root r hr).1, fun c hc => ?_⟩
    rw [(hkept c).2.2, (hkept r).2.2]
    exact (strand.root r hr).2 c hc
  · rw [hother e hde]

/-- Children are taken off a list, or put there that are below the entity. -/
theorem relist (strand : Strand M e h) (p : EntityId) (f : List ZstURI → List ZstURI)
    (hf : ∀ q ∈ f (h.entities p).children, q ∈ (h.entities p).children ∨
      ∃ c, M c ∧ q = (h.entities c).uri) :
    Strand M e (h.modify p fun x => { x with children := f x.children }) ∧
      KeepsButChildren e h (h.modify p fun x => { x with children := f x.children }) := by
  have hfield : ∀ {β : Type} (g : Entity → β), (∀ x l, g { x with children := l } = g x) →
      ∀ d, g ((h.modify p fun x => { x with children := f x.children }).entities d) =
        g (h.entities d) := by
    intro β g hg d
    rw [modify_entities]
    split
    · rename_i hdp
      rw [hg, hdp]
    · rfl
  have huri := hfield Entity.uri fun _ _ => rfl
  have hfind : ∀ q, (h.modify p fun x => { x with children := f x.children }).findEntity q =
      h.findEntity q := by
    intro q
    unfold findEntity
    have hsame : (h.modify p fun x => { x with children := f x.children }).root = h.root := rfl
    rw [hsame]
    cases h.root with
    | none => rfl
    | some r =>
      dsimp only
      rw [huri]
      rfl
  refine ⟨⟨strand.apart, fun d hd => ?_, fun d hd => ?_, fun d hd => ?_, fun d hd x hx => ?_,
    fun d hd q hq x hx => ?_, fun r hr => ?_⟩, ?_, rfl⟩
  · rw [hfield Entity.registered fun _ _ => rfl]
    exact strand.registered d hd
  · rw [hfield Entity.isProxy fun _ _ => rfl]
    exact strand.isProxy d hd
  · rw [huri]
    exact strand.named d hd
  · rw [hfind, huri] at hx
    exact strand.own d hd x hx
  · rw [hfind] at hx
    rw [modify_entities] at hq
    split at hq
    · rename_i hdp
      rcases hf q hq with hold | ⟨c, hc, rfl⟩
      · exact strand.closed d hd q (hdp ▸ hold) x hx
      · exact strand.own c hc x hx
    · exact strand.closed d hd q hq x hx
  · refine ⟨(strand.root r hr).1, fun d hd => ?_⟩
    rw [huri, huri]
    exact (strand.root r hr).2 d hd
  · exact hfield (fun x => { x with children := ([] : List ZstURI) }) (fun _ _ => rfl) e

/-! ## Moves of those below -/

section Moves

variable {v : Overrides} {move : ZstHierarchy → EntityId → Option EntityId → ZstHierarchy}
  (hmove : ∀ {k c} p, Strand M e k → M c →
    Strand M e (move k c p) ∧ KeepsButChildren e k (move k c p))

include hmove

theorem removeChildWith (strand : Strand M e h) (p : EntityId) (hd : M d) :
    Strand M e (ZstHierarchy.removeChildWith move h p d) ∧
      KeepsButChildren e h (ZstHierarchy.removeChildWith move h p d) := by
  unfold ZstHierarchy.removeChildWith
  dsimp only
  split
  · obtain ⟨herased, hkeeps⟩ := strand.relist p
      (fun children => children.erase (h.entities d).uri) fun q hq =>
        Or.inl (List.mem_of_mem_erase hq)
    obtain ⟨hmoved, hmoves⟩ := hmove none herased hd
    exact ⟨hmoved, hkeeps.trans hmoves⟩
  · exact hmove none strand hd

/-- A registered proxy asks for nothing when it gets a parent. -/
theorem addChildWith (strand : Strand M e h) (p : EntityId) (hd : M d) (autoActivate : Bool) :
    Strand M e (ZstHierarchy.addChildWith v move h p d autoActivate) ∧
      KeepsButChildren e h (ZstHierarchy.addChildWith v move h p d autoActivate) := by
  obtain ⟨hmoved, hmoves⟩ := hmove (some p) strand hd
  unfold ZstHierarchy.addChildWith
  split
  · split
    · exact ⟨strand, .refl e h⟩
    · unfold adoptChild
      dsimp only
      obtain ⟨hlisted, hlists⟩ := hmoved.relist p
        (fun children => ZstURI.emplace children ((move h d (some p)).entities d).uri)
        fun q hq => ((ZstURI.mem_emplace _ _ q).mp hq).symm.imp id fun heq => ⟨d, hd, heq⟩
      have hboth := hmoves.trans hlists
      generalize ((move h d (some p)).modify p fun x =>
        { x with
          children := ZstURI.emplace x.children ((move h d (some p)).entities d).uri }) = k
        at hlisted hboth ⊢
      rw [hlisted.registered d hd]
      simp only [Bool.not_true, Bool.and_false, Bool.false_eq_true, if_false,
        hlisted.isProxy d hd, Bool.false_and]
      exact ⟨hlisted, hboth⟩
  · exact ⟨hmoved, hmoves⟩

/-- Children are taken off and put back. -/
theorem reattach (strand : Strand M e h) (p : EntityId) (children : List EntityId)
    (hchildren : ∀ c ∈ children, M c) :
    Strand M e (children.foldl (fun h c =>
        ZstHierarchy.addChildWith v move (ZstHierarchy.removeChildWith move h p c) p c true) h) ∧
      KeepsButChildren e h (children.foldl (fun h c =>
        ZstHierarchy.addChildWith v move (ZstHierarchy.removeChildWith move h p c) p c true) h) := by
  refine List.foldlRecOn (motive := fun k => Strand M e k ∧ KeepsButChildren e h k) _ _
    ⟨strand, .refl e h⟩ fun k hk c hc => ?_
  obtain ⟨hremoved, hremoves⟩ := hk.1.removeChildWith hmove p (hchildren c hc)
  obtain ⟨hadded, hadds⟩ := hremoved.addChildWith (v := v) hmove p (hchildren c hc) true
  exact ⟨hadded, (hk.2.trans hremoves).trans hadds⟩

end Moves

theorem setParentBase (strand : Strand M e h) (hd : M d) (parent : Option EntityId) :
    Strand M e (h.setParentBase d parent) ∧ KeepsButChildren e h (h.setParentBase d parent) :=
  strand.rekey hd _ (fun _ => rfl) (fun _ => rfl) (fun _ => rfl)
    (Rename.Moving.last_reparentedURI _ _)

/-- `set_parent` of one below moves nobody else. -/
theorem setParent (v : Overrides) (depth : Nat) (strand : Strand M e h) (hd : M d)
    (parent : Option EntityId) :
    Strand M e (ZstHierarchy.setParent v depth h d parent) ∧
      KeepsButChildren e h (ZstHierarchy.setParent v depth h d parent) := by
  induction depth generalizing h d parent with
  | zero => exact ⟨strand, .refl e h⟩
  | succ depth ih =>
    obtain ⟨hbase, hkeeps⟩ := strand.setParentBase hd parent
    obtain ⟨hmoved, hmoves⟩ := hbase.reattach (v := v) (fun p hk hc => ih hk hc p) d _
      fun c hc => hbase.child (Or.inl hd) hc
    exact ⟨hmoved, hkeeps.trans hmoves⟩

end Strand

/-! ## The event -/

section Leaving

variable {h : ZstHierarchy} {e : EntityId} {v : Overrides}

/-- What is below the entity stays apart from the path that it gets. -/
def Treelike (h : ZstHierarchy) (e : EntityId) : Prop :=
  ∃ M, Strand M e h ∧ (∀ d, M d → (h.entities d).uri ≠ (h.entities e).uri.last) ∧
    ∀ d, M d ∨ d = e → (h.entities e).uri.last ∉ (h.entities d).children

/-- The path of the event is the one that the entity has before it is removed. -/
def TellsPath (h k : ZstHierarchy) (e : EntityId) : Prop :=
  k.hierarchyEvents = h.hierarchyEvents ++ leavingEvent (h.entities e)

/-- The event tells the path, unless the entity is a plug. -/
theorem leavingEvent_eq_iff {x y : Entity} (hproxy : x.isProxy = true)
    (hkind : x.entityType ≠ .plug ∧ x.entityType ≠ .none) (hyproxy : y.isProxy = x.isProxy)
    (hykind : y.entityType = x.entityType) :
    leavingEvent y = leavingEvent x ↔ y.uri = x.uri := by
  unfold leavingEvent
  rw [hyproxy, hykind, if_pos hproxy, if_pos hproxy]
  cases hx : x.entityType with
  | plug => exact absurd hx hkind.1
  | none => exact absurd hx hkind.2
  | component | factory | performer => simp

theorem foldl_enqueueDeactivation_hierarchyEvents (items : List EntityId) (k : ZstHierarchy) :
    (items.foldl enqueueDeactivation k).hierarchyEvents = k.hierarchyEvents := by
  refine List.foldlRecOn (motive := fun (l : ZstHierarchy) =>
    l.hierarchyEvents = k.hierarchyEvents) _ _ rfl fun l hl c _ => Eq.trans ?_ hl
  unfold enqueueDeactivation
  split
  · unfold synchronisableHasEvent
    split <;> rfl
  · rfl

theorem Treelike.erase (htree : Treelike h e) (p : EntityId) (q : ZstURI) :
    Treelike (h.modify p fun x => { x with children := x.children.erase q }) e := by
  obtain ⟨M, strand, hpath, hlisted⟩ := htree
  have huri : ∀ d, ((h.modify p fun x => { x with children := x.children.erase q }).entities
      d).uri = (h.entities d).uri := by
    intro d
    rw [modify_entities]
    split
    · rename_i hdp
      rw [hdp]
    · rfl
  refine ⟨M, (strand.relist p (fun children => children.erase q) fun q' hq' =>
    Or.inl (List.mem_of_mem_erase hq')).1, fun d hd => ?_, fun d hd hmem => ?_⟩
  · rw [huri, huri]
    exact hpath d hd
  · rw [huri, modify_entities] at hmem
    split at hmem
    · rename_i hdp
      exact hlisted d hd (hdp ▸ List.mem_of_mem_erase hmem)
    · exact hlisted d hd hmem

/-- `set_parent` without a parent leaves the last segment of the path. -/
theorem setParent_none (depth : Nat) (htree : Treelike h e)
    (hregistered : (h.entities e).registered = true) :
    ((ZstHierarchy.setParent v (depth + 1) h e none).entities e).uri = (h.entities e).uri.last ∧
      ((ZstHierarchy.setParent v (depth + 1) h e none).entities e).isProxy =
        (h.entities e).isProxy ∧
      ((ZstHierarchy.setParent v (depth + 1) h e none).entities e).entityType =
        (h.entities e).entityType ∧
      (ZstHierarchy.setParent v (depth + 1) h e none).hierarchyEvents = h.hierarchyEvents := by
  obtain ⟨M, strand, hpath, hlisted⟩ := htree
  have hfound : ∀ {q x}, (h.setParentBase e none).findEntity q = some x →
      x = e ∧ (h.entities e).uri.last = q ∨ h.findEntity q = some x := fun hx =>
    findEntity_rekey (fun x =>
      { x with parentAddress := h.addressOf none, uri := reparentedURI x.uri (h.addressOf none) })
      (fun _ => rfl) hregistered hx
  have hother (c : EntityId) (hc : c ≠ e) :
      (h.setParentBase e none).entities c = h.entities c :=
    (updateURI_other _ _ hc).trans (modify_entities_of_ne h _ hc)
  obtain ⟨creatables, hself⟩ : ∃ creatables, (h.setParentBase e none).entities e =
      { h.entities e with
        parentAddress := [], uri := (h.entities e).uri.last, creatables } := by
    obtain ⟨creatables, hke⟩ := updateURI_entities (h.modify e fun x =>
      { x with parentAddress := h.addressOf none, uri := reparentedURI x.uri (h.addressOf none) })
      e e (h.entities e).uri
    rw [modify_entities_self] at hke
    exact ⟨creatables, hke⟩
  have hevents : (h.setParentBase e none).hierarchyEvents = h.hierarchyEvents :=
    ((TreeEdit.of_modify h e (fun x => { x with
      parentAddress := h.addressOf none, uri := reparentedURI x.uri (h.addressOf none) })
      fun _ => rfl).trans (TreeEdit.updateURI _ e (h.entities e).uri)).hierarchyEvents
  have hbase : Strand M e (h.setParentBase e none) := by
    have hne : ∀ {d}, M d → d ≠ e := fun hd hde => strand.apart (hde ▸ hd)
    have hchildren (d : EntityId) :
        ((h.setParentBase e none).entities d).children = (h.entities d).children := by
      by_cases hd : d = e
      · rw [hd, hself]
      · rw [hother d hd]
    refine ⟨strand.apart, fun d hd => ?_, fun d hd => ?_, fun d hd => ?_, fun d hd x hx => ?_,
      fun d hd q hq x hx => ?_, fun r hr => ?_⟩
    · rw [hother d (hne hd)]
      exact strand.registered d hd
    · rw [hother d (hne hd)]
      exact strand.isProxy d hd
    · rw [hother d (hne hd)]
      exact strand.named d hd
    · rw [hother d (hne hd)] at hx
      rcases hfound hx with ⟨-, hend⟩ | hx
      · exact absurd hend.symm (hpath d hd)
      · exact strand.own d hd x hx
    · rw [hchildren] at hq
      rcases hfound hx with ⟨-, hend⟩ | hx
      · exact absurd (hend ▸ hq) (hlisted d hd)
      · exact strand.closed d hd q hq x hx
    · have hroot : (h.setParentBase e none).root = h.root := updateURI_root _ _ _
      rw [hroot] at hr
      refine ⟨(strand.root r hr).1, fun d hd => ?_⟩
      rw [hother d (hne hd)]
      by_cases hre : r = e
      · have hapart := (strand.root r hr).2 d hd
        rw [hre] at hapart ⊢
        rw [hself]
        by_cases hlast : (h.entities e).uri.last = []
        · rw [hlast]
          exact strand.named d hd
        · rwa [ZstURI.last_last]
      · rw [hother r hre]
        exact (strand.root r hr).2 d hd
  have hmove : ∀ {k c} p, Strand M e k → M c →
      Strand M e (ZstHierarchy.setParent v depth k c p) ∧
        KeepsButChildren e k (ZstHierarchy.setParent v depth k c p) :=
    fun p hk hc => hk.setParent v depth hc p
  obtain ⟨-, hkeeps⟩ := hbase.reattach (v := v) hmove e _ fun c hc => hbase.child (Or.inr rfl) hc
  have hfield : ∀ {β : Type} (g : Entity → β), (∀ x l, g { x with children := l } = g x) →
      g ((ZstHierarchy.setParent v (depth + 1) h e none).entities e) =
        g ((h.setParentBase e none).entities e) := by
    intro β g hg
    exact (hg _ []).symm.trans ((congrArg g hkeeps.self).trans (hg _ []))
  refine ⟨?_, ?_, ?_, hkeeps.hierarchyEvents.trans hevents⟩
  · rw [hfield Entity.uri fun _ _ => rfl, hself]
  · rw [hfield Entity.isProxy fun _ _ => rfl, hself]
  · rw [hfield Entity.entityType fun _ _ => rfl, hself]

theorem destroyEntityComplete_hierarchyEvents (h : ZstHierarchy) (e : EntityId) :
    (destroyEntityComplete v h e).hierarchyEvents =
      (removeFromParent v h e).hierarchyEvents ++
        leavingEvent ((removeFromParent v h e).entities e) :=
  foldl_enqueueDeactivation_hierarchyEvents _ _

/-- Where no parent is found, the event tells the path. -/
theorem tellsPath_of_parent_none (hparent : h.parent e = none) :
    TellsPath h (destroyEntityComplete v h e) e := by
  have hsame : removeFromParent v h e = h := by
    unfold removeFromParent
    rw [hparent]
  unfold TellsPath
  rw [destroyEntityComplete_hierarchyEvents, hsame]

/-- Where a parent is found, the event tells the last segment of the path. -/
theorem tellsPath_iff_of_parent {p : EntityId} (htree : Treelike h e)
    (hproxy : (h.entities e).isProxy = true)
    (hkind : (h.entities e).entityType ≠ .plug ∧ (h.entities e).entityType ≠ .none)
    (hparent : h.parent e = some p) :
    TellsPath h (destroyEntityComplete v h e) e ↔
      (h.entities e).uri.last = (h.entities e).uri := by
  have hregistered : (h.entities e).registered = true := by
    unfold parent at hparent
    dsimp only at hparent
    split at hparent
    · cases hparent
    · split at hparent
      · assumption
      · cases hparent
  have hremoved : ∃ k : ZstHierarchy, removeFromParent v h e = ZstHierarchy.setParent v h.depth k e none ∧
      Treelike k e ∧ k.entities e = { h.entities e with children := (k.entities e).children } ∧
      k.hierarchyEvents = h.hierarchyEvents := by
    unfold removeFromParent ZstHierarchy.removeChild ZstHierarchy.removeChildWith
    rw [hparent]
    dsimp only
    split
    · refine ⟨_, rfl, htree.erase p (h.entities e).uri, ?_, rfl⟩
      rw [modify_entities]
      split
      · rename_i hep
        rw [hep]
      · rfl
    · exact ⟨h, rfl, htree, rfl, rfl⟩
  obtain ⟨k, hk, hktree, hke, hevents⟩ := hremoved
  obtain ⟨huri, hisProxy, hentityType, hkevents⟩ := setParent_none (v := v) h.next hktree
    (by rw [hke]; exact hregistered)
  have hkeuri : (k.entities e).uri = (h.entities e).uri := by rw [hke]
  have hkeproxy : (k.entities e).isProxy = (h.entities e).isProxy := by rw [hke]
  have hkekind : (k.entities e).entityType = (h.entities e).entityType := by rw [hke]
  unfold TellsPath
  rw [destroyEntityComplete_hierarchyEvents, hk, ← hevents]
  unfold depth
  rw [hkevents, List.append_cancel_left_eq,
    leavingEvent_eq_iff hproxy hkind (hisProxy.trans hkeproxy) (hentityType.trans hkekind),
    huri, hkeuri]

/-- A registered tree is one below each proxy, as long as nothing below it is
local or named like the root. -/
theorem treelike_of_registeredTree (tree : RegisteredTree h) (he : h.InTree e)
    (hproxies : ∀ d, h.Below e d → d ≠ e → (h.entities d).isProxy = true)
    (hnames : ∀ r, h.root = some r → ∀ d, h.Below e d → d ≠ e →
      (h.entities d).uri.last ≠ (h.entities r).uri.last) : Treelike h e := by
  have hpos : 1 ≤ (h.entities e).uri.length := List.length_pos_iff.mpr (tree.segments e he).1
  have hlast : (h.entities e).uri.last.length ≤ 1 := by
    unfold ZstURI.last ZstURI.ofSegments
    split
    · exact Nat.zero_le _
    · rw [List.length_drop]
      omega
  -- whoever is below has a longer path
  have hlonger : ∀ d, h.Below e d → d ≠ e → 2 ≤ (h.entities d).uri.length := by
    intro d hd hne
    rcases Relation.ReflTransGen.cases_tail hd with heq | ⟨p, hp, hchild⟩
    · exact absurd heq hne
    · obtain ⟨s, huri⟩ := tree.uri_of_hasChild (tree.inTree_of_below he hp) hchild
      have hle := (tree.prefix_of_below he hp).length_le
      rw [huri, List.length_append, List.length_singleton]
      omega
  have hchild : ∀ d, h.Below e d → ∀ q ∈ (h.entities d).children,
      2 ≤ q.length ∧ ∀ x, h.findEntity q = some x → h.Below e x ∧ x ≠ e := by
    intro d hd q hq
    obtain ⟨c, s, hlookup, -, hpath⟩ := tree.child d (tree.inTree_of_below he hd) q hq
    have hle := (tree.prefix_of_below he hd).length_le
    have hlength : (h.entities e).uri.length < q.length := by
      rw [hpath, List.length_append, List.length_singleton]
      omega
    refine ⟨by omega, fun x hx => ?_⟩
    rw [tree.findEntity_eq] at hx
    refine ⟨hd.tail ⟨q, hq, hx⟩, ?_⟩
    rintro rfl
    rw [(tree.keyed q x hx).1] at hlength
    exact Nat.lt_irrefl _ hlength
  have hbelow : ∀ {d}, (h.Below e d ∧ d ≠ e) ∨ d = e → h.Below e d := fun hd =>
    hd.elim And.left fun heq => heq ▸ .refl
  refine ⟨fun d => h.Below e d ∧ d ≠ e, ⟨fun hself => hself.2 rfl, fun d hd => ?_, fun d hd => ?_,
    fun d hd => ?_, fun d hd x hx => ?_, fun d hd q hq x hx => ?_, fun r hr => ⟨fun hd => ?_,
    fun d hd => hnames r hr d hd.1 hd.2⟩⟩, fun d hd heq => ?_, fun d hd hmem => ?_⟩
  · exact tree.registered (tree.inTree_of_below he hd.1)
  · exact hproxies d hd.1 hd.2
  · have hsegments := tree.segments d (tree.inTree_of_below he hd.1)
    obtain ⟨v, s, huri⟩ := List.eq_nil_or_concat (h.entities d).uri |>.resolve_left hsegments.1
    rw [List.concat_eq_append] at huri
    have hs : s ≠ "" := by
      rintro rfl
      exact hsegments.2 (huri ▸ List.mem_append_right v List.mem_cons_self)
    rw [huri, ZstURI.last_append v hs]
    exact List.cons_ne_nil _ _
  · rw [tree.findEntity_eq, tree.inTree_of_below he hd.1] at hx
    exact Option.some.inj hx ▸ hd
  · exact (hchild d (hbelow hd) q hq).2 x hx
  · have htop := tree.top r (tree.root r hr).1 (tree.root r hr).2
    have := hlonger r hd.1 hd.2
    omega
  · have := hlonger d hd.1 hd.2
    rw [heq] at this
    omega
  · have := (hchild d (hbelow hd) _ hmem).1
    omega

/-- **The path of whoever leaves.** An entity whose parent is not found leaves with its
path. In a tree, an entity leaves with its path if and only if its parent
is not found or the path has no other segment before the last one. -/
theorem leaving_tells_path_iff (v : Overrides) (h : ZstHierarchy) (e : EntityId)
    (hproxy : (h.entities e).isProxy = true)
    (hkind : (h.entities e).entityType ≠ .plug ∧ (h.entities e).entityType ≠ .none) :
    removeProxyEntity v h e = destroyEntityComplete v h e ∧
      (h.parent e = none → TellsPath h (destroyEntityComplete v h e) e) ∧
      (Treelike h e → (TellsPath h (destroyEntityComplete v h e) e ↔
        h.parent e = none ∨ (h.entities e).uri.last = (h.entities e).uri)) := by
  refine ⟨?_, tellsPath_of_parent_none, fun htree => ?_⟩
  · unfold removeProxyEntity
    rw [if_pos hproxy]
  · cases hparent : h.parent e with
    | none => exact iff_of_true (tellsPath_of_parent_none hparent) (Or.inl rfl)
    | some p =>
      rw [tellsPath_iff_of_parent htree hproxy hkind hparent]
      simp

/-- The performer leaves with its path, the component does not. -/
theorem leaving_tells_path_iff_synth :
    TellsPath Rename.synthTree (destroyEntityComplete stageOverrides Rename.synthTree 0) 0 ∧
      ¬ TellsPath Rename.synthTree (destroyEntityComplete stageOverrides Rename.synthTree 1) 1 := by
  have htree : Treelike Rename.synthTree 1 := by
    refine treelike_of_registeredTree Rename.synthTree_registered (by decide) (fun d hd hne => ?_)
      fun r hr => by cases hr
    -- nothing is below the component
    rcases Relation.ReflTransGen.cases_head hd with heq | ⟨c, ⟨q, hq, -⟩, -⟩
    · exact absurd heq.symm hne
    · cases hq
  have hperformer := leaving_tells_path_iff stageOverrides Rename.synthTree 0 (by decide)
    (by decide)
  have hcomponent := leaving_tells_path_iff stageOverrides Rename.synthTree 1 (by decide)
    (by decide)
  refine ⟨hperformer.2.1 (by decide), ?_⟩
  rw [hcomponent.2.2 htree]
  decide

/-- The component leaves by the name `synth` alone. -/
theorem synth_leaves_by_name :
    ¬ ∀ (v : Overrides) (h : ZstHierarchy) (e : EntityId), (h.entities e).isProxy = true →
      TellsPath h (removeProxyEntity v h e) e ∧ TellsPath h (destroyEntityComplete v h e) e := by
  intro hall
  have htells := (hall stageOverrides Rename.synthTree 1 (by decide)).1
  unfold TellsPath at htells
  exact absurd htells (by decide)

end Leaving

end Showtime.LeavingPath
