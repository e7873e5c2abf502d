import Showtime.Lifecycle
import Showtime.Stage
/-!
# What moving entities leaves alone

Attaching, detaching and renaming entities changes URIs, parent addresses,
child sets, registration flags, creatables and the lookup table, and nothing
else, as long as no child is activated on the way.
-/

namespace Showtime
namespace ZstHierarchy

/-- An entity without the data that depends on its place in the tree. -/
def placeless (x : Entity) : Entity :=
  { x with uri := [], parentAddress := [], children := [], registered := false, creatables := [] }

/-- The second hierarchy differs from the first in places of entities only. -/
structure TreeEdit (h k : ZstHierarchy) : Prop where
  entities : ∀ e, placeless (k.entities e) = placeless (h.entities e)
  live : k.live = h.live
  next : k.next = h.next
  proxies : k.proxies = h.proxies
  root : k.root = h.root
  hierarchyEvents : k.hierarchyEvents = h.hierarchyEvents
  synchronisableEvents : k.synchronisableEvents = h.synchronisableEvents
  cleanupOps : k.cleanupOps = h.cleanupOps
  deadIDs : k.deadIDs = h.deadIDs
  freedAccess : k.freedAccess = h.freedAccess
  sent : k.sent = h.sent

/-- What survives the edits that a move is made of, as long as only the given
entities are moved. -/
structure Movable (S : EntityId → Prop) (P : ZstHierarchy → Prop) : Prop where
  rekey : ∀ h e (f : Entity → Entity), (∀ x, placeless (f x) = placeless x) →
    (∀ x, (f x).registered = x.registered) → S e → P h →
    P ((h.modify e f).updateURI e (h.entities e).uri)
  relist : ∀ h e (f : List ZstURI → List ZstURI), P h →
    P (h.modify e fun x => { x with children := f x.children })
  register : ∀ h e, S e → P h → P (h.registerEntity e)
  child : ∀ h e c, P h → c ∈ h.childEntities e → S c

/-! ## The rule for moves -/

namespace Movable

variable {S : EntityId → Prop} {P : ZstHierarchy → Prop} {v : Overrides} {h : ZstHierarchy}
  {e p child : EntityId}

theorem setParentBase (movable : Movable S P) (p : Option EntityId) (he : S e) (hh : P h) :
    P (h.setParentBase e p) :=
  movable.rekey h e _ (fun _ => rfl) (fun _ => rfl) he hh

theorem removeChildWith (movable : Movable S P)
    {move : ZstHierarchy → EntityId → Option EntityId → ZstHierarchy}
    (hmove : ∀ h e p, S e → P h → P (move h e p)) (p : EntityId) (hchild : S child) (hh : P h) :
    P (ZstHierarchy.removeChildWith move h p child) := by
  unfold ZstHierarchy.removeChildWith
  simp only
  split
  · exact hmove _ child none hchild
      (movable.relist h p (fun children => children.erase (h.entities child).uri) hh)
  · exact hmove h child none hchild hh

section Adopting

variable (hv : ∀ h e, P h → P (v.requestEntityActivation h e))

include hv

theorem adoptChild (movable : Movable S P) (p : EntityId) (autoActivate : Bool) (hchild : S child)
    (hh : P h) : P (ZstHierarchy.adoptChild v h p child autoActivate) := by
  have hlisted := movable.relist h p
    (fun children => ZstURI.emplace children (h.entities child).uri) hh
  unfold ZstHierarchy.adoptChild
  simp only
  generalize (h.modify p fun x =>
    { x with children := ZstURI.emplace x.children (h.entities child).uri }) = k at hlisted ⊢
  have hregistered : P (if (k.entities p).registered && !(k.entities child).registered then
      k.registerEntity child else k) := by
    split
    · exact movable.register k child hchild hlisted
    · exact hlisted
  generalize (if (k.entities p).registered && !(k.entities child).registered then
    k.registerEntity child else k) = l at hregistered ⊢
  split
  · exact hv l child hregistered
  · exact hregistered

theorem addChildWith (movable : Movable S P)
    {move : ZstHierarchy → EntityId → Option EntityId → ZstHierarchy}
    (hmove : ∀ h e p, S e → P h → P (move h e p)) (p : EntityId) (autoActivate : Bool)
    (hchild : S child) (hh : P h) :
    P (ZstHierarchy.addChildWith v move h p child autoActivate) := by
  have hmoved := hmove h child (some p) hchild hh
  unfold ZstHierarchy.addChildWith
  split
  · split
    · exact hh
    · exact movable.adoptChild hv p autoActivate hchild hmoved
  · exact hmoved

/-- Every child is taken off and put back, and its own children with it. -/
theorem setParent (movable : Movable S P) (depth : Nat) (p : Option EntityId) (he : S e)
    (hh : P h) : P (ZstHierarchy.setParent v depth h e p) := by
  induction depth generalizing h e p with
  | zero => exact hh
  | succ depth ih =>
    have hbase := movable.setParentBase p he hh
    refine List.foldlRecOn (motive := P) _ _ hbase fun k hk child hchild => ?_
    have hmoves := movable.child _ e child hbase hchild
    exact movable.addChildWith hv (fun h e p he hh => ih p he hh) e true hmoves
      (movable.removeChildWith (fun h e p he hh => ih p he hh) e hmoves hk)

theorem removeChild (movable : Movable S P) (hchild : S child) (hh : P h) :
    P (ZstHierarchy.removeChild v h p child) :=
  movable.removeChildWith (fun _ _ p he hh => movable.setParent hv _ p he hh) p hchild hh

theorem addChild (movable : Movable S P) (autoActivate : Bool) (hchild : S child) (hh : P h) :
    P (ZstHierarchy.addChild v h p child autoActivate) :=
  movable.addChildWith hv (fun _ _ p he hh => movable.setParent hv _ p he hh) p autoActivate
    hchild hh

theorem setNameBase (movable : Movable S P)
    (hpublish : ∀ h e path, P h → P (v.publishEntityUpdate h e path)) (name : ZstURI) (he : S e)
    (hh : P h) : P (ZstHierarchy.setNameBase v h e name) := by
  unfold ZstHierarchy.setNameBase
  simp only
  generalize (if (h.parent e).isSome then (h.entities e).uri.parent.add name else name) = uri
  have hrenamed := movable.rekey h e (fun x => { x with uri := uri }) (fun _ => rfl)
    (fun _ => rfl) he hh
  generalize (h.modify e fun x => { x with uri := uri }).updateURI e (h.entities e).uri = k
    at hrenamed ⊢
  cases k.parent e with
  | none => exact hpublish k e _ hrenamed
  | some p =>
    have hremoved := movable.removeChild hv (p := p) he hrenamed
    exact hpublish _ e _ (movable.addChild hv true he hremoved)

theorem setName (movable : Movable S P)
    (hpublish : ∀ h e path, P h → P (v.publishEntityUpdate h e path)) (name : ZstURI) (he : S e)
    (hh : P h) : P (ZstHierarchy.setName v h e name) := by
  have hrenamed := movable.setNameBase hv hpublish name he hh
  refine List.foldlRecOn (motive := P) _ _ hrenamed fun k hk child hchild => ?_
  have hmoves := movable.child h e child hh hchild
  exact movable.addChild hv true hmoves (movable.removeChild hv hmoves hk)

end Adopting

end Movable

/-! ## Edits -/

namespace TreeEdit

variable {h k l : ZstHierarchy}

theorem refl (h : ZstHierarchy) : TreeEdit h h :=
  ⟨fun _ => rfl, rfl, rfl, rfl, rfl, rfl, rfl, rfl, rfl, rfl, rfl⟩

theorem trans (hk : TreeEdit h k) (kl : TreeEdit k l) : TreeEdit h l :=
  ⟨fun e => (kl.entities e).trans (hk.entities e), kl.live.trans hk.live, kl.next.trans hk.next,
    kl.proxies.trans hk.proxies, kl.root.trans hk.root,
    kl.hierarchyEvents.trans hk.hierarchyEvents,
    kl.synchronisableEvents.trans hk.synchronisableEvents, kl.cleanupOps.trans hk.cleanupOps,
    kl.deadIDs.trans hk.deadIDs, kl.freedAccess.trans hk.freedAccess, kl.sent.trans hk.sent⟩

theorem of_modify (h : ZstHierarchy) (e : EntityId) (f : Entity → Entity)
    (hf : ∀ x, placeless (f x) = placeless x) : TreeEdit h (h.modify e f) := by
  refine ⟨fun d => ?_, rfl, rfl, rfl, rfl, rfl, rfl, rfl, rfl, rfl, rfl⟩
  rw [modify_entities]
  split
  · rename_i hde
    rw [hf, hde]
  · rfl

theorem of_lookup (h : ZstHierarchy) (lookup : ZstURI → Option EntityId) :
    TreeEdit h { h with lookup } :=
  ⟨fun _ => rfl, rfl, rfl, rfl, rfl, rfl, rfl, rfl, rfl, rfl, rfl⟩

theorem field {β : Type} (hk : TreeEdit h k) (f : Entity → β) (hf : ∀ x, f (placeless x) = f x)
    (e : EntityId) : f (k.entities e) = f (h.entities e) := by
  rw [← hf, hk.entities e, hf]

theorem updateURI (h : ZstHierarchy) (e : EntityId) (path : ZstURI) :
    TreeEdit h (h.updateURI e path) := by
  have hlookup : TreeEdit h (if (h.entities e).registered then h.updateEntityInLookup e path
      else h) := by
    split
    · exact (of_lookup h _).trans (of_lookup _ _)
    · exact .refl h
  unfold ZstHierarchy.updateURI
  simp only
  generalize (if (h.entities e).registered then h.updateEntityInLookup e path else h) = k
    at hlookup ⊢
  split
  · exact hlookup.trans (of_modify k e _ fun _ => rfl)
  · exact hlookup

theorem setParentBase (h : ZstHierarchy) (e : EntityId) (p : Option EntityId) :
    TreeEdit h (h.setParentBase e p) := by
  refine .trans ?_ (updateURI _ e _)
  exact of_modify h e _ fun _ => rfl

theorem registerEntity (h : ZstHierarchy) (e : EntityId) : TreeEdit h (h.registerEntity e) := by
  unfold ZstHierarchy.registerEntity
  have hlookup : TreeEdit h (h.addEntityToLookup e) := of_lookup h _
  exact hlookup.trans (of_modify _ e _ fun _ => rfl)

section Moves

variable {v : Overrides} (hv : ∀ h e, TreeEdit h (v.requestEntityActivation h e))

/-- A move edits the places of entities only. -/
theorem movable (h : ZstHierarchy) : Movable (fun _ => True) (TreeEdit h) where
  rekey k e f hf _ _ hk :=
    hk.trans ((of_modify k e f hf).trans (updateURI _ e (k.entities e).uri))
  relist k e _ hk := hk.trans (of_modify k e _ fun _ => rfl)
  register k e _ hk := hk.trans (registerEntity k e)
  child _ _ _ _ _ := trivial

include hv

theorem removeChild (h : ZstHierarchy) (p child : EntityId) :
    TreeEdit h (ZstHierarchy.removeChild v h p child) :=
  (movable h).removeChild (fun k e hk => hk.trans (hv k e)) trivial (.refl h)

theorem addChild (h : ZstHierarchy) (p child : EntityId) (autoActivate : Bool) :
    TreeEdit h (ZstHierarchy.addChild v h p child autoActivate) :=
  (movable h).addChild (fun k e hk => hk.trans (hv k e)) autoActivate trivial (.refl h)

theorem setName (hpublish : ∀ h e path, TreeEdit h (v.publishEntityUpdate h e path))
    (h : ZstHierarchy) (e : EntityId) (name : ZstURI) :
    TreeEdit h (ZstHierarchy.setName v h e name) :=
  (movable h).setName (fun k e hk => hk.trans (hv k e))
    (fun k e path hk => hk.trans (hpublish k e path)) name trivial (.refl h)

end Moves

theorem stage_activation (h : ZstHierarchy) (e : EntityId) :
    TreeEdit h (stageOverrides.requestEntityActivation h e) :=
  .refl h

end TreeEdit
end ZstHierarchy
end Showtime
