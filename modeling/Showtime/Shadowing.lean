import Showtime.Calls
import Showtime.Rename
/-!
# Entities at another entity's path

`add_child` looks for the child's URI among the children of the parent before
the child gets the path it will have there, and the lookup is written by plain
assignment. An entity that is put at the path of another one takes its place in
the table, and the other one stays alive.
-/

namespace Showtime.Shadowing

open ZstHierarchy Library Calls

/-! ## Whose path it is -/

/-- Registered entities do not share a path, and each is found at its own. -/
structure DistinctPaths (h : ZstHierarchy) : Prop where
  distinct : ∀ x y, (h.entities x).registered = true → (h.entities y).registered = true →
    (h.entities x).uri = (h.entities y).uri → x = y
  found : ∀ e, (h.entities e).registered = true → h.findEntity (h.entities e).uri = some e

/-- The path belongs to another registered entity. -/
def Taken (h : ZstHierarchy) (path : ZstURI) (e : EntityId) : Prop :=
  ∃ x, x ≠ e ∧ (h.entities x).registered = true ∧ (h.entities x).uri = path

/-- Only registered entities are found, and none of them is about to be destroyed. -/
structure Known (h : ZstHierarchy) : Prop where
  keyed : ∀ q e, h.lookup q = some e →
    (h.entities e).uri = q ∧ (h.entities e).registered = true
  root : ∀ r, h.root = some r → (h.entities r).registered = true
  quiet : NoRemovalQueued h

/-- All of them are, at their own paths. -/
structure HeldAtOwnPath (h : ZstHierarchy) : Prop extends Known h where
  held : ∀ e, (h.entities e).registered = true → h.lookup (h.entities e).uri = some e

/-- The entity is registered. -/
def IsRegistered (h : ZstHierarchy) (e : EntityId) : Prop :=
  (h.entities e).registered = true

/-- The children that registered entities find are registered. -/
theorem Known.closed {h : ZstHierarchy} (known : Known h) : Rename.Closed (IsRegistered h) h := by
  intro d _ q _ x hx
  unfold findEntity at hx
  split at hx
  · rename_i r hroot
    split at hx
    · obtain rfl := Option.some.inj hx
      exact known.root r hroot
    · exact (known.keyed q x hx).2
  · exact (known.keyed q x hx).2

namespace HeldAtOwnPath

variable {h k : ZstHierarchy} {e : EntityId}

theorem distinct (orderly : HeldAtOwnPath h) : DistinctPaths h := by
  have hdistinct (x y : EntityId) (hx : (h.entities x).registered = true)
      (hy : (h.entities y).registered = true) (huri : (h.entities x).uri = (h.entities y).uri) :
      x = y := by
    have hfound := orderly.held x hx
    rw [huri, orderly.held y hy] at hfound
    exact (Option.some.inj hfound).symm
  refine ⟨hdistinct, fun e he => ?_⟩
  unfold findEntity
  split
  · rename_i r hroot
    split
    · rename_i huri
      exact congrArg some (hdistinct r e (orderly.root r hroot) he huri)
    · exact orderly.held e he
  · exact orderly.held e he

/-- Something changes that neither the lookup nor the queues depend on. -/
theorem of_modify (orderly : HeldAtOwnPath h) (e : EntityId) (f : Entity → Entity)
    (huri : ∀ x, (f x).uri = x.uri) (hregistered : ∀ x, (f x).registered = x.registered)
    (hevents : ∀ x, (f x).synchronisableEvents = x.synchronisableEvents) :
    HeldAtOwnPath (h.modify e f) := by
  have hfield {α : Type} (field : Entity → α) (hf : ∀ x, field (f x) = field x) (x : EntityId) :
      field ((h.modify e f).entities x) = field (h.entities x) := by
    rw [modify_entities]
    split
    · rename_i hx
      rw [hf, hx]
    · rfl
  refine ⟨⟨fun q x hx => ?_, fun r hr => ?_, orderly.quiet.cleanupOps, fun x event hevent => ?_⟩,
    fun x hx => ?_⟩
  · rw [hfield _ hregistered, hfield _ huri]
    exact orderly.keyed q x hx
  · rw [hfield _ hregistered]
    exact orderly.root r hr
  · rw [hfield _ hevents] at hevent
    exact orderly.quiet.events x event hevent
  · rw [hfield _ hregistered] at hx
    rw [hfield _ huri]
    exact orderly.held x hx

/-- What `set_parent` does not write. -/
theorem setParentBase_field {α : Type} (field : Entity → α)
    (hf : ∀ x parentAddress uri creatables,
      field { x with parentAddress, uri, creatables } = field x)
    (parent : Option EntityId) (d : EntityId) :
    field ((h.setParentBase e parent).entities d) = field (h.entities d) := by
  have hset := updateURI_entities (h.modify e fun x =>
    { x with
      parentAddress := h.addressOf parent
      uri := reparentedURI x.uri (h.addressOf parent) }) e d (h.entities e).uri
  obtain ⟨creatables, hset⟩ := hset
  unfold setParentBase
  rw [hset, modify_entities]
  split
  · rename_i hde
    rw [hde]
    exact hf (h.entities e) _ _ creatables
  · exact hf _ (h.entities d).parentAddress (h.entities d).uri creatables

theorem setParentBase_registered (parent : Option EntityId) (d : EntityId) :
    ((h.setParentBase e parent).entities d).registered = (h.entities d).registered :=
  setParentBase_field Entity.registered (fun _ _ _ _ => rfl) parent d

theorem setParentBase_root (parent : Option EntityId) :
    (h.setParentBase e parent).root = h.root :=
  updateURI_root _ e _

theorem setParentBase_quiet (hquiet : NoRemovalQueued h) (parent : Option EntityId) :
    NoRemovalQueued (h.setParentBase e parent) := by
  refine ⟨(updateURI_cleanupOps _ e _).trans hquiet.cleanupOps, fun d event hevent => ?_⟩
  rw [setParentBase_field Entity.synchronisableEvents fun _ _ _ _ => rfl] at hevent
  exact hquiet.events d event hevent

theorem setParentBase_lookup (parent : Option EntityId) :
    (h.setParentBase e parent).lookup =
      if (h.entities e).registered then
        Function.update (Function.update h.lookup (h.entities e).uri none)
          (reparentedURI (h.entities e).uri (h.addressOf parent)) (some e)
      else h.lookup := by
  unfold setParentBase
  split
  · rename_i he
    rw [updateURI_lookup _ e _ (by rw [modify_entities_self, he]), modify_entities_self]
    rfl
  · rename_i he
    unfold updateURI
    simp only [modify_entities_self, he, Bool.false_eq_true, if_false]
    split <;> rfl

/-- An entity that gets a path of its own keeps the table in order, and so does
one that is not registered. -/
theorem setParentBase (orderly : HeldAtOwnPath h) (parent : Option EntityId)
    (hfree : (h.entities e).registered = true →
      ¬ Taken h (reparentedURI (h.entities e).uri (h.addressOf parent)) e) :
    HeldAtOwnPath (h.setParentBase e parent) := by
  have huri (x : EntityId) := setParentBase_uri h e x parent
  have hregistered := setParentBase_registered (h := h) (e := e) parent
  have hlookup := setParentBase_lookup (h := h) (e := e) parent
  refine ⟨⟨fun q x hx => ?_, fun r hr => ?_, setParentBase_quiet orderly.quiet parent⟩,
    fun x hx => ?_⟩
  · rw [hregistered, huri]
    rw [hlookup] at hx
    split at hx
    · rename_i he
      rw [Function.update_apply] at hx
      split at hx
      · rename_i hq
        obtain rfl := Option.some.inj hx
        rw [if_pos rfl]
        exact ⟨hq.symm, he⟩
      · rw [Function.update_apply] at hx
        split at hx
        · cases hx
        · rename_i hq
          have hkeyed := orderly.keyed q x hx
          rw [if_neg]
          · exact hkeyed
          · rintro rfl
            exact hq hkeyed.1.symm
    · rename_i he
      have hkeyed := orderly.keyed q x hx
      rw [if_neg]
      · exact hkeyed
      · rintro rfl
        exact he hkeyed.2
  · rw [hregistered]
    exact orderly.root r ((setParentBase_root parent).symm.trans hr)
  · rw [hregistered] at hx
    have hheld := orderly.held x hx
    rw [hlookup, huri]
    by_cases hxe : x = e
    · subst hxe
      rw [if_pos hx, if_pos rfl, Function.update_self]
    · rw [if_neg hxe]
      split
      · rename_i he
        have hnew : (h.entities x).uri ≠ reparentedURI (h.entities e).uri (h.addressOf parent) :=
          fun heq => hfree he ⟨x, hxe, hx, heq⟩
        have hold : (h.entities x).uri ≠ (h.entities e).uri :=
          fun heq => hxe (orderly.distinct.distinct x e hx he heq)
        rw [Function.update_of_ne hnew, Function.update_of_ne hold, hheld]
      · exact hheld

/-- At the path of another one it does not. -/
theorem setParentBase_taken (parent : Option EntityId) (he : (h.entities e).registered = true)
    (htaken : Taken h (reparentedURI (h.entities e).uri (h.addressOf parent)) e) :
    ¬ DistinctPaths (h.setParentBase e parent) := by
  obtain ⟨x, hxe, hx, huri⟩ := htaken
  intro hdistinct
  refine hxe (hdistinct.distinct x e ?_ ?_ ?_)
  · rw [setParentBase_registered, hx]
  · rw [setParentBase_registered, he]
  · rw [setParentBase_uri, setParentBase_uri, if_neg hxe, if_pos rfl, huri]

theorem registerEntity_registered (d : EntityId) :
    ((h.registerEntity e).entities d).registered =
      if d = e then true else (h.entities d).registered := by
  unfold ZstHierarchy.registerEntity
  rw [modify_entities]
  split <;> rfl

theorem registerEntity_uri (d : EntityId) :
    ((h.registerEntity e).entities d).uri = (h.entities d).uri := by
  unfold ZstHierarchy.registerEntity
  rw [modify_entities]
  split
  · rename_i hde
    rw [hde]
    rfl
  · rfl

theorem registerEntity_quiet (hquiet : NoRemovalQueued h) : NoRemovalQueued (h.registerEntity e) :=
  (Rename.Settles.registerEntity (S := (· = e)) h rfl).quiet hquiet

theorem registerEntity_lookup :
    (h.registerEntity e).lookup = Function.update h.lookup (h.entities e).uri (some e) := rfl

/-- The table knows a new entity at its path, whoever else has it. -/
theorem registerEntity_known (orderly : HeldAtOwnPath h) (e : EntityId) :
    Known (h.registerEntity e) := by
  refine ⟨fun q d hd => ?_, fun r hr => ?_, registerEntity_quiet orderly.quiet⟩
  · rw [registerEntity_uri, registerEntity_registered]
    rw [registerEntity_lookup, Function.update_apply] at hd
    split at hd
    · rename_i hq
      obtain rfl := Option.some.inj hd
      exact ⟨hq.symm, if_pos rfl⟩
    · obtain ⟨huri, hregistered⟩ := orderly.keyed q d hd
      rw [hregistered]
      exact ⟨huri, ite_self true⟩
  · rw [registerEntity_registered, orderly.root r hr]
    exact ite_self true

theorem registerEntity (orderly : HeldAtOwnPath h) (hfree : ¬ Taken h (h.entities e).uri e) :
    HeldAtOwnPath (h.registerEntity e) := by
  refine ⟨orderly.registerEntity_known e, fun x hx => ?_⟩
  rw [registerEntity_uri, registerEntity_lookup]
  by_cases hxe : x = e
  · rw [hxe, Function.update_self]
  · rw [registerEntity_registered, if_neg hxe] at hx
    rw [Function.update_of_ne fun heq => hfree ⟨x, hxe, hx, heq⟩, orderly.held x hx]

theorem settles (orderly : HeldAtOwnPath h) (hk : Rename.Settles (IsRegistered h) h k) :
    HeldAtOwnPath k := by
  have hregistered (x : EntityId) (hx : (k.entities x).registered = true) :
      (h.entities x).registered = true :=
    (hk.enrolled x hx).elim id id
  -- whoever is found was found before, or is there once more
  have hfound (q : ZstURI) (x : EntityId) (hx : k.lookup q = some x) :
      (h.entities x).uri = q ∧ (h.entities x).registered = true :=
    (hk.lookup q x hx).elim (orderly.keyed q x) And.symm
  refine ⟨⟨fun q x hx => ?_, fun r hr => ?_, hk.quiet orderly.quiet⟩, fun x hx => ?_⟩
  · obtain ⟨huri, hr⟩ := hfound q x hx
    exact ⟨(hk.uri x).trans huri, hk.registered x hr⟩
  · rw [hk.root] at hr
    exact hk.registered r (orderly.root r hr)
  · have hbefore := hregistered x hx
    rw [hk.uri]
    have hkept : k.lookup (h.entities x).uri ≠ none := by
      apply hk.kept
      rw [orderly.held x hbefore]
      exact Option.some_ne_none x
    obtain ⟨y, hy⟩ := Option.ne_none_iff_exists'.mp hkept
    obtain ⟨huri, hr⟩ := hfound _ y hy
    rw [hy, orderly.distinct.distinct y x hr hbefore huri]

end HeldAtOwnPath

/-! ## Registration and activation of a child -/

section Adopt

variable {v : Overrides} {h : ZstHierarchy} {p c : EntityId}

/-- The child is in the set of its parent, and registered if the parent is. -/
def enlist (h : ZstHierarchy) (p c : EntityId) : ZstHierarchy :=
  let k := h.modify p fun x =>
    { x with children := ZstURI.emplace x.children (h.entities c).uri }
  if (h.entities p).registered && !(h.entities c).registered then k.registerEntity c else k

theorem modify_children_registered (f : Entity → List ZstURI) (e : EntityId) :
    ((h.modify p fun x => { x with children := f x }).entities e).registered =
      (h.entities e).registered := by
  rw [modify_entities]
  split
  · rename_i hep
    rw [hep]
  · rfl

theorem modify_children_uri (f : Entity → List ZstURI) (e : EntityId) :
    ((h.modify p fun x => { x with children := f x }).entities e).uri = (h.entities e).uri := by
  rw [modify_entities]
  split
  · rename_i hep
    rw [hep]
  · rfl

theorem adoptChild_eq (autoActivate : Bool) :
    adoptChild v h p c autoActivate = enlist h p c ∨
      adoptChild v h p c autoActivate = v.requestEntityActivation (enlist h p c) c := by
  have henlist : (
      let k := h.modify p fun x =>
        { x with children := ZstURI.emplace x.children (h.entities c).uri }
      if (k.entities p).registered && !(k.entities c).registered then k.registerEntity c
      else k) = enlist h p c := by
    unfold enlist
    simp only [modify_children_registered]
  unfold adoptChild
  simp only at henlist ⊢
  rw [henlist]
  split
  · exact Or.inr rfl
  · exact Or.inl rfl

/-- An activation changes no path, and registers nobody else. -/
theorem activation_settles (hv : Rename.IsHierarchy v) {S : EntityId → Prop}
    (hclosed : Rename.Closed S h) (hquiet : NoRemovalQueued h) (hc : S c) :
    Rename.Settles S h (v.requestEntityActivation h c) := by
  cases hv with
  | stage => exact .refl h
  | client link fuel =>
    cases fuel with
    | zero => exact .refl h
    | succ fuel => exact .activateEntity _ link fuel hclosed hquiet hc .syncReply

theorem adoptChild_settles (hv : Rename.IsHierarchy v) (known : Known (enlist h p c))
    (hc : ((enlist h p c).entities c).registered = true) (autoActivate : Bool) :
    Rename.Settles (IsRegistered (enlist h p c)) (enlist h p c)
      (adoptChild v h p c autoActivate) := by
  rcases adoptChild_eq (v := v) (h := h) (p := p) (c := c) autoActivate with heq | heq
  · rw [heq]
    exact .refl _
  · rw [heq]
    exact activation_settles hv known.closed known.quiet hc

/-- The child of a registered parent is registered, and so is whoever was before. -/
theorem enlist_registered (hp : (h.entities p).registered = true) (e : EntityId) :
    ((enlist h p c).entities e).registered = if e = c then true else (h.entities e).registered := by
  unfold enlist
  cases hc : (h.entities c).registered with
  | true =>
    simp only [hp, Bool.not_true, Bool.and_false, Bool.false_eq_true, if_false]
    rw [modify_children_registered]
    split
    · rename_i hec
      rw [hec, hc]
    · rfl
  | false =>
    simp only [hp, Bool.not_false, Bool.and_true, if_true]
    rw [HeldAtOwnPath.registerEntity_registered, modify_children_registered]

theorem enlist_uri (e : EntityId) : ((enlist h p c).entities e).uri = (h.entities e).uri := by
  unfold enlist
  simp only
  split
  · rw [HeldAtOwnPath.registerEntity_uri, modify_children_uri]
  · rw [modify_children_uri]

theorem HeldAtOwnPath.enlist_known (orderly : HeldAtOwnPath h) : Known (enlist h p c) := by
  have hmodified := orderly.of_modify p (fun x =>
    { x with children := ZstURI.emplace x.children (h.entities c).uri }) (fun _ => rfl)
    (fun _ => rfl) fun _ => rfl
  unfold enlist
  simp only
  split
  · exact hmodified.registerEntity_known c
  · exact hmodified.toKnown

theorem HeldAtOwnPath.enlist (orderly : HeldAtOwnPath h)
    (hfree : (h.entities p).registered = true → (h.entities c).registered = false →
      ¬ Taken h (h.entities c).uri c) : HeldAtOwnPath (enlist h p c) := by
  have hmodified := orderly.of_modify p (fun x =>
    { x with children := ZstURI.emplace x.children (h.entities c).uri }) (fun _ => rfl)
    (fun _ => rfl) fun _ => rfl
  unfold Shadowing.enlist
  simp only
  split
  · rename_i hregisters
    rw [Bool.and_eq_true, Bool.not_eq_true'] at hregisters
    refine hmodified.registerEntity ?_
    rintro ⟨x, hxc, hx, huri⟩
    rw [modify_children_registered] at hx
    rw [modify_children_uri, modify_children_uri] at huri
    exact hfree hregisters.1 hregisters.2 ⟨x, hxc, hx, huri⟩
  · exact hmodified

theorem HeldAtOwnPath.adoptChild (orderly : HeldAtOwnPath h) (hv : Rename.IsHierarchy v)
    (hp : (h.entities p).registered = true) (autoActivate : Bool)
    (hfree : (h.entities c).registered = false → ¬ Taken h (h.entities c).uri c) :
    HeldAtOwnPath (adoptChild v h p c autoActivate) := by
  have henlisted := orderly.enlist (p := p) fun _ => hfree
  refine henlisted.settles (adoptChild_settles hv henlisted.toKnown ?_ autoActivate)
  rw [enlist_registered hp, if_pos rfl]

/-- A child that is registered at the path of another one shadows it. -/
theorem HeldAtOwnPath.adoptChild_taken (orderly : HeldAtOwnPath h) (hv : Rename.IsHierarchy v)
    (hp : (h.entities p).registered = true) (autoActivate : Bool)
    (htaken : Taken h (h.entities c).uri c) :
    ¬ DistinctPaths (ZstHierarchy.adoptChild v h p c autoActivate) := by
  obtain ⟨x, hxc, hx, huri⟩ := htaken
  have hregistered (e : EntityId) := enlist_registered (h := h) (c := c) hp e
  have hsettles := adoptChild_settles hv (orderly.enlist_known (p := p) (c := c))
    (by rw [hregistered, if_pos rfl]) autoActivate
  intro hdistinct
  refine hxc (hdistinct.distinct x c ?_ ?_ ?_)
  · apply hsettles.registered
    rw [hregistered, if_neg hxc, hx]
  · apply hsettles.registered
    rw [hregistered, if_pos rfl]
  · rw [hsettles.uri, hsettles.uri, enlist_uri, enlist_uri, huri]

end Adopt

/-! ## Runs of `add_child` -/

/-- No call puts an entity at another one's path: the path that `set_parent` gives
a registered entity, the path at which a child is registered, and the path that a
child will have unless it is refused. -/
def TakesFreePath (h : ZstHierarchy) : Call → Prop
  | .addChild p c _ => Taken h (reparentedURI (h.entities c).uri (h.entities p).uri) c →
      (h.entities p).isComponent = true ∧ (h.entities c).uri ∈ (h.entities p).children
  | .removeChild _ _ => True
  | .setParent e parent => (h.entities e).registered = true →
      ¬ Taken h (reparentedURI (h.entities e).uri (h.addressOf parent)) e
  | .adopt _ c _ => (h.entities c).registered = false → ¬ Taken h (h.entities c).uri c

/-- A child is refused if its path belongs to another entity: nothing changes, and
nothing is left to do. -/
def Refuses (v : Overrides) (h : ZstHierarchy) : Call → Prop
  | .addChild p c autoActivate =>
    Taken h (reparentedURI (h.entities c).uri (h.entities p).uri) c →
      perform v h (.addChild p c autoActivate) = (h, [])
  | _ => True

/-- Children are given to registered entities. -/
def ToRegistered (h : ZstHierarchy) : Call → Prop
  | .addChild p _ _ => (h.entities p).registered = true
  | .removeChild _ _ => True
  | .setParent _ _ => True
  | .adopt p _ _ => (h.entities p).registered = true

section Runs

variable {v : Overrides} {h : ZstHierarchy} {call : Call}

theorem perform_orderly (hv : Rename.IsHierarchy v) (orderly : HeldAtOwnPath h)
    (hto : ToRegistered h call) (hclear : TakesFreePath h call) : HeldAtOwnPath
    (perform v h call).1 := by
  cases call with
  | addChild p c autoActivate =>
    simp only [perform]
    split_ifs <;> exact orderly
  | removeChild p c =>
    simp only [perform]
    split_ifs
    · exact orderly.of_modify p (fun x => { x with children := x.children.erase _ })
        (fun _ => rfl) (fun _ => rfl) fun _ => rfl
    · exact orderly
  | setParent e parent => exact orderly.setParentBase parent hclear
  | adopt p c autoActivate => exact orderly.adoptChild hv hto autoActivate hclear

/-- No call takes a registration back. -/
theorem perform_registered (hv : Rename.IsHierarchy v) (orderly : HeldAtOwnPath h)
    (hto : ToRegistered h call) {e : EntityId} (he : (h.entities e).registered = true) :
    ((perform v h call).1.entities e).registered = true := by
  cases call with
  | addChild p c autoActivate =>
    simp only [perform]
    split_ifs <;> exact he
  | removeChild p c =>
    simp only [perform]
    split_ifs
    · rw [modify_children_registered, he]
    · exact he
  | setParent d parent =>
    rw [← he]
    exact HeldAtOwnPath.setParentBase_registered parent e
  | adopt p c autoActivate =>
    have hregistered (d : EntityId) := enlist_registered (h := h) (c := c) hto d
    apply (adoptChild_settles hv (orderly.enlist_known (p := p) (c := c))
      (by rw [hregistered, if_pos rfl]) autoActivate).registered
    rw [hregistered, he]
    exact ite_self true

/-- The calls that a call makes are given to registered entities. -/
theorem perform_toRegistered (hto : ToRegistered h call) :
    ∀ next ∈ (perform v h call).2, ToRegistered (perform v h call).1 next := by
  cases call with
  | addChild p c autoActivate =>
    simp only [perform]
    split_ifs
    · exact fun _ hnext => absurd hnext List.not_mem_nil
    · intro next hnext
      rcases List.mem_pair.mp hnext with rfl | rfl
      · trivial
      · exact hto
    · intro next hnext
      rw [List.mem_singleton.mp hnext]
      trivial
  | removeChild p c =>
    simp only [perform]
    split_ifs
    all_goals
      intro next hnext
      rw [List.mem_singleton.mp hnext]
      trivial
  | setParent e parent =>
    intro next hnext
    obtain ⟨c, hc, hnext⟩ := List.mem_flatMap.mp hnext
    rcases List.mem_pair.mp hnext with rfl | rfl
    · trivial
    · -- only a registered component finds its children
      change c ∈ (h.setParentBase e parent).childEntities e at hc
      unfold childEntities at hc
      split at hc
      · obtain ⟨q, -, hfind⟩ := List.mem_filterMap.mp hc
        unfold getChildByURI at hfind
        split at hfind
        · rename_i hregistered
          exact hregistered
        · cases hfind
      · cases hc
  | adopt p c autoActivate => exact fun _ hnext => absurd hnext List.not_mem_nil

/-- A call leaves the paths distinct and refuses what it should exactly if it is clear. -/
theorem perform_exact (hv : Rename.IsHierarchy v) (orderly : HeldAtOwnPath h)
    (hto : ToRegistered h call) :
    DistinctPaths (perform v h call).1 ∧ Refuses v h call ↔ TakesFreePath h call := by
  constructor
  · rintro ⟨hdistinct, hrefuses⟩
    cases call with
    | addChild p c autoActivate =>
      intro htaken
      have hnothing := hrefuses htaken
      simp only [perform] at hnothing
      split_ifs at hnothing with hcomponent hlisted
      · exact ⟨hcomponent, hlisted⟩
      · cases hnothing
      · cases hnothing
    | removeChild p c => trivial
    | setParent e parent =>
      intro he htaken
      exact HeldAtOwnPath.setParentBase_taken parent he htaken hdistinct
    | adopt p c autoActivate =>
      intro _ htaken
      exact orderly.adoptChild_taken hv hto autoActivate htaken hdistinct
  · intro hclear
    refine ⟨(perform_orderly hv orderly hto hclear).distinct, ?_⟩
    cases call with
    | addChild p c autoActivate =>
      intro htaken
      obtain ⟨hcomponent, hlisted⟩ := hclear htaken
      simp only [perform]
      rw [if_pos hcomponent, if_pos hlisted]
    | removeChild p c => trivial
    | setParent e parent => trivial
    | adopt p c autoActivate => trivial

/-- The calls of `add_child` that a program makes, one after the other. -/
def start (h : ZstHierarchy) (children : List (EntityId × EntityId × Bool)) :
    Worklist ZstHierarchy Call :=
  ⟨h, children.map fun child => .addChild child.1 child.2.1 child.2.2⟩

/-- The state after so many of the calls, and what is left to do. -/
def after (v : Overrides) (h : ZstHierarchy) (children : List (EntityId × EntityId × Bool))
    (n : Nat) : Worklist ZstHierarchy Call :=
  (Worklist.step (perform v))^[n] (start h children)

/-- The hierarchy is in order, and what is left to do is done for registered parents. -/
def TasksRegistered (s : Worklist ZstHierarchy Call) : Prop :=
  HeldAtOwnPath s.state ∧ ∀ call ∈ s.tasks, ToRegistered s.state call

theorem ToRegistered.mono {k : ZstHierarchy} (hto : ToRegistered h call)
    (hkept : ∀ e, (h.entities e).registered = true → (k.entities e).registered = true) :
    ToRegistered k call := by
  cases call with
  | addChild p c autoActivate => exact hkept p hto
  | removeChild p c => trivial
  | setParent e parent => trivial
  | adopt p c autoActivate => exact hkept p hto

theorem TasksRegistered.step (hv : Rename.IsHierarchy v) (s : Worklist ZstHierarchy Call)
    (hs : TasksRegistered s)
    (hclear : Worklist.Next TakesFreePath s) :
    TasksRegistered (Worklist.step (perform v) s) := by
  obtain ⟨h, calls⟩ := s
  cases calls with
  | nil => exact hs
  | cons call calls =>
    obtain ⟨orderly, hcalls⟩ := hs
    have hto : ToRegistered h call := hcalls call (List.mem_cons_self ..)
    refine ⟨perform_orderly hv orderly hto (Worklist.next_cons.mp hclear), fun next hnext => ?_⟩
    rcases List.mem_append.mp hnext with hnew | hold
    · exact perform_toRegistered hto next hnew
    · exact (hcalls next (List.mem_cons_of_mem call hold)).mono fun e he =>
        perform_registered hv orderly hto he

theorem TasksRegistered.exact (hv : Rename.IsHierarchy v) (s : Worklist ZstHierarchy Call)
    (hs : TasksRegistered s) :
    DistinctPaths (Worklist.step (perform v) s).state ∧ Worklist.Next (Refuses v) s ↔
      Worklist.Next TakesFreePath s := by
  obtain ⟨h, calls⟩ := s
  cases calls with
  | nil => exact iff_of_true ⟨hs.1.distinct, Worklist.next_nil h⟩ (Worklist.next_nil h)
  | cons call calls =>
    rw [Worklist.next_cons, Worklist.next_cons]
    exact perform_exact hv hs.1 (hs.2 call (List.mem_cons_self ..))

/-- **Paths of their own.** However often children are given to registered entities,
the registered entities keep paths of their own, and a child whose path belongs to
another one is refused, if and only if every call on the way is clear. -/
theorem add_child_distinct_iff (v : Overrides) (h : ZstHierarchy)
    (children : List (EntityId × EntityId × Bool)) (n : Nat) (hv : Rename.IsHierarchy v)
    (orderly : HeldAtOwnPath h)
    (hparents : ∀ child ∈ children, (h.entities child.1).registered = true) :
    ((∀ m ≤ n, DistinctPaths (after v h children m).state) ∧
        ∀ m < n, (after v h children m).Next (Refuses v)) ↔
      ∀ m < n, (after v h children m).Next TakesFreePath := by
  refine Worklist.iterate_iff (TasksRegistered.step hv) (fun s hs => hs.1.distinct)
    (TasksRegistered.exact hv) n
    ⟨orderly, fun call hcall => ?_⟩
  obtain ⟨child, hchild, rfl⟩ := List.mem_map.mp hcall
  exact hparents child hchild

end Runs

/-! ## Two components with plugs of one name -/

theorem orderly_ofList {entities : List Entity} {root : Option EntityId}
    (hnodup : (entities.map Entity.uri).Nodup) (hregistered : ∀ x ∈ entities, x.registered = true)
    (hroot : ∀ r ∈ root, r < entities.length)
    (hevents : ∀ x ∈ entities, x.synchronisableEvents = []) : HeldAtOwnPath
    (ofList entities root) := by
  have hentity (e : EntityId) (he : e < entities.length) :
      ((ofList entities root).entities e).registered = true := by
    rw [ofList_entities (List.getElem?_eq_getElem he)]
    exact hregistered _ (List.getElem_mem he)
  refine ⟨⟨fun q e he => ?_, fun r hr => hentity r (hroot r hr), quiet_ofList hevents⟩,
    fun e he => ?_⟩
  · obtain ⟨hlt, huri⟩ := ofList_lookup he
    exact ⟨huri, hentity e hlt⟩
  · by_cases hlt : e < entities.length
    · refine (ofList_lookup_iff hnodup).mpr ⟨entities[e], List.getElem?_eq_getElem hlt, ?_⟩
      rw [ofList_entities (List.getElem?_eq_getElem hlt)]
    · have hnone : entities[e]? = none := List.getElem?_eq_none (Nat.le_of_not_lt hlt)
      simp [ofList, List.getD_eq_getElem?_getD, hnone] at he

/-- Who has the path, where the table is in order. -/
theorem HeldAtOwnPath.not_taken {h : ZstHierarchy} (orderly : HeldAtOwnPath h) {path : ZstURI}
    {e : EntityId}
    (hfind : ∀ x ∈ h.findEntity path, x = e) : ¬ Taken h path e := by
  rintro ⟨x, hxe, hx, rfl⟩
  exact hxe (hfind x (orderly.distinct.found x hx))

/-- The client `ada` with an oscillator on the left, and `name` on the right. -/
def rackTree (name : String) : ZstHierarchy :=
  ofList
    [ { entityType := .performer, uri := ["ada"], registered := true
        children := [["ada", "left"], ["ada", "right"]] },
      { entityType := .component, uri := ["ada", "left"], parentAddress := ["ada"]
        registered := true, children := [["ada", "left", "osc"]] },
      { entityType := .component, uri := ["ada", "right"], parentAddress := ["ada"]
        registered := true, children := [["ada", "right", name]] },
      { entityType := .component, uri := ["ada", "left", "osc"], parentAddress := ["ada", "left"]
        registered := true },
      { entityType := .component, uri := ["ada", "right", name]
        parentAddress := ["ada", "right"], registered := true } ] (some 0)

/-- A client that is not connected. -/
def offline : Overrides :=
  ZstClientHierarchy.overrides { connected := false, answer := fun _ => none } 0

theorem rackTree_orderly (name : String) (hname : name = "osc" ∨ name = "lfo") :
    HeldAtOwnPath (rackTree name) := by
  rcases hname with rfl | rfl
  all_goals exact orderly_ofList (by decide) (by decide) (by decide) (by decide)

/-- The oscillator moves to the right, where its name is free. -/
theorem add_child_distinct_iff_lfo :
    (∀ m ≤ 3, DistinctPaths (after offline (rackTree "lfo") [(2, 3, true)] m).state) ∧
      ∀ m < 3, (after offline (rackTree "lfo") [(2, 3, true)] m).Next (Refuses offline) := by
  have orderly := rackTree_orderly "lfo" (Or.inr rfl)
  have hfree : ¬ Taken (rackTree "lfo") ["ada", "right", "osc"] 3 := orderly.not_taken (by decide)
  refine (add_child_distinct_iff offline (rackTree "lfo") [(2, 3, true)] 3 (.client _ 0) orderly
    (by decide)).mpr fun m hm => ?_
  obtain rfl | rfl | rfl : m = 0 ∨ m = 1 ∨ m = 2 := by omega
  · exact Worklist.next_cons.mpr fun htaken => absurd htaken hfree
  · exact Worklist.next_cons.mpr fun _ htaken => hfree htaken
  · exact Worklist.next_cons.mpr fun hunregistered => absurd hunregistered (by decide)

/-- The oscillator that was on the right is alive, and is not found any more. -/
theorem osc_shadowed :
    ¬ ∀ (v : Overrides) (h : ZstHierarchy) (children : List (EntityId × EntityId × Bool)) (n : Nat),
      Rename.IsHierarchy v → HeldAtOwnPath h →
        (∀ child ∈ children, (h.entities child.1).registered = true) →
          (∀ m ≤ n, DistinctPaths (after v h children m).state) ∧
            ∀ m < n, (after v h children m).Next (Refuses v) := by
  intro hall
  have hdistinct := (hall offline (rackTree "osc") [(2, 3, true)] 3 (.client _ 0)
    (rackTree_orderly "osc" (Or.inl rfl)) (by decide)).1 3 le_rfl
  exact absurd (hdistinct.found 4 (by decide)) (by decide)

end Showtime.Shadowing
