import Showtime.Calls
import Showtime.Indexed
/-!
# Entities with a name

`set_parent` and `set_name` take the last segment of an entity's path, and
`ZstURI::last` throws where there is none. As long as every entity has one,
whatever is moved or renamed keeps it, and nothing throws.
-/

namespace Showtime.NamedEntities

open ZstHierarchy ZstStage Library Calls

/-! ## Names -/

/-- The entity has a last segment, and so have the creatables of a factory. -/
structure HasName (x : Entity) : Prop where
  last : x.uri.last ≠ []
  creatables : x.entityType = .factory → [] ∉ x.creatables

/-- `set_parent` and `set_name` throw: `ZstURI::last` needs a segment. -/
def Nameless (x : Entity) : Prop :=
  x.uri = [] ∨ x.entityType = .factory ∧ [] ∈ x.creatables

theorem HasName.not_nameless {x : Entity} (named : HasName x) : ¬ Nameless x := by
  rintro (huri | ⟨hkind, hempty⟩)
  · apply named.last
    rw [huri]
    rfl
  · exact named.creatables hkind hempty

theorem add_ne_nil (u v : ZstURI) : u.add v ≠ [] := by
  have hoperand : ZstURI.asOperand u ≠ [] := by
    unfold ZstURI.asOperand
    split
    · exact List.cons_ne_nil _ _
    · assumption
  unfold ZstURI.add
  simp [hoperand]

theorem HasName.updateCreateableURIs {x : Entity} (hlast : x.uri.last ≠ [])
    (hcreatables : [] ∉ x.creatables) : HasName x.updateCreateableURIs := by
  refine ⟨hlast, fun _ hempty => ?_⟩
  obtain ⟨c, hc, heq⟩ := List.mem_map.mp hempty
  split at heq
  · rw [heq] at hc
    exact hcreatables hc
  · exact add_ne_nil _ _ heq

theorem last_reparentedURI {u : ZstURI} (parent : ZstURI) (hu : u.last ≠ []) :
    (reparentedURI u parent).last ≠ [] := by
  unfold reparentedURI
  split
  · rw [ZstURI.last_last]
    exact hu
  · split
    · exact hu
    · rw [ZstURI.last_add]
      exact hu

/-! ## Moving named entities -/

/-- The table is in order, and everybody on the heap has a name. -/
structure Marked (n : Nat) (h : ZstHierarchy) : Prop where
  indexed : Indexed h
  next : h.next = n
  named : ∀ e < n, HasName (h.entities e)

/-- The call moves an entity of the heap. -/
def MovesInHeap (n : Nat) : Call → Prop
  | .addChild _ c _ => c < n
  | .removeChild _ c => c < n
  | .setParent e _ => e < n
  | .adopt _ c _ => c < n

section Moving

variable {n : Nat} {h k : ZstHierarchy} {e : EntityId}

theorem updateURI_entity (h : ZstHierarchy) (e d : EntityId) (path : ZstURI) :
    (h.updateURI e path).entities d =
      if d = e ∧ (h.entities e).entityType = .factory then (h.entities e).updateCreateableURIs
      else h.entities d := by
  have hlookup : (if (h.entities e).registered then h.updateEntityInLookup e path else h).entities =
      h.entities := by
    split <;> rfl
  unfold updateURI
  simp only
  generalize (if (h.entities e).registered then h.updateEntityInLookup e path else h) = k
    at hlookup ⊢
  rw [hlookup]
  split
  · rename_i hkind
    rw [modify_entities, hlookup]
    simp [hkind]
  · rename_i hkind
    rw [hlookup]
    simp [hkind]

namespace Marked

/-- Somebody changes in what has nothing to do with names. -/
theorem modify (marked : Marked n h) (e : EntityId) (f : Entity → Entity)
    (huri : ∀ x, (f x).uri = x.uri) (hregistered : ∀ x, (f x).registered = x.registered)
    (hkind : ∀ x, (f x).entityType = x.entityType)
    (hcreatables : ∀ x, (f x).creatables = x.creatables) : Marked n (h.modify e f) := by
  refine ⟨marked.indexed.modify e f huri hregistered, marked.next, fun d hd => ?_⟩
  have hnamed := marked.named d hd
  rw [modify_entities]
  split
  · rename_i hde
    rw [← hde]
    refine ⟨?_, ?_⟩
    · rw [huri]
      exact hnamed.last
    · rw [hkind, hcreatables]
      exact hnamed.creatables
  · exact hnamed

/-- An entity gets another URI with a last segment. -/
theorem rekey (marked : Marked n h) {f : Entity → Entity}
    (hregistered : ∀ x, (f x).registered = x.registered)
    (hkind : ∀ x, (f x).entityType = x.entityType)
    (hcreatables : ∀ x, (f x).creatables = x.creatables)
    (hlast : (f (h.entities e)).uri.last ≠ []) (he : e < n) :
    Marked n ((h.modify e f).updateURI e (h.entities e).uri) := by
  refine ⟨marked.indexed.rekey f hregistered, ?_, fun d hd => ?_⟩
  · rw [(TreeEdit.updateURI _ _ _).next]
    exact marked.next
  · have hself := marked.named e he
    rw [updateURI_entity, modify_entities_self, modify_entities]
    split
    · rename_i hupdates
      refine HasName.updateCreateableURIs hlast ?_
      rw [hcreatables]
      rw [hkind] at hupdates
      exact hself.creatables hupdates.2
    · split
      · refine ⟨hlast, ?_⟩
        rw [hkind, hcreatables]
        exact hself.creatables
      · exact marked.named d hd

theorem registerEntity (marked : Marked n h) (he : e < n) : Marked n (h.registerEntity e) := by
  refine ⟨marked.indexed.registerEntity (marked.next.symm ▸ he), marked.next, fun d hd => ?_⟩
  have hnamed := marked.named d hd
  unfold ZstHierarchy.registerEntity
  rw [modify_entities]
  split
  · rename_i hde
    rw [hde] at hnamed
    exact ⟨hnamed.last, hnamed.creatables⟩
  · exact hnamed

theorem child_lt (marked : Marked n h) {c : EntityId} (hc : c ∈ h.childEntities e) : c < n := by
  unfold childEntities at hc
  split at hc
  · obtain ⟨q, -, hfind⟩ := List.mem_filterMap.mp hc
    unfold getChildByURI at hfind
    split at hfind
    · rw [marked.indexed.findEntity_eq] at hfind
      exact marked.next ▸ marked.indexed.lt_next hfind
    · cases hfind
  · cases hc

theorem setParentBase (marked : Marked n h) (he : e < n) (parent : Option EntityId) :
    Marked n (h.setParentBase e parent) :=
  marked.rekey (fun _ => rfl) (fun _ => rfl) (fun _ => rfl)
    (last_reparentedURI _ (marked.named e he).last) he

theorem adoptChild (marked : Marked n h) (p : EntityId) {c : EntityId} (hc : c < n)
    (autoActivate : Bool) : Marked n (adoptChild stageOverrides h p c autoActivate) := by
  have hlisted : Marked n (h.modify p fun x =>
      { x with children := ZstURI.emplace x.children (h.entities c).uri }) :=
    marked.modify p _ (fun _ => rfl) (fun _ => rfl) (fun _ => rfl) fun _ => rfl
  unfold ZstHierarchy.adoptChild
  simp only
  generalize (h.modify p fun x =>
    { x with children := ZstURI.emplace x.children (h.entities c).uri }) = k at hlisted ⊢
  split_ifs
  all_goals first | exact hlisted.registerEntity hc | exact hlisted

/-- One call moves named entities to places with a name. -/
theorem perform (h : ZstHierarchy) (call : Call) (hmoves : MovesInHeap n call)
    (marked : Marked n h) :
    Marked n (perform stageOverrides h call).1 ∧
      ∀ next ∈ (Calls.perform stageOverrides h call).2, MovesInHeap n next := by
  cases call with
  | addChild p c autoActivate =>
    simp only [Calls.perform]
    split_ifs
    · exact ⟨marked, fun _ hnext => absurd hnext List.not_mem_nil⟩
    · refine ⟨marked, fun next hnext => ?_⟩
      rcases List.mem_pair.mp hnext with rfl | rfl
      · exact hmoves
      · exact hmoves
    · refine ⟨marked, fun next hnext => ?_⟩
      rw [List.mem_singleton.mp hnext]
      exact hmoves
  | removeChild p c =>
    have hnext : ∀ next ∈ [Call.setParent c none], MovesInHeap n next := by
      intro next hnext
      rw [List.mem_singleton.mp hnext]
      exact hmoves
    simp only [Calls.perform]
    split_ifs
    · refine ⟨?_, hnext⟩
      exact marked.modify p (fun x => { x with children := x.children.erase _ })
        (fun _ => rfl) (fun _ => rfl) (fun _ => rfl) fun _ => rfl
    · exact ⟨marked, hnext⟩
  | setParent e parent =>
    have hset : Marked n (h.setParentBase e parent) := marked.setParentBase hmoves parent
    refine ⟨hset, fun next hnext => ?_⟩
    obtain ⟨c, hc, hnext⟩ := List.mem_flatMap.mp hnext
    have hlt : c < n := hset.child_lt hc
    rcases List.mem_pair.mp hnext with rfl | rfl
    · exact hlt
    · exact hlt
  | adopt p c autoActivate =>
    exact ⟨marked.adoptChild p hmoves autoActivate, fun _ hnext => absurd hnext List.not_mem_nil⟩

theorem eval_zero (h : ZstHierarchy) (call : Call) (hmoves : MovesInHeap n call)
    (marked : Marked n h) :
    Marked n (eval stageOverrides 0 h call) := by
  cases call with
  | addChild p c autoActivate =>
    simp only [Calls.eval, addChildWith]
    split_ifs
    · exact marked
    · exact marked.adoptChild p hmoves autoActivate
    · exact marked
  | removeChild p c =>
    simp only [Calls.eval, removeChildWith]
    split_ifs
    · exact marked.modify p (fun x => { x with children := x.children.erase _ })
        (fun _ => rfl) (fun _ => rfl) (fun _ => rfl) fun _ => rfl
    · exact marked
  | setParent e parent => exact marked
  | adopt p c autoActivate => exact marked.adoptChild p hmoves autoActivate

theorem eval (marked : Marked n h) {call : Call} (hmoves : MovesInHeap n call) (depth : Nat) :
    Marked n (eval stageOverrides depth h call) :=
  Worklist.eval_tasks perform eval_zero (eval_succ stageOverrides) depth hmoves marked

end Marked

/-! ## Renaming -/

/-- The beginning of `set_name`: the entity has its new URI, and nobody else has moved. -/
def renameTo (h : ZstHierarchy) (e : EntityId) (name : ZstURI) : ZstHierarchy :=
  let uri := if (h.parent e).isSome then (h.entities e).uri.parent.add name else name
  (h.modify e fun x => { x with uri := uri }).updateURI e (h.entities e).uri

/-- The calls that `set_name` makes then: the parent lists the entity again, and the
entity its children. -/
def renameCalls (h : ZstHierarchy) (e : EntityId) (name : ZstURI) : List Call :=
  (((renameTo h e name).parent e).toList.flatMap fun p => [.removeChild p e, .addChild p e true]) ++
    (h.childEntities e).flatMap fun c => [.removeChild e c, .addChild e c true]

theorem adoptChild_edits (h : ZstHierarchy) (p c : EntityId) (autoActivate : Bool) :
    TreeEdit h (adoptChild stageOverrides h p c autoActivate) :=
  (TreeEdit.movable h).adoptChild (fun _ _ hk => hk) p autoActivate trivial (.refl h)

/-- Whatever is moved, the places of entities are all that changes. -/
theorem perform_edits (h : ZstHierarchy) (call : Call) :
    TreeEdit h (perform stageOverrides h call).1 := by
  cases call with
  | addChild p c autoActivate =>
    simp only [perform]
    split_ifs <;> exact .refl h
  | removeChild p c =>
    simp only [perform]
    split_ifs
    · exact .of_modify h p (fun x => { x with children := x.children.erase _ }) fun _ => rfl
    · exact .refl h
  | setParent e parent => exact .setParentBase h e parent
  | adopt p c autoActivate => exact adoptChild_edits h p c autoActivate

theorem eval_edits (depth : Nat) (h : ZstHierarchy) (call : Call) :
    TreeEdit h (eval stageOverrides depth h call) := by
  refine Worklist.eval_tasks (P := TreeEdit h) (C := fun _ => True)
    (fun k call _ hk => ⟨hk.trans (perform_edits k call), fun _ _ => trivial⟩)
    (fun k call _ hk => hk.trans ?_) (eval_succ stageOverrides) depth trivial (.refl h)
  cases call with
  | addChild p c autoActivate =>
    simp only [eval, addChildWith]
    split_ifs
    · exact .refl k
    · exact adoptChild_edits k p c autoActivate
    · exact .refl k
  | removeChild p c =>
    simp only [eval, removeChildWith]
    split_ifs
    · exact .of_modify k p (fun x => { x with children := x.children.erase _ }) fun _ => rfl
    · exact .refl k
  | setParent e parent => exact .refl k
  | adopt p c autoActivate => exact adoptChild_edits k p c autoActivate

theorem renameTo_edits (h : ZstHierarchy) (e : EntityId) (name : ZstURI) :
    TreeEdit h (renameTo h e name) := by
  unfold renameTo
  refine .trans ?_ (.updateURI _ e _)
  exact .of_modify h e _ fun _ => rfl

/-- A child is taken off and added again. -/
theorem reattach_eq {h k : ZstHierarchy} (hk : k.next = h.next) (p c : EntityId) :
    addChild stageOverrides (removeChild stageOverrides k p c) p c =
      [Call.removeChild p c, .addChild p c true].foldl (eval stageOverrides (2 * h.depth)) k := by
  have hhalf : 2 * h.depth / 2 = h.depth := by omega
  have hdepth : k.depth = h.depth := congrArg (· + 1) hk
  have hremoved : removeChild stageOverrides k p c =
      eval stageOverrides (2 * h.depth) k (.removeChild p c) := by
    simp only [removeChild, eval, hhalf, hdepth]
  have hnext : (eval stageOverrides (2 * h.depth) k (.removeChild p c)).depth = h.depth :=
    congrArg (· + 1) ((eval_edits _ k _).next.trans hk)
  rw [hremoved, List.foldl_cons, List.foldl_cons, List.foldl_nil]
  simp only [addChild, hnext]
  simp only [eval, hhalf]

/-- `set_name`, call by call. -/
theorem setName_eq (h : ZstHierarchy) (e : EntityId) (name : ZstURI) :
    setName stageOverrides h e name =
      (renameCalls h e name).foldl (eval stageOverrides (2 * h.depth)) (renameTo h e name) := by
  have hnext := (renameTo_edits h e name).next
  have hbase : setNameBase stageOverrides h e name =
      (((renameTo h e name).parent e).toList.flatMap fun p =>
        [.removeChild p e, .addChild p e true]).foldl (eval stageOverrides (2 * h.depth))
          (renameTo h e name) := by
    unfold renameTo at hnext
    unfold setNameBase renameTo
    simp only at hnext ⊢
    generalize (h.modify e fun x =>
      { x with uri := if (h.parent e).isSome then (h.entities e).uri.parent.add name else name
        }).updateURI e (h.entities e).uri = k at hnext ⊢
    cases k.parent e with
    | some p =>
      rw [Option.toList_some, List.flatMap_singleton]
      exact reattach_eq hnext p e
    | none => rfl
  unfold setName renameCalls
  rw [List.foldl_append, ← hbase]
  have hkept : (setNameBase stageOverrides h e name).next = h.next := by
    rw [hbase]
    exact List.foldlRecOn (motive := fun k => k.next = h.next) _ _ hnext fun k hk call _ =>
      (eval_edits _ k call).next.trans hk
  generalize setNameBase stageOverrides h e name = k at hkept ⊢
  generalize h.childEntities e = children
  induction children generalizing k with
  | nil => rfl
  | cons c children ih =>
    have hmoved := reattach_eq hkept e c
    rw [List.foldl_cons, List.flatMap_cons, List.foldl_append, ← hmoved]
    refine ih _ ?_
    rw [hmoved]
    exact List.foldlRecOn (motive := fun k => k.next = h.next) _ _ hkept fun k hk call _ =>
      (eval_edits _ k call).next.trans hk

end Moving

/-! ## Updates -/

/-- `set_parent` of an entity that has no name throws. -/
def Throws (h : ZstHierarchy) : Call → Prop
  | .setParent e _ => Nameless (h.entities e)
  | _ => False

/-- A factory takes over the creatables of an update. -/
def takeCreatables (h : ZstHierarchy) (e : EntityId) (buffer : EntityBuffer) : ZstHierarchy :=
  if buffer.entityType = .factory then
    (h.modify e fun x => { x with creatables := buffer.creatables }).synchronisableHasEvent e
  else h

/-- The update is not for a factory, or the entity is one. -/
def KindMatches (h : ZstHierarchy) (e : EntityId) (buffer : EntityBuffer) : Prop :=
  buffer.entityType = .factory → (h.entities e).entityType = .factory

/-- `update_proxy_entity` gets as far as `set_name`. -/
def Renames (h : ZstHierarchy) (e : EntityId) (buffer : EntityBuffer) : Prop :=
  KindMatches h e buffer ∧ (h.entities e).uri ≠ buffer.uri ∧
    (h.entities e).parentAddress = buffer.uri.parent

/-- The calls of `set_name` in an update, and the hierarchy in which the first is made. -/
def renameWork (h : ZstHierarchy) (e : EntityId) (buffer : EntityBuffer) :
    Worklist ZstHierarchy Call :=
  ⟨renameTo (takeCreatables h e buffer) e buffer.uri.last,
    renameCalls (takeCreatables h e buffer) e buffer.uri.last⟩

/-- `update_proxy_entity` throws: there is no last segment to take for a name, or
`update_URI` or one of the calls of `set_name` throws. -/
def UpdateThrows (h : ZstHierarchy) (e : EntityId) (buffer : EntityBuffer) : Prop :=
  Renames h e buffer ∧ (buffer.uri = [] ∨
    (((takeCreatables h e buffer).entities e).entityType = .factory ∧
      [] ∈ ((takeCreatables h e buffer).entities e).creatables) ∨
    ∃ n, ∃ call ∈ ((Worklist.step (perform stageOverrides))^[n] (renameWork h e buffer)).tasks.head?,
      Throws ((Worklist.step (perform stageOverrides))^[n] (renameWork h e buffer)).state call)

/-- The update leaves no creatable and no entity without a name. -/
structure Updatable (h : ZstHierarchy) (e : EntityId) (buffer : EntityBuffer) : Prop where
  creatables : buffer.entityType = .factory → (h.entities e).entityType = .factory →
    [] ∉ buffer.creatables
  last : Renames h e buffer → buffer.uri.last ≠ []

namespace Marked

variable {n : Nat} {h k : ZstHierarchy} {e : EntityId} {buffer : EntityBuffer}

theorem standing (marked : Marked n h) (hk : Standing h k) : Marked n k := by
  refine ⟨marked.indexed.standing hk, hk.next.trans marked.next, fun e he => ?_⟩
  have hnamed := marked.named e he
  refine ⟨?_, ?_⟩
  · rw [hk.field Entity.uri fun _ => rfl]
    exact hnamed.last
  · rw [hk.field Entity.entityType fun _ => rfl, hk.field Entity.creatables fun _ => rfl]
    exact hnamed.creatables

theorem takeCreatables (marked : Marked n h)
    (hcreatables : buffer.entityType = .factory → [] ∉ buffer.creatables) :
    Marked n (takeCreatables h e buffer) := by
  unfold NamedEntities.takeCreatables
  split
  · rename_i hkind
    refine Marked.standing ?_ (Standing.synchronisableHasEvent _ e)
    refine ⟨marked.indexed.modify e _ (fun _ => rfl) fun _ => rfl, marked.next, fun d hd => ?_⟩
    have hnamed := marked.named d hd
    rw [modify_entities]
    split
    · rename_i hde
      rw [hde] at hnamed
      exact ⟨hnamed.last, fun _ => hcreatables hkind⟩
    · exact hnamed
  · exact marked

theorem renameTo (marked : Marked n h) (he : e < n) {u : ZstURI} (hu : u.last ≠ []) :
    Marked n (renameTo h e u.last) := by
  refine marked.rekey (fun _ => rfl) (fun _ => rfl) (fun _ => rfl) ?_ he
  dsimp only
  split
  · rw [ZstURI.last_add]
    exact hu
  · rw [ZstURI.last_last]
    exact hu

theorem moves_renameCalls (marked : Marked n h) (he : e < n) (name : ZstURI) :
    ∀ call ∈ renameCalls h e name, MovesInHeap n call := by
  intro call hcall
  rcases List.mem_append.mp hcall with hcall | hcall
  · obtain ⟨p, -, hcall⟩ := List.mem_flatMap.mp hcall
    rcases List.mem_pair.mp hcall with rfl | rfl
    · exact he
    · exact he
  · obtain ⟨c, hc, hcall⟩ := List.mem_flatMap.mp hcall
    have hlt : c < n := marked.child_lt hc
    rcases List.mem_pair.mp hcall with rfl | rfl
    · exact hlt
    · exact hlt

theorem setName (marked : Marked n h) (he : e < n) {u : ZstURI} (hu : u.last ≠ []) :
    Marked n (setName stageOverrides h e u.last) := by
  rw [setName_eq]
  exact List.foldlRecOn (motive := Marked n) _ _ (marked.renameTo he hu) fun k hk call hcall =>
    hk.eval (marked.moves_renameCalls he u.last call hcall) _

/-- An update of a named entity to a path with a last segment goes through. -/
theorem not_updateThrows (marked : Marked n h) (he : e < n) (hupdatable : Updatable h e buffer) :
    ¬ UpdateThrows h e buffer := by
  rintro ⟨hrenames, hthrows⟩
  have htaken : Marked n (NamedEntities.takeCreatables h e buffer) :=
    marked.takeCreatables fun hkind => hupdatable.creatables hkind (hrenames.1 hkind)
  have hlast := hupdatable.last hrenames
  rcases hthrows with hempty | ⟨hkind, hcreatable⟩ | ⟨m, call, hcall, hthrows⟩
  · apply hlast
    rw [hempty]
    rfl
  · exact (htaken.named e he).creatables hkind hcreatable
  · obtain ⟨hmarked, hmoves⟩ := Worklist.iterate_tasks Marked.perform m
      (htaken.renameTo he hlast) (htaken.moves_renameCalls he buffer.uri.last)
    have hmove := hmoves call (List.mem_of_mem_head? hcall)
    cases call with
    | setParent d parent => exact (hmarked.named d hmove).not_nameless hthrows
    | addChild p c autoActivate => exact hthrows
    | removeChild p c => exact hthrows
    | adopt p c autoActivate => exact hthrows

theorem updateProxyEntity (marked : Marked n h) (he : e < n) (hupdatable : Updatable h e buffer) :
    Marked n (h.updateProxyEntity stageOverrides e buffer) := by
  by_cases hfits : KindMatches h e buffer
  · have htaken : Marked n (NamedEntities.takeCreatables h e buffer) :=
      marked.takeCreatables fun hkind => hupdatable.creatables hkind (hfits hkind)
    have hsame : ((NamedEntities.takeCreatables h e buffer).entities e).uri = (h.entities e).uri ∧
        ((NamedEntities.takeCreatables h e buffer).entities e).parentAddress =
          (h.entities e).parentAddress := by
      unfold NamedEntities.takeCreatables
      split
      · have hqueued := Standing.synchronisableHasEvent
          (h.modify e fun x => { x with creatables := buffer.creatables }) e
        rw [hqueued.field Entity.uri fun _ => rfl,
          hqueued.field Entity.parentAddress fun _ => rfl, modify_entities_self]
        exact ⟨rfl, rfl⟩
      · exact ⟨rfl, rfl⟩
    unfold ZstHierarchy.updateProxyEntity
    rw [if_neg fun hother => hother.2 (hfits hother.1)]
    change Marked n (if ((NamedEntities.takeCreatables h e buffer).entities e).uri = buffer.uri then
        NamedEntities.takeCreatables h e buffer
      else if ((NamedEntities.takeCreatables h e buffer).entities e).parentAddress ≠
          buffer.uri.parent then
        NamedEntities.takeCreatables h e buffer
      else
        { ZstHierarchy.setName stageOverrides (NamedEntities.takeCreatables h e buffer) e
            buffer.uri.last with
          hierarchyEvents := (ZstHierarchy.setName stageOverrides
            (NamedEntities.takeCreatables h e buffer) e buffer.uri.last).hierarchyEvents ++
              [.entityUpdated e] })
    rw [hsame.1, hsame.2]
    split_ifs with huri hparent
    · exact htaken
    · exact htaken
    · have hnamed := htaken.setName he (hupdatable.last ⟨hfits, huri, not_not.mp hparent⟩)
      exact ⟨hnamed.indexed.of_same rfl rfl (fun _ _ hd => hd) (fun _ => rfl) fun _ => rfl,
        hnamed.next, hnamed.named⟩
  · unfold ZstHierarchy.updateProxyEntity
    rw [if_pos (Classical.not_imp.mp hfits)]
    exact marked

end Marked

end Showtime.NamedEntities
