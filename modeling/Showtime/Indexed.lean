import Showtime.StageRun
/-!
# The stage's lookup table

Whatever the stage's handlers do, renames included, an entity that is found at
a path has that path.
-/

namespace Showtime

open ZstHierarchy ZstStageHierarchy ZstStageSession ZstStage

namespace ZstHierarchy

/-- The table finds registered entities, each of them at its own path. -/
structure Indexed (h : ZstHierarchy) : Prop where
  root : h.root = none
  uri : ∀ q e, h.lookup q = some e → (h.entities e).uri = q
  registered : ∀ q e, h.lookup q = some e → (h.entities e).registered = true
  fresh : ∀ e, h.next ≤ e → (h.entities e).registered = false

namespace Indexed

variable {h k : ZstHierarchy} {e : EntityId}

theorem findEntity_eq (indexed : Indexed h) (path : ZstURI) :
    h.findEntity path = h.lookup path := by
  unfold findEntity
  rw [indexed.root]

theorem findEntity_uri (indexed : Indexed h) {path : ZstURI} (hfind : h.findEntity path = some e) :
    (h.entities e).uri = path :=
  indexed.uri path e (indexed.findEntity_eq path ▸ hfind)

theorem lt_next (indexed : Indexed h) {path : ZstURI} (hlookup : h.lookup path = some e) :
    e < h.next := by
  by_contra hge
  have hfresh := indexed.fresh e (Nat.le_of_not_lt hge)
  rw [indexed.registered path e hlookup] at hfresh
  cases hfresh

/-- Entities change in what the table does not care about. -/
theorem of_same (indexed : Indexed h) (hroot : k.root = h.root) (hnext : k.next = h.next)
    (hlookup : ∀ q d, k.lookup q = some d → h.lookup q = some d)
    (huri : ∀ d, (k.entities d).uri = (h.entities d).uri)
    (hregistered : ∀ d, (k.entities d).registered = (h.entities d).registered) : Indexed k where
  root := hroot.trans indexed.root
  uri q d hd := (huri d).trans (indexed.uri q d (hlookup q d hd))
  registered q d hd := (hregistered d).trans (indexed.registered q d (hlookup q d hd))
  fresh d hd := (hregistered d).trans (indexed.fresh d (hnext ▸ hd))

theorem standing (indexed : Indexed h) (hk : Standing h k) : Indexed k :=
  indexed.of_same hk.root hk.next (fun _ _ hd => hk.lookup ▸ hd)
    (hk.field Entity.uri fun _ => rfl) (hk.field Entity.registered fun _ => rfl)

theorem modify (indexed : Indexed h) (e : EntityId) (f : Entity → Entity)
    (huri : ∀ x, (f x).uri = x.uri) (hregistered : ∀ x, (f x).registered = x.registered) :
    Indexed (h.modify e f) := by
  refine indexed.of_same rfl rfl (fun _ _ hd => hd) (fun d => ?_) (fun d => ?_)
  · rw [modify_entities]
    split
    · rename_i hde
      rw [huri, hde]
    · rfl
  · rw [modify_entities]
    split
    · rename_i hde
      rw [hregistered, hde]
    · rfl

/-- An entity that changes its path is found at the new one only. -/
theorem rekey (indexed : Indexed h) (f : Entity → Entity)
    (hregistered : ∀ x, (f x).registered = x.registered) :
    Indexed ((h.modify e f).updateURI e (h.entities e).uri) := by
  have hkept : ∀ d, ((h.modify e f).entities d).registered = (h.entities d).registered := by
    intro d
    rw [modify_entities]
    split
    · rename_i hde
      rw [hregistered, hde]
    · rfl
  have hother : ∀ q d, d ≠ e → h.lookup q = some d → ((h.modify e f).entities d).uri = q :=
    fun q d hde hd => by
      rw [modify_entities_of_ne h f hde]
      exact indexed.uri q d hd
  have hmoved : Indexed (if ((h.modify e f).entities e).registered then
      (h.modify e f).updateEntityInLookup e (h.entities e).uri else h.modify e f) := by
    split
    · rename_i hreg
      refine ⟨indexed.root, fun q d hd => ?_, fun q d hd => ?_, fun d hd => ?_⟩
      all_goals simp only [updateEntityInLookup, addEntityToLookup, removeEntityFromLookup,
        modify_lookup, Function.update_apply] at hd ⊢
      · split at hd
        · rename_i hq
          obtain rfl := Option.some.inj hd
          exact hq.symm
        · split at hd
          · cases hd
          · rename_i hold
            refine hother q d (fun hde => hold ?_) hd
            rw [← hde]
            exact (indexed.uri q d hd).symm
      · split at hd
        · obtain rfl := Option.some.inj hd
          exact hreg
        · split at hd
          · cases hd
          · rw [hkept]
            exact indexed.registered q d hd
      · rw [hkept]
        exact indexed.fresh d hd
    · rename_i hreg
      refine ⟨indexed.root, fun q d hd => ?_, fun q d hd => ?_, fun d hd => ?_⟩
      · refine hother q d (fun hde => hreg ?_) hd
        rw [hkept, ← hde]
        exact indexed.registered q d hd
      · rw [hkept]
        exact indexed.registered q d hd
      · rw [hkept]
        exact indexed.fresh d hd
  unfold updateURI
  simp only
  generalize (if ((h.modify e f).entities e).registered then
    (h.modify e f).updateEntityInLookup e (h.entities e).uri else h.modify e f) = k at hmoved ⊢
  split
  · exact hmoved.modify e _ (fun _ => rfl) fun _ => rfl
  · exact hmoved

theorem registerEntity (indexed : Indexed h) (he : e < h.next) : Indexed (h.registerEntity e) := by
  have hentity : ∀ d, ((h.registerEntity e).entities d).uri = (h.entities d).uri := by
    intro d
    unfold ZstHierarchy.registerEntity
    rw [modify_entities]
    split
    · rename_i hde
      rw [hde]
      rfl
    · rfl
  have hregistered : ∀ d, ((h.registerEntity e).entities d).registered =
      if d = e then true else (h.entities d).registered := by
    intro d
    unfold ZstHierarchy.registerEntity
    rw [modify_entities]
    split
    · rfl
    · rfl
  have hlookup : ∀ q, (h.registerEntity e).lookup q =
      if q = (h.entities e).uri then some e else h.lookup q := by
    intro q
    simp [ZstHierarchy.registerEntity, addEntityToLookup, Function.update_apply]
  refine ⟨indexed.root, fun q d hd => ?_, fun q d hd => ?_, fun d hd => ?_⟩
  · rw [hlookup] at hd
    rw [hentity]
    split at hd
    · rename_i hq
      obtain rfl := Option.some.inj hd
      exact hq.symm
    · exact indexed.uri q d hd
  · rw [hlookup] at hd
    rw [hregistered]
    split at hd
    · obtain rfl := Option.some.inj hd
      exact if_pos rfl
    · split
      · rfl
      · exact indexed.registered q d hd
  · have hne : d ≠ e := fun hde => Nat.lt_irrefl _ (Nat.lt_of_lt_of_le he (hde ▸ hd))
    rw [hregistered, if_neg hne]
    exact indexed.fresh d hd

/-- Moves keep the table in order. -/
theorem movable (n : Nat) :
    Movable (fun e => e < n) (fun h => Indexed h ∧ h.next = n) where
  rekey h e f _ hregistered _ hh := by
    refine ⟨hh.1.rekey f hregistered, ?_⟩
    rw [(TreeEdit.updateURI _ _ _).next]
    exact hh.2
  relist h e f hh := ⟨hh.1.modify e _ (fun _ => rfl) fun _ => rfl, hh.2⟩
  register h e he hh := ⟨hh.1.registerEntity (hh.2 ▸ he), hh.2⟩
  child h e c hh hc := by
    unfold childEntities at hc
    split at hc
    · obtain ⟨path, -, hpath⟩ := List.mem_filterMap.mp hc
      unfold getChildByURI at hpath
      split at hpath
      · rw [hh.1.findEntity_eq] at hpath
        exact hh.2 ▸ hh.1.lt_next hpath
      · cases hpath
    · cases hc

theorem removeFromParent (indexed : Indexed h) (he : e < h.next) :
    Indexed (removeFromParent stageOverrides h e) := by
  unfold ZstHierarchy.removeFromParent
  split
  · exact ((movable h.next).removeChild (v := stageOverrides) (fun _ _ hh => hh) he
      ⟨indexed, rfl⟩).1
  · exact indexed

theorem removeProxyEntity (indexed : Indexed h) (he : e < h.next) :
    Indexed (h.removeProxyEntity stageOverrides e) := by
  unfold ZstHierarchy.removeProxyEntity
  split
  · refine (indexed.removeFromParent he).standing ?_
    exact (Standing.defersLeaving _ _).trans (Standing.foldl Standing.enqueueDeactivation _ _)
  · exact indexed

theorem updateProxyEntity (indexed : Indexed h) (he : e < h.next) (buffer : EntityBuffer) :
    Indexed (h.updateProxyEntity stageOverrides e buffer) := by
  obtain ⟨k, hk, hupdate⟩ := updateProxyEntity_cases stageOverrides h e buffer
  have hcreatables : Indexed k ∧ k.next = h.next := by
    rcases hk with rfl | ⟨-, -, rfl⟩
    · exact ⟨indexed, rfl⟩
    · have hmodified : Indexed (h.modify e fun x => { x with creatables := buffer.creatables }) :=
        indexed.modify e _ (fun _ => rfl) fun _ => rfl
      have hqueued := Standing.synchronisableHasEvent
        (h.modify e fun x => { x with creatables := buffer.creatables }) e
      exact ⟨hmodified.standing hqueued, hqueued.next⟩
  rcases hupdate with hupdate | ⟨-, -, hupdate⟩
  · rw [hupdate]
    exact hcreatables.1
  · have hnamed : Indexed _ := ((movable h.next).setName (v := stageOverrides)
      (fun _ _ hh => hh) (fun _ _ _ hh => hh) buffer.uri.last he hcreatables).1
    rw [hupdate]
    exact hnamed.of_same rfl rfl (fun _ _ hd => hd) (fun _ => rfl) fun _ => rfl

theorem announce (indexed : Indexed h) (e : EntityId) : Indexed (h.announce e) := by
  have hmarked : Indexed ((h.getChildEntities e).foldl (fun h c =>
      (h.setProxy c).setActivationStatus c .activated) h) := by
    refine List.foldlRecOn (motive := Indexed) _ _ indexed fun k hk c _ => ?_
    have hproxy : Indexed (k.setProxy c) :=
      hk.modify c (fun x => { x with isProxy := true }) (fun _ => rfl) fun _ => rfl
    exact hproxy.modify c (fun x => { x with syncStatus := .activated }) (fun _ => rfl)
      fun _ => rfl
  exact hmarked.of_same rfl rfl (fun _ _ hd => hd) (fun _ => rfl) fun _ => rfl

theorem addProxyEntity (indexed : Indexed h) {x : Entity}
    (hrun : ZstHierarchy.addProxyEntity stageOverrides h x = .ok k) : Indexed k := by
  have hcases := addProxyEntity_cases stageOverrides h x
  simp only at hcases
  rw [hrun] at hcases
  have hne : ∀ {q d}, h.lookup q = some d → d ≠ h.next := fun hd =>
    Nat.ne_of_lt (indexed.lt_next hd)
  have hother : ∀ d, d ≠ h.next →
      ((h.alloc x).1.setProxy h.next).entities d = h.entities d := fun d hd => by
    simp [ZstHierarchy.setProxy, alloc, modify_entities, hd]
  have halloc : Indexed ((h.alloc x).1.setProxy h.next) := by
    refine ⟨indexed.root, fun q d hd => ?_, fun q d hd => ?_, fun d hd => ?_⟩
    · rw [hother d (hne hd)]
      exact indexed.uri q d hd
    · rw [hother d (hne hd)]
      exact indexed.registered q d hd
    · have hlt : h.next < d := hd
      rw [hother d (Nat.ne_of_gt hlt)]
      exact indexed.fresh d (Nat.le_of_lt hlt)
  have hlt : h.next < ((h.alloc x).1.setProxy h.next).next := Nat.lt_succ_self h.next
  have hfinish : ∀ l, Indexed l → l.next = ((h.alloc x).1.setProxy h.next).next →
      Indexed ((l.registerEntity h.next).announce h.next) := fun l hl hnext =>
    (hl.registerEntity (hnext ▸ hlt)).announce h.next
  split at hcases
  · split at hcases
    · obtain rfl := Except.ok.inj hcases
      rename_i p _ _
      have hadded := (movable _).addChild (v := stageOverrides) (p := p) (fun _ _ hh => hh) true
        hlt ⟨halloc, rfl⟩
      exact hfinish _ hadded.1 hadded.2
    · cases hcases
  · obtain rfl := Except.ok.inj hcases
    exact hfinish _ halloc rfl

theorem forgets (indexed : Indexed h) (path : ZstURI) :
    Indexed (h.removeEntityFromLookup path) := by
  refine indexed.of_same rfl rfl (fun q d hd => ?_) (fun _ => rfl) fun _ => rfl
  simp only [removeEntityFromLookup, Function.update_apply] at hd
  split at hd
  · cases hd
  · exact hd

theorem buries (indexed : Indexed h) (e : EntityId) : Indexed (h.bury e) := by
  have hchildless : Indexed (h.modify e fun x => { x with children := [] }) :=
    indexed.modify e _ (fun _ => rfl) fun _ => rfl
  refine (hchildless.forgets (h.entities e).uri).of_same rfl rfl (fun _ _ hd => hd) (fun d => ?_)
    fun d => ?_
  all_goals
    unfold bury
    simp only [removeEntityFromLookup, ZstHierarchy.modify]

theorem subscribe (indexed : Indexed h) (output input : EntityId) :
    Indexed (ZstStageSession.subscribe h output input) :=
  indexed.modify output _ (fun _ => rfl) fun _ => rfl

/-- Who leaves has been allocated. -/
theorem lt_of_mem_leavers (indexed : Indexed h) (owned : Owned h) {event : StageEvent}
    (he : e ∈ leavers h event) : e < h.next := by
  rcases mem_leavers he with howned | ⟨path, hfind⟩
  · exact owned.allocated e howned
  · rw [indexed.findEntity_eq] at hfind
    exact indexed.lt_next hfind

/-- The stage's table stays in order, whatever happens. -/
theorem step {s t : ZstSession} {event : StageEvent} (indexed : Indexed s.hierarchy)
    (owned : Owned s.hierarchy) (hrun : ZstStage.step s event = .ok t) :
    Indexed t.hierarchy := by
  cases step_shift hrun with
  | stands hk => exact indexed.standing hk
  | dequeues events _ hk =>
    have hpopped : Indexed { s.hierarchy with hierarchyEvents := events } :=
      indexed.of_same rfl rfl (fun _ _ hd => hd) (fun _ => rfl) fun _ => rfl
    exact hpopped.standing hk
  | connects _ _ output input _ _ _ _ _ _ hk => exact (indexed.subscribe output input).standing hk
  | removes l hl hk =>
    refine Indexed.standing ?_ hk
    refine (List.foldlRecOn (motive := fun (k : ZstHierarchy) => Indexed k ∧
      k.next = s.hierarchy.next) _ _ ⟨indexed.standing hl, hl.next⟩ fun k hk e he => ?_).1
    refine ⟨hk.1.removeProxyEntity ?_, ?_⟩
    · rw [hk.2]
      exact indexed.lt_of_mem_leavers owned he
    · rw [(SameProxies.removeProxyEntity k e).next]
      exact hk.2
  | renames _ buffer path proxy _ _ hfind hk =>
    rw [indexed.findEntity_eq] at hfind
    exact (indexed.updateProxyEntity (indexed.lt_next hfind) buffer).standing hk
  | joins _ _ _ _ _ _ _ hadd hk => exact (indexed.addProxyEntity hadd).standing hk
  | creates _ _ _ _ _ _ _ hadd hk => exact (indexed.addProxyEntity hadd).standing hk
  | forgets path hk => exact (indexed.forgets path).standing hk
  | buries e _ hk => exact (indexed.buries e).standing hk

theorem opened : Indexed ZstStage.opened.hierarchy :=
  ⟨rfl, by simp [ZstStage.opened, ofList], by simp [ZstStage.opened, ofList],
    by simp [ZstStage.opened, ofList]⟩

end Indexed
end ZstHierarchy
end Showtime
