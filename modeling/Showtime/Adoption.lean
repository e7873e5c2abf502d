import Showtime.Rename
/-!
# Giving an entity a parent

What `add_child` does with a new entity, and with one that is a child of
another component already. The path of the child is made from the parent's
unless it begins with that one, and the old parent is not told.
-/

namespace Showtime.Adoption

open ZstHierarchy

/-- `URI(parent) + last(child)`. -/
def pathBelow (h : ZstHierarchy) (p c : EntityId) : ZstURI :=
  (h.entities p).uri.add (h.entities c).uri.last

/-- The child and what is below it are at their paths below the new parent, which
lists the child, and the parent that it had does not list its old path. -/
structure Adopted (h k : ZstHierarchy) (p c : EntityId) : Prop where
  uri : (k.entities c).uri = pathBelow h p c
  below : ∀ d, h.Below c d → (k.entities d).uri =
    Rename.renamedPath (h.entities c).uri (pathBelow h p c) (h.entities d).uri
  listed : pathBelow h p c ∈ (k.entities p).children
  unlisted : ∀ q, q ≠ p → h.HasChild q c → (h.entities c).uri ∉ (k.entities q).children

/-- The entity has been constructed with a name, and nothing else. -/
structure JustConstructed (h : ZstHierarchy) (c : EntityId) (name : String) : Prop where
  unregistered : (h.entities c).registered = false
  uri : (h.entities c).uri = [name]
  children : (h.entities c).children = []
  events : (h.entities c).synchronisableEvents = []

section Adoption

variable {h : ZstHierarchy} {p c : EntityId} {name : String} {v : Overrides}

/-- `set_parent` of a new entity only writes the entity itself. -/
theorem setParent_new (hunregistered : (h.entities c).registered = false)
    (hchildren : (h.entities c).children = []) (depth : Nat) :
    ∃ creatables, setParent v (depth + 1) h c (some p) = h.modify c fun x =>
      { x with
        parentAddress := (h.entities p).uri
        uri := reparentedURI (h.entities c).uri (h.entities p).uri
        creatables } := by
  have hbase : ∃ creatables, h.setParentBase c (some p) = h.modify c fun x =>
      { x with
        parentAddress := (h.entities p).uri
        uri := reparentedURI (h.entities c).uri (h.entities p).uri
        creatables } := by
    unfold setParentBase updateURI
    simp only [addressOf, modify_entities_self, hunregistered, Bool.false_eq_true, if_false]
    split
    · refine ⟨{ h.entities c with
        uri := reparentedURI (h.entities c).uri
          (h.entities p).uri }.updateCreateableURIs.creatables, ?_⟩
      simp [ZstHierarchy.modify, Entity.updateCreateableURIs]
    · refine ⟨(h.entities c).creatables, ?_⟩
      simp [ZstHierarchy.modify]
  obtain ⟨creatables, hbase⟩ := hbase
  refine ⟨creatables, ?_⟩
  have hnone : (h.setParentBase c (some p)).childEntities c = [] := by
    unfold childEntities
    rw [hbase, modify_entities_self]
    simp [hchildren]
  unfold setParent
  simp only [hnone, List.foldl_nil]
  exact hbase

/-- The hierarchy with the new entity below its parent, before it is activated. -/
def adopted (h : ZstHierarchy) (p c : EntityId) (creatables : List ZstURI) : ZstHierarchy :=
  let path := reparentedURI (h.entities c).uri (h.entities p).uri
  ((h.modify c fun x =>
    { x with parentAddress := (h.entities p).uri, uri := path, creatables }).modify p fun x =>
    { x with children := ZstURI.emplace x.children path }).registerEntity c

section Adopted

variable (h) (creatables : List ZstURI)

theorem adopted_self (hpc : p ≠ c) : (adopted h p c creatables).entities c =
    { h.entities c with
      parentAddress := (h.entities p).uri
      uri := reparentedURI (h.entities c).uri (h.entities p).uri
      creatables
      registered := true } := by
  unfold adopted registerEntity addEntityToLookup
  simp only [modify_entities_self, modify_entities_of_ne _ _ hpc.symm]

theorem adopted_parent (hpc : p ≠ c) : (adopted h p c creatables).entities p =
    { h.entities p with
      children := ZstURI.emplace (h.entities p).children
        (reparentedURI (h.entities c).uri (h.entities p).uri) } := by
  unfold adopted registerEntity addEntityToLookup
  simp only [modify_entities_self, modify_entities_of_ne _ _ hpc]

theorem adopted_other {d : EntityId} (hdc : d ≠ c) (hdp : d ≠ p) :
    (adopted h p c creatables).entities d = h.entities d := by
  unfold adopted registerEntity addEntityToLookup
  simp only [modify_entities_of_ne _ _ hdc, modify_entities_of_ne _ _ hdp]

theorem adopted_quiet (hpc : p ≠ c) (hevents : (h.entities c).synchronisableEvents = [])
    (hquiet : NoRemovalQueued h) : NoRemovalQueued (adopted h p c creatables) := by
  refine ⟨hquiet.cleanupOps, fun e event hevent => ?_⟩
  by_cases hec : e = c
  · rw [hec, adopted_self h creatables hpc] at hevent
    rw [hevents] at hevent
    cases hevent
  · by_cases hep : e = p
    · rw [hep, adopted_parent h creatables hpc] at hevent
      exact hquiet.events p event hevent
    · rw [adopted_other h creatables hec hep] at hevent
      exact hquiet.events e event hevent

theorem adopted_lookup (hpc : p ≠ c) : (adopted h p c creatables).lookup =
    Function.update h.lookup (reparentedURI (h.entities c).uri (h.entities p).uri) (some c) := by
  unfold adopted registerEntity addEntityToLookup
  simp only [modify_lookup, modify_entities_self, modify_entities_of_ne _ _ hpc.symm]

end Adopted

/-- A new entity is put below its parent, and may be activated then. -/
theorem addChild_new (hunregistered : (h.entities c).registered = false)
    (hchildren : (h.entities c).children = []) (hp : (h.entities p).registered = true)
    (hcomponent : (h.entities p).isComponent = true)
    (hlisted : (h.entities c).uri ∉ (h.entities p).children) (autoActivate : Bool) :
    ∃ creatables, addChild v h p c autoActivate =
      if (h.entities p).isActivated && !(h.entities c).isProxy && autoActivate then
        v.requestEntityActivation (adopted h p c creatables) c
      else adopted h p c creatables := by
  have hpc : p ≠ c := by
    rintro rfl
    rw [hunregistered] at hp
    cases hp
  obtain ⟨creatables, hset⟩ := setParent_new (v := v) (p := p) hunregistered hchildren h.next
  refine ⟨creatables, ?_⟩
  have hadopted : ((h.modify c fun x =>
      { x with
        parentAddress := (h.entities p).uri
        uri := reparentedURI (h.entities c).uri (h.entities p).uri
        creatables }).modify p fun x =>
      { x with
        children := ZstURI.emplace x.children
          (reparentedURI (h.entities c).uri (h.entities p).uri) }).registerEntity c =
      adopted h p c creatables := rfl
  have hactivated : ((adopted h p c creatables).entities p).isActivated =
      (h.entities p).isActivated := by
    rw [adopted_parent h creatables hpc]
    rfl
  have hproxy : ((adopted h p c creatables).entities c).isProxy = (h.entities c).isProxy := by
    rw [adopted_self h creatables hpc]
  unfold addChild addChildWith depth
  rw [if_pos hcomponent, if_neg hlisted, hset]
  unfold adoptChild
  simp only [modify_entities_self, modify_entities_of_ne _ _ hpc, modify_entities_of_ne _ _ hpc.symm,
    hp, hunregistered, Bool.not_false, Bool.and_self, if_true, hadopted, hactivated, hproxy]

theorem last_singleton (hname : name ≠ "") : ZstURI.last [name] = [name] :=
  ZstURI.last_append [] hname

/-- The new entity is a subtree of its own, which the parent lists. -/
theorem adopted_moving (fresh : JustConstructed h c name) (hname : name ≠ "")
    (tree : RegisteredTree h)
    (hquiet : NoRemovalQueued h) (hp : (h.entities p).registered = true)
    (creatables : List ZstURI) :
    Rename.Moving (· = c) p (reparentedURI (h.entities c).uri (h.entities p).uri)
      (fun _ => [name]) (h.root.map fun r => ((adopted h p c creatables).entities r).uri)
      (adopted h p c creatables) := by
  have hunregistered : ∀ d, (h.entities d).registered = true → d ≠ c := by
    rintro d hd rfl
    rw [fresh.unregistered] at hd
    cases hd
  have hpc := hunregistered p hp
  have hself := adopted_self h creatables hpc
  have hlookup : (adopted h p c creatables).lookup = Function.update h.lookup
      ((adopted h p c creatables).entities c).uri (some c) := by
    rw [hself]
    exact adopted_lookup h creatables hpc
  have hchildren : ((adopted h p c creatables).entities c).children = [] := by
    rw [hself]
    exact fresh.children
  refine ⟨hpc, ?_, ?_, ?_, ?_, ?_, ?_, ?_, ?_, ?_, ?_⟩
  · rw [adopted_parent h creatables hpc]
    exact (ZstURI.mem_emplace _ _ _).mpr (Or.inl rfl)
  · rintro d rfl
    rw [hself]
  · rintro d rfl
    refine ⟨?_, by simp⟩
    rw [hself, fresh.uri]
    have hlast := last_singleton hname
    rw [Rename.Moving.last_reparentedURI, hlast]
  · rintro q d hq rfl
    rw [hlookup, Function.update_apply] at hq
    split at hq
    · rename_i hpath
      exact hpath.symm
    · exact absurd rfl (hunregistered d (tree.keyed q d hq).2.2)
  · rintro d rfl x hx
    rw [hlookup, Function.update_self] at hx
    exact (Option.some.inj hx).symm
  · rintro d rfl q hq
    rw [hchildren] at hq
    cases hq
  · intro r hr
    have hroot : h.root = some r := hr
    refine ⟨hunregistered r (tree.registered (tree.root r hroot).1), ?_⟩
    rw [hroot]
    rfl
  · rintro d rfl q hq
    rw [hchildren] at hq
    cases hq
  · rintro d rfl - q hq
    rw [hchildren] at hq
    cases hq
  · exact adopted_quiet h creatables hpc fresh.events hquiet

/-- Nothing waits to be destroyed when the child is activated at once. -/
def NoRemovalIfActivated (h : ZstHierarchy) (p c : EntityId) (autoActivate : Bool) : Prop :=
  ((h.entities p).isActivated && !(h.entities c).isProxy && autoActivate) = true → NoRemovalQueued h

/-- The new entity gets the path that `set_parent` makes, and its parent lists it. -/
theorem addChild_fresh_uri (hv : Rename.Bystander v) (fresh : JustConstructed h c name)
    (hname : name ≠ "")
    (tree : RegisteredTree h) (hp : h.InTree p) (hcomponent : (h.entities p).isComponent = true)
    (autoActivate : Bool) (hcalm : NoRemovalIfActivated h p c autoActivate) :
    ((addChild v h p c autoActivate).entities c).uri =
        reparentedURI (h.entities c).uri (h.entities p).uri ∧
      reparentedURI (h.entities c).uri (h.entities p).uri ∈
        ((addChild v h p c autoActivate).entities p).children := by
  have hregistered := tree.registered hp
  have hpc : p ≠ c := by
    rintro rfl
    rw [fresh.unregistered] at hregistered
    cases hregistered
  have hlisted : (h.entities c).uri ∉ (h.entities p).children := by
    rw [fresh.uri]
    intro hmem
    obtain ⟨d, s, -, -, hpath⟩ := tree.child p hp _ hmem
    have hlength := congrArg List.length hpath
    rw [List.length_append, List.length_singleton, List.length_singleton] at hlength
    exact (tree.segments p hp).1 (List.length_eq_zero_iff.mp (by omega))
  obtain ⟨creatables, heq⟩ :=
    addChild_new (v := v) fresh.unregistered fresh.children hregistered hcomponent hlisted
      autoActivate
  rw [heq]
  split
  · rename_i hactivates
    have hmoving := adopted_moving fresh hname tree (hcalm hactivates) hregistered creatables
    obtain ⟨hkept, huri⟩ := hv.activation c hmoving rfl
    refine ⟨?_, hkept.kept⟩
    rw [huri, adopted_self h creatables hpc]
  · rw [adopted_self h creatables hpc, adopted_parent h creatables hpc]
    exact ⟨rfl, (ZstURI.mem_emplace _ _ _).mpr (Or.inl rfl)⟩

/-- A new entity is adopted unless it has the path of the parent. -/
theorem adopted_fresh_iff (hv : Rename.Bystander v) (fresh : JustConstructed h c name)
    (hname : name ≠ "")
    (tree : RegisteredTree h) (hp : h.InTree p) (hcomponent : (h.entities p).isComponent = true)
    (autoActivate : Bool) (hcalm : NoRemovalIfActivated h p c autoActivate) :
    Adopted h (addChild v h p c autoActivate) p c ↔ (h.entities p).uri ≠ (h.entities c).uri := by
  obtain ⟨huri, hlisted⟩ :=
    addChild_fresh_uri hv fresh hname tree hp hcomponent autoActivate hcalm
  have hempty := (tree.segments p hp).1
  have hcontains : ZstURI.contains [name] (h.entities p).uri = true ↔
      (h.entities p).uri = [name] := by
    simp only [ZstURI.contains, List.isEmpty_eq_false_iff.mpr hempty, Bool.not_false,
      Bool.true_and, List.isPrefixOf_iff_prefix]
    refine ⟨fun hprefix => ?_, fun heq => heq ▸ List.prefix_rfl⟩
    exact hprefix.eq_of_length_le (List.length_pos_iff.mpr hempty)
  have hpath : pathBelow h p c = (h.entities p).uri ++ [name] := by
    unfold pathBelow
    rw [fresh.uri, last_singleton hname, ZstURI.add_singleton hempty]
  have hreparented : reparentedURI (h.entities c).uri (h.entities p).uri =
      if (h.entities p).uri = [name] then [name] else pathBelow h p c := by
    unfold reparentedURI pathBelow
    rw [if_neg hempty, fresh.uri]
    exact if_congr hcontains rfl rfl
  rw [fresh.uri]
  constructor
  · intro hadopted hsame
    have hown := huri.symm.trans hadopted.uri
    rw [hreparented, if_pos hsame, hpath, hsame] at hown
    cases hown
  · intro hother
    rw [hreparented, if_neg hother] at huri hlisted
    refine ⟨huri, fun d hd => ?_, hlisted, fun q _ hq => ?_⟩
    · rcases Relation.ReflTransGen.cases_head hd with rfl | ⟨x, ⟨q, hq, -⟩, -⟩
      · rw [huri]
        unfold Rename.renamedPath
        simp
      · rw [fresh.children] at hq
        cases hq
    · -- nobody finds the entity before it is registered
      obtain ⟨path, -, hlookup⟩ := hq
      have hregistered := (tree.keyed path c hlookup).2.2
      rw [fresh.unregistered] at hregistered
      cases hregistered

/-- The old parent goes on listing the old path. -/
theorem not_adopted_of_parent {q : EntityId} (hv : Rename.Bystander v) (tree : RegisteredTree h)
    (hquiet : NoRemovalQueued h) (hc : h.InTree c) (hparent : h.parent c = some q) (hqp : q ≠ p)
    (hbelow : ¬ h.Below c p) (hnest : Rename.NoNestAfter h c (h.entities c).uri.last)
    (autoActivate : Bool) : ¬ Adopted h (addChild v h p c autoActivate) p c := by
  intro hadopted
  have hstart := Rename.moving_start tree hquiet hc hparent hnest
  have hlength : ∀ r, Rename.clientPath h = some r → r.length = 1 :=
    fun r hr => Rename.clientPath_length tree hr
  have hmoved := (hstart.addChildWith hv (Rename.Moving.setParent_spec hv hlength h.depth) p .refl
    (fun hin => absurd hin hbelow) autoActivate).1
  exact hadopted.unlisted q hqp ⟨_, (tree.parent_eq hc hparent).2.2, hc⟩ hmoved.kept

/-- **Giving an entity a parent.** A new entity is adopted if and only if the parent's
URI is not the entity's own name. A child of another component never is. -/
theorem add_child_adopts_iff (v : Overrides) (h : ZstHierarchy) (p c : EntityId)
    (autoActivate : Bool) (hv : Rename.IsHierarchy v) (tree : RegisteredTree h) (hp : h.InTree p)
    (hcomponent : (h.entities p).isComponent = true)
    (hcalm : NoRemovalIfActivated h p c autoActivate) :
    (∀ name, name ≠ "" → JustConstructed h c name →
      (Adopted h (addChild v h p c autoActivate) p c ↔
        (h.entities p).uri ≠ (h.entities c).uri)) ∧
      ∀ q, NoRemovalQueued h → h.InTree c → h.parent c = some q → q ≠ p → ¬ h.Below c p →
        Rename.NoNestAfter h c (h.entities c).uri.last →
          ¬ Adopted h (addChild v h p c autoActivate) p c := by
  have hbystander : Rename.Bystander v := by
    cases hv with
    | stage => exact Rename.stage_bystander
    | client link fuel => exact Rename.client_bystander link fuel
  exact ⟨fun name hname fresh =>
      adopted_fresh_iff hbystander fresh hname tree hp hcomponent autoActivate hcalm,
    fun q hquiet hc hparent hqp hbelow hnest =>
      not_adopted_of_parent hbystander tree hquiet hc hparent hqp hbelow hnest autoActivate⟩

/-- The performer `ada` with two components, as the stage has them. -/
def studioTree : ZstHierarchy :=
  ofList
    [ { entityType := .performer, uri := ["ada"], registered := true, isProxy := true
        syncStatus := .activated, children := [["ada", "osc"], ["ada", "synth"]] },
      { entityType := .component, uri := ["ada", "synth"], parentAddress := ["ada"]
        registered := true, isProxy := true, syncStatus := .activated },
      { entityType := .component, uri := ["ada", "osc"], parentAddress := ["ada"]
        registered := true, isProxy := true, syncStatus := .activated } ]

theorem studioTree_registered : RegisteredTree studioTree :=
  registeredTree_ofList (by decide) (by decide) (by decide) (by decide) (by decide)

/-- Nothing is below the component that moves. -/
theorem not_below_osc : ¬ studioTree.Below 2 1 := by
  intro hbelow
  rcases Relation.ReflTransGen.cases_head hbelow with heq | ⟨d, ⟨q, hq, -⟩, -⟩
  · exact absurd heq (by decide)
  · cases hq

/-- A component that has just been constructed next to the tree. -/
def studioWithLfo : ZstHierarchy :=
  (studioTree.alloc { entityType := .component, uri := ["lfo"] }).1

theorem studioWithLfo_registered : RegisteredTree studioWithLfo :=
  studioTree_registered.alloc (fun _ _ he => (ofList_lookup he).1) _

theorem add_child_adopts_iff_osc :
    Adopted studioWithLfo (addChild stageOverrides studioWithLfo 1 3) 1 3 ∧
      ¬ Adopted studioTree (addChild stageOverrides studioTree 1 2) 1 2 := by
  have hquiet : NoRemovalQueued studioTree := quiet_ofList (by decide)
  have hcalm : NoRemovalIfActivated studioWithLfo 1 3 true := fun _ => quiet_alloc hquiet rfl
  have fresh : JustConstructed studioWithLfo 3 "lfo" := ⟨rfl, rfl, rfl, rfl⟩
  constructor
  · have hadopts := (add_child_adopts_iff stageOverrides studioWithLfo 1 3 true .stage
      studioWithLfo_registered (by decide) (by decide) hcalm).1 "lfo" (by decide) fresh
    exact hadopts.mpr (by decide)
  · refine (add_child_adopts_iff stageOverrides studioTree 1 2 true .stage studioTree_registered
      (by decide) (by decide) fun _ => hquiet).2 0 hquiet (by decide) (by decide) (by decide)
        not_below_osc ?_
    intro x d _ _ hroot
    rcases hroot with hroot | ⟨-, hroot⟩ <;> cases hroot

/-- `ada` lists `ada/osc` after it has moved to `ada/synth`. -/
theorem osc_listed_twice :
    ¬ ∀ (v : Overrides) (h : ZstHierarchy) (p c : EntityId), Rename.IsHierarchy v →
      RegisteredTree h → NoRemovalQueued h → h.InTree p → (h.entities p).isComponent = true →
        h.InTree c → ¬ h.Below c p → h.lookup (pathBelow h p c) = none →
          Adopted h (addChild v h p c) p c := by
  intro hall
  have hadopted := hall stageOverrides studioTree 1 2 .stage studioTree_registered
    (quiet_ofList (by decide)) (by decide) (by decide) (by decide) not_below_osc (by decide)
  exact absurd (hadopted.unlisted 0 (by decide) ⟨["ada", "osc"], by decide, by decide⟩) (by decide)

end Adoption

end Showtime.Adoption
