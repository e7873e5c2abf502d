import Showtime.Adoption
import Showtime.FactoryRequests
import Showtime.Serialization
/-!
# Entities from the client's own factories

`create_entity` has a factory of the client build an entity, and puts that below
the client's performer. The factory says with a null pointer that it has no such
creatable, and the performer asks whatever it is given for its type.
-/

namespace Showtime.LocalFactories

open ZstHierarchy
open ZstStageHierarchy (findFactory)
open Adoption (adopted)
open Rename (built)

section Creating

variable (v : Overrides) (creators : ZstURI → String → Option Entity)

/-- `ZstHierarchy::create_entity`; what a creator builds is put on the heap. -/
def createFromFactory (h : ZstHierarchy) (creatable : ZstURI) (name : String) :
    ZstHierarchy × Option EntityId :=
  match findFactory h creatable.parent with
  | none => (h, none)
  | some factory =>
    match ZstClientHierarchy.createEntity creators (h.entities factory) creatable name with
    | none => (h, none)
    | some x => ((h.alloc x).1, some (h.alloc x).2)

/-- `ZstPerformer::add_child`. A new parent takes the last segment of the entity's
URI, which throws where there is none. -/
def addChildOfPerformer (h : ZstHierarchy) (p : EntityId) :
    Option EntityId → Except Fault ZstHierarchy
  | none => .error .nullPointer
  | some e =>
    if (h.entities e).uri ∉ (h.entities p).children ∧ (h.entities e).uri = [] then
      .error .exception
    else .ok (addChild v h p e)

/-- `ZstClientHierarchy::create_entity`, given what it does with the factory of
another client. -/
def createEntity (external : Except Fault (ZstHierarchy × Option EntityId)) (h : ZstHierarchy)
    (creatable : ZstURI) (name : String) : Except Fault (ZstHierarchy × Option EntityId) :=
  match findFactory h creatable.parent with
  | none => .ok (h, none)
  | some factory =>
    if (h.entities factory).isProxy then external
    else
      match h.root with
      | none => .error .nullPointer
      | some root => do
        let (h, entity) := createFromFactory creators h creatable name
        let h ← addChildOfPerformer v h root entity
        return (h, entity)

end Creating

/-! ## What is to be created -/

/-- The path is one of the creatables of its parent, a factory. -/
def IsCreatable (h : ZstHierarchy) (creatable : ZstURI) : Prop :=
  ∃ factory, findFactory h creatable.parent = some factory ∧
    creatable ∈ (h.entities factory).creatables

/-- A registered path gives the entity that its creator builds, which the performer lists
and the lookup finds at the performer's URI and the name. Any other gives none and changes
nothing. -/
def Creates (creators : ZstURI → String → Option Entity) (h : ZstHierarchy) (root : EntityId)
    (creatable : ZstURI) (name : String)
    (result : Except Fault (ZstHierarchy × Option EntityId)) : Prop :=
  let path := (h.entities root).uri.add (.ofText name)
  (IsCreatable h creatable → ∃ k x, result = .ok (k, some h.next) ∧
    creators creatable name = some x ∧ built (k.entities h.next) = built x ∧
      path ∈ (k.entities root).children ∧ k.findEntity path = some h.next) ∧
  (¬ IsCreatable h creatable → ∃ k, result = .ok (k, none) ∧ k.lookup = h.lookup ∧
    ∀ e, (k.entities e).children = (h.entities e).children)

/-- A constructor has given the entity its name, and nothing else. -/
structure Constructed (name : String) (x : Entity) : Prop where
  uri : x.uri = .ofText name
  unregistered : x.registered = false
  children : x.children = []
  events : x.synchronisableEvents = []

/-- A client with its performer. -/
structure IsClient (h : ZstHierarchy) (root : EntityId) : Prop where
  isRoot : h.root = some root
  component : (h.entities root).isComponent = true
  registered : (h.entities root).registered = true
  allocated : root < h.next
  known : ∀ q e, h.lookup q = some e → e < h.next

/-- Nothing waits to be destroyed when the new entity is activated. -/
def NoRemovalIfRootActivated (h : ZstHierarchy) (root : EntityId) : Prop :=
  (h.entities root).isActivated = true → NoRemovalQueued h

/-- The client has a name, and the entity has another one that is a single segment. -/
structure NamesNewChild (h : ZstHierarchy) (root : EntityId) (name : ZstURI) : Prop where
  named : (h.entities root).uri ≠ []
  single : name.length = 1
  other : name ≠ (h.entities root).uri
  unlisted : name ∉ (h.entities root).children

/-! ## Paths -/

theorem asOperand_last {u : ZstURI} (hu : u ≠ []) : u.last.asOperand = u.drop (u.length - 1) := by
  obtain ⟨s, hs⟩ : ∃ s, u.drop (u.length - 1) = [s] := by
    have hlength : (u.drop (u.length - 1)).length = 1 := by
      have hpos := List.length_pos_iff.mpr hu
      rw [List.length_drop]
      omega
    exact List.length_eq_one_iff.mp hlength
  unfold ZstURI.last ZstURI.ofSegments ZstURI.asOperand
  rw [hs]
  by_cases hempty : s = ""
  · simp [hempty]
  · simp [hempty]

/-- The entity gets the performer's URI and its name exactly if the performer has a name,
and the entity another one that is a single segment. -/
theorem reparentedURI_eq_add_iff {name parent : ZstURI} (hname : name ≠ []) :
    reparentedURI name parent = parent.add name ↔
      parent ≠ [] ∧ name.length = 1 ∧ name ≠ parent := by
  have hpos := List.length_pos_iff.mpr hname
  have hoperand : name.asOperand = name := if_neg hname
  have hadd : (parent.add name).length = parent.asOperand.length + name.length := by
    rw [ZstURI.add, hoperand, List.length_append]
  unfold reparentedURI
  by_cases hparent : parent = []
  · subst hparent
    rw [if_pos rfl]
    refine iff_of_false (fun hsame => ?_) (fun h => h.1 rfl)
    have hlength : name.last.length ≤ name.last.asOperand.length := by
      unfold ZstURI.asOperand
      split
      · rename_i hlast
        rw [hlast]
        exact Nat.zero_le _
      · exact le_rfl
    rw [asOperand_last hname, hsame, hadd, List.length_drop] at hlength
    have hone : (ZstURI.asOperand []).length = 1 := rfl
    omega
  · have hfull : parent.asOperand = parent := if_neg hparent
    have hparentpos := List.length_pos_iff.mpr hparent
    rw [hfull] at hadd
    rw [if_neg hparent]
    by_cases hcontains : name.contains parent = true
    · rw [if_pos hcontains]
      refine iff_of_false (fun hsame => ?_) fun hfits => ?_
      · have hlength := congrArg List.length hsame
        omega
      · obtain ⟨-, hsingle, hother⟩ := hfits
        unfold ZstURI.contains at hcontains
        rw [Bool.and_eq_true, List.isPrefixOf_iff_prefix] at hcontains
        exact hother (hcontains.2.eq_of_length_le (by omega)).symm
    · rw [if_neg hcontains]
      have hother : name ≠ parent := by
        rintro rfl
        refine hcontains ?_
        unfold ZstURI.contains
        rw [Bool.and_eq_true, List.isPrefixOf_iff_prefix]
        exact ⟨by simpa using hname, List.prefix_rfl⟩
      unfold ZstURI.add
      rw [asOperand_last hname, hoperand, List.append_cancel_left_eq]
      constructor
      · intro hdrop
        have hlength := congrArg List.length hdrop
        rw [List.length_drop] at hlength
        exact ⟨hparent, by omega, hother⟩
      · rintro ⟨-, hsingle, -⟩
        rw [hsingle]
        rfl

/-! ## The new child -/

section NewChild

variable {h : ZstHierarchy} {root : EntityId} {x : Entity} {name : String}

variable (link : StageLink) (fuel : Nat)

/-- Unless the performer lists the entity's URI, the entity is put below it, and settles
if it is activated. -/
theorem addChild_settles (client : IsClient h root) (hcalm : NoRemovalIfRootActivated h root)
    (constructed : Constructed name x) (hlisted : x.uri ∉ (h.entities root).children) :
    ∃ creatables, Rename.Settles (· = h.next) (adopted (h.alloc x).1 root h.next creatables)
      (addChild (ZstClientHierarchy.overrides link fuel) (h.alloc x).1 root h.next) := by
  have hne : root ≠ h.next := client.allocated.ne
  have hroot : (h.alloc x).1.entities root = h.entities root := alloc_of_ne x hne
  obtain ⟨creatables, heq⟩ := Adoption.addChild_new
    (v := ZstClientHierarchy.overrides link fuel) (h := (h.alloc x).1) (p := root) (c := h.next)
    (by rw [alloc_self]; exact constructed.unregistered)
    (by rw [alloc_self]; exact constructed.children)
    (by rw [hroot]; exact client.registered) (by rw [hroot]; exact client.component)
    (by rw [alloc_self, hroot]; exact hlisted) true
  refine ⟨creatables, ?_⟩
  rw [heq, hroot]
  split
  · rename_i hactivates
    simp only [Bool.and_eq_true] at hactivates
    have hquiet := quiet_alloc (hcalm hactivates.1.1) constructed.events
    have hclosed : Rename.Closed (· = h.next)
        (Adoption.adopted (h.alloc x).1 root h.next creatables) := by
      rintro _ rfl q hq
      rw [Adoption.adopted_self _ creatables hne, alloc_self] at hq
      rw [constructed.children] at hq
      cases hq
    exact .requestEntityActivation link fuel hclosed
      (Adoption.adopted_quiet _ creatables hne (by rw [alloc_self]; exact constructed.events)
        hquiet) rfl
  · exact .refl _

/-- The lookup finds the new entity at its new path only, unless the performer is there. -/
theorem findEntity_settled (client : IsClient h root) {k : ZstHierarchy}
    {creatables : List ZstURI}
    (hsettles : Rename.Settles (· = h.next) (adopted (h.alloc x).1 root h.next creatables) k)
    {q : ZstURI} (hq : q ≠ (h.entities root).uri) :
    k.findEntity q = some h.next ↔ q = reparentedURI x.uri (h.entities root).uri := by
  have hne : root ≠ h.next := client.allocated.ne
  have hroot : (h.alloc x).1.entities root = h.entities root := alloc_of_ne x hne
  have hlookup : (adopted (h.alloc x).1 root h.next creatables).lookup =
      Function.update h.lookup (reparentedURI x.uri (h.entities root).uri) (some h.next) := by
    rw [Adoption.adopted_lookup _ creatables hne, alloc_self, hroot]
    rfl
  have huri : (k.entities root).uri = (h.entities root).uri := by
    rw [hsettles.uri, Adoption.adopted_parent _ creatables hne, hroot]
  have hfind : k.findEntity q = k.lookup q := by
    have hisRoot : k.root = some root := hsettles.root.trans client.isRoot
    unfold findEntity
    rw [hisRoot]
    dsimp only
    rw [huri, if_neg hq.symm]
  rw [hfind]
  constructor
  · intro hk
    rcases hsettles.lookup q h.next hk with hbefore | ⟨-, huri⟩
    · rw [hlookup, Function.update_apply] at hbefore
      split at hbefore
      · assumption
      · exact absurd (client.known q _ hbefore) (Nat.lt_irrefl _)
    · rw [Adoption.adopted_self _ creatables hne, alloc_self, hroot] at huri
      exact huri.symm
  · rintro rfl
    have hself : (adopted (h.alloc x).1 root h.next creatables).lookup
        (reparentedURI x.uri (h.entities root).uri) = some h.next := by
      rw [hlookup, Function.update_self]
    have hfound := hsettles.kept _ (by rw [hself]; exact Option.some_ne_none _)
    obtain ⟨e, he⟩ := Option.ne_none_iff_exists'.mp hfound
    rcases hsettles.lookup _ e he with hbefore | ⟨rfl, -⟩
    · rw [hself] at hbefore
      rw [he, ← hbefore]
    · exact he

/-- The new entity is what was built. -/
theorem built_settled (client : IsClient h root) {k : ZstHierarchy} {creatables : List ZstURI}
    (hsettles : Rename.Settles (· = h.next) (adopted (h.alloc x).1 root h.next creatables) k) :
    built (k.entities h.next) = built x := by
  rw [hsettles.built, Adoption.adopted_self _ creatables client.allocated.ne, alloc_self]
  rfl

theorem mem_children_settled (client : IsClient h root) {k : ZstHierarchy}
    {creatables : List ZstURI}
    (hsettles : Rename.Settles (· = h.next) (adopted (h.alloc x).1 root h.next creatables) k) :
    reparentedURI x.uri (h.entities root).uri ∈ (k.entities root).children := by
  have hne : root ≠ h.next := client.allocated.ne
  rw [hsettles.children, Adoption.adopted_parent _ creatables hne, alloc_self, alloc_of_ne x hne]
  exact (ZstURI.mem_emplace _ _ _).mpr (.inl rfl)

end NewChild

theorem add_ne_self (u v : ZstURI) : u.add v ≠ u := by
  intro hsame
  have hlength := congrArg List.length hsame
  have hle : ∀ w : ZstURI, w.length ≤ w.asOperand.length ∧ 0 < w.asOperand.length := by
    intro w
    unfold ZstURI.asOperand
    split
    · simp_all
    · rename_i hw
      exact ⟨le_rfl, List.length_pos_iff.mpr hw⟩
  have hu := (hle u).1
  have hv := (hle v).2
  rw [ZstURI.add, List.length_append] at hlength
  omega

/-! ## Creating an entity -/

section Creating

variable {creators : ZstURI → String → Option Entity} {v : Overrides}
  {external : Except Fault (ZstHierarchy × Option EntityId)} {h : ZstHierarchy} {root : EntityId}
  {creatable : ZstURI} {name : String}

/-- Nothing is registered with what is no factory. -/
theorem creates_of_no_factory (hnone : findFactory h creatable.parent = none) :
    Creates creators h root creatable name (createEntity v creators external h creatable name) := by
  have hunregistered : ¬ IsCreatable h creatable := by
    rintro ⟨factory, hfactory, -⟩
    rw [hnone] at hfactory
    cases hfactory
  refine ⟨fun hregistered => absurd hregistered hunregistered, fun _ => ⟨h, ?_, rfl, fun _ => rfl⟩⟩
  unfold createEntity
  rw [hnone]

section Local

variable {factory : EntityId} (client : IsClient h root)
  (hfactory : findFactory h creatable.parent = some factory)
  (hlocal : (h.entities factory).isProxy = false)

include client hfactory hlocal

theorem createEntity_local : createEntity v creators external h creatable name =
    (addChildOfPerformer v (createFromFactory creators h creatable name).1 root
      (createFromFactory creators h creatable name).2).bind fun k =>
        .ok (k, (createFromFactory creators h creatable name).2) := by
  unfold createEntity
  rw [hfactory]
  dsimp only
  rw [hlocal, if_neg Bool.false_ne_true, client.isRoot]
  rfl

omit client hlocal in
/-- What the factory builds, if it has the creatable. -/
theorem createFromFactory_eq : createFromFactory creators h creatable name =
    if creatable ∈ (h.entities factory).creatables then
      (creators creatable name).elim (h, none) fun x => ((h.alloc x).1, some h.next)
    else (h, none) := by
  unfold createFromFactory ZstClientHierarchy.createEntity
  rw [hfactory]
  dsimp only
  by_cases hmem : creatable ∈ (h.entities factory).creatables
  · rw [if_pos hmem, if_pos hmem]
    cases creators creatable name with
    | none => rfl
    | some x => rfl
  · rw [if_neg hmem, if_neg hmem]

/-- Without an entity the performer asks a null pointer for its type. -/
theorem not_creates_of_null (hnull : (createFromFactory creators h creatable name).2 = none) :
    ¬ Creates creators h root creatable name
      (createEntity v creators external h creatable name) := by
  have hfault : createEntity v creators external h creatable name = .error .nullPointer := by
    rw [createEntity_local client hfactory hlocal, hnull]
    rfl
  rw [hfault]
  rintro ⟨hregistered, hother⟩
  by_cases hmem : IsCreatable h creatable
  · obtain ⟨k, -, hk, -⟩ := hregistered hmem
    cases hk
  · obtain ⟨k, hk, -⟩ := hother hmem
    cases hk

section Built

variable {x : Entity} (hmem : creatable ∈ (h.entities factory).creatables)
  (hx : creators creatable name = some x) (constructed : Constructed name x)

include hmem hx constructed

theorem createEntity_built : createEntity v creators external h creatable name =
    if ZstURI.ofText name ∉ (h.entities root).children ∧ ZstURI.ofText name = [] then
      .error .exception
    else .ok (addChild v (h.alloc x).1 root h.next, some h.next) := by
  rw [createEntity_local client hfactory hlocal, createFromFactory_eq hfactory, if_pos hmem, hx]
  dsimp only [Option.elim_some, addChildOfPerformer]
  rw [alloc_self, alloc_of_ne x client.allocated.ne, constructed.uri]
  split
  · rfl
  · rfl

/-- An entity whose own URI the performer lists is not put below it. -/
theorem not_creates_of_listed (hlisted : ZstURI.ofText name ∈ (h.entities root).children) :
    ¬ Creates creators h root creatable name
      (createEntity v creators external h creatable name) := by
  have hroot : (h.alloc x).1.entities root = h.entities root := alloc_of_ne x client.allocated.ne
  have hsame : addChild v (h.alloc x).1 root h.next = (h.alloc x).1 := by
    unfold addChild addChildWith
    rw [hroot, if_pos client.component, alloc_self, constructed.uri, if_pos hlisted]
  rw [createEntity_built client hfactory hlocal hmem hx constructed,
    if_neg (fun h => h.1 hlisted), hsame]
  rintro ⟨hregistered, -⟩
  obtain ⟨k, -, hk, -, -, -, hfind⟩ := hregistered ⟨factory, hfactory, hmem⟩
  obtain rfl := congrArg Prod.fst (Except.ok.inj hk)
  have hisRoot : (h.alloc x).1.root = some root := client.isRoot
  unfold findEntity at hfind
  rw [hisRoot] at hfind
  dsimp only at hfind
  rw [hroot, if_neg (add_ne_self _ _).symm] at hfind
  exact absurd (client.known _ _ hfind) (Nat.lt_irrefl _)

/-- An empty URI has no last segment. -/
theorem not_creates_of_empty (hempty : ZstURI.ofText name = [])
    (hlisted : ZstURI.ofText name ∉ (h.entities root).children) :
    ¬ Creates creators h root creatable name
      (createEntity v creators external h creatable name) := by
  rw [createEntity_built client hfactory hlocal hmem hx constructed, if_pos ⟨hlisted, hempty⟩]
  rintro ⟨hregistered, -⟩
  obtain ⟨k, -, hk, -⟩ := hregistered ⟨factory, hfactory, hmem⟩
  cases hk

/-- Else the entity is created exactly if its new URI is the performer's and the name. -/
theorem creates_iff_reparentedURI (link : StageLink) (fuel : Nat)
    (hcalm : NoRemovalIfRootActivated h root)
    (hname : ZstURI.ofText name ≠ []) (hlisted : ZstURI.ofText name ∉ (h.entities root).children) :
    Creates creators h root creatable name
        (createEntity (ZstClientHierarchy.overrides link fuel) creators external h creatable name) ↔
      reparentedURI (.ofText name) (h.entities root).uri =
        (h.entities root).uri.add (.ofText name) := by
  obtain ⟨creatables, hsettles⟩ :=
    addChild_settles link fuel client hcalm constructed (by rw [constructed.uri]; exact hlisted)
  have hfind := findEntity_settled client hsettles (add_ne_self _ (.ofText name))
  have hchildren := mem_children_settled client hsettles
  rw [constructed.uri] at hfind hchildren
  rw [createEntity_built client hfactory hlocal hmem hx constructed, if_neg (fun h => hname h.2)]
  constructor
  · rintro ⟨hregistered, -⟩
    obtain ⟨k, -, hk, -, -, -, hfound⟩ := hregistered ⟨factory, hfactory, hmem⟩
    obtain rfl := congrArg Prod.fst (Except.ok.inj hk)
    exact (hfind.mp hfound).symm
  · intro hpath
    refine ⟨fun _ => ⟨_, x, rfl, hx, built_settled client hsettles, ?_, hfind.mpr hpath.symm⟩,
      fun hunregistered => absurd ⟨factory, hfactory, hmem⟩ hunregistered⟩
    rw [← hpath]
    exact hchildren

end Built
end Local

/-- The creator is there, and builds an entity that has a URI the performer does not list. -/
def Buildable (creators : ZstURI → String → Option Entity) (h : ZstHierarchy) (root : EntityId)
    (creatable : ZstURI) (name : String) : Prop :=
  IsCreatable h creatable ∧ (creators creatable name).isSome = true ∧ ZstURI.ofText name ≠ [] ∧
    ZstURI.ofText name ∉ (h.entities root).children

theorem fits_iff : NamesNewChild h root (.ofText name) ↔
    ZstURI.ofText name ≠ [] ∧ ZstURI.ofText name ∉ (h.entities root).children ∧
      reparentedURI (.ofText name) (h.entities root).uri =
        (h.entities root).uri.add (.ofText name) := by
  constructor
  · intro fits
    have hname : ZstURI.ofText name ≠ [] := by
      intro hempty
      have hsingle := fits.single
      rw [hempty] at hsingle
      cases hsingle
    exact ⟨hname, fits.unlisted,
      (reparentedURI_eq_add_iff hname).mpr ⟨fits.named, fits.single, fits.other⟩⟩
  · rintro ⟨hname, hlisted, hpath⟩
    obtain ⟨hnamed, hsingle, hother⟩ := (reparentedURI_eq_add_iff hname).mp hpath
    exact ⟨hnamed, hsingle, hother, hlisted⟩

/-- Whatever waits in the queues, a creatable that is not there is never created. -/
theorem buildable_of_creates (client : IsClient h root)
    (hbuilt : ∀ path name x, creators path name = some x → Constructed name x)
    (hlocal : ∀ factory, findFactory h creatable.parent = some factory →
      (h.entities factory).isProxy = false)
    (hcreates : Creates creators h root creatable name
      (createEntity v creators external h creatable name)) :
    findFactory h creatable.parent = none ∨ Buildable creators h root creatable name := by
  cases hfactory : findFactory h creatable.parent with
  | none => exact .inl rfl
  | some factory =>
    refine .inr ?_
    have hproxy := hlocal factory hfactory
    have hnull := fun hnull => not_creates_of_null client hfactory hproxy hnull hcreates
    rw [createFromFactory_eq hfactory] at hnull
    by_cases hmem : creatable ∈ (h.entities factory).creatables
    · rw [if_pos hmem] at hnull
      cases hx : creators creatable name with
      | none =>
        rw [hx] at hnull
        exact absurd rfl hnull
      | some x =>
        have hlisted := fun hlisted =>
          not_creates_of_listed client hfactory hproxy hmem hx (hbuilt _ _ _ hx) hlisted hcreates
        refine ⟨⟨factory, hfactory, hmem⟩, by rw [hx]; rfl, fun hempty => ?_, hlisted⟩
        exact not_creates_of_empty client hfactory hproxy hmem hx (hbuilt _ _ _ hx) hempty hlisted
          hcreates
    · rw [if_neg hmem] at hnull
      exact absurd rfl hnull

end Creating

/-- Creating an entity does what is asked for exactly if there is no factory at the parent of
the path, or one that has the path and builds an entity, whose name fits. -/
theorem createEntity_creates_iff (link : StageLink) (fuel : Nat)
    (creators : ZstURI → String → Option Entity)
    (hbuilt : ∀ path name x, creators path name = some x → Constructed name x)
    (external : Except Fault (ZstHierarchy × Option EntityId)) (h : ZstHierarchy) (root : EntityId)
    (client : IsClient h root) (creatable : ZstURI) (name : String)
    (hlocal : ∀ factory, findFactory h creatable.parent = some factory →
      (h.entities factory).isProxy = false) :
    (NoRemovalIfRootActivated h root → (Creates creators h root creatable name
        (createEntity (ZstClientHierarchy.overrides link fuel) creators external h creatable name) ↔
      findFactory h creatable.parent = none ∨ IsCreatable h creatable ∧
        (creators creatable name).isSome = true ∧ NamesNewChild h root (.ofText name))) ∧
    (Creates creators h root creatable name
        (createEntity (ZstClientHierarchy.overrides link fuel) creators external h creatable name) →
      findFactory h creatable.parent = none ∨ Buildable creators h root creatable name) := by
  refine ⟨fun hcalm => ⟨fun hcreates => ?_, ?_⟩, buildable_of_creates client hbuilt hlocal⟩
  · refine (buildable_of_creates client hbuilt hlocal hcreates).imp_right ?_
    rintro ⟨⟨factory, hfactory, hmem⟩, hsome, hname, hlisted⟩
    obtain ⟨x, hx⟩ := Option.isSome_iff_exists.mp hsome
    refine ⟨⟨factory, hfactory, hmem⟩, hsome, fits_iff.mpr ⟨hname, hlisted, ?_⟩⟩
    exact (creates_iff_reparentedURI client hfactory (hlocal factory hfactory) hmem hx
      (hbuilt _ _ _ hx) link fuel hcalm hname hlisted).mp hcreates
  · rintro (hnone | ⟨⟨factory, hfactory, hmem⟩, hsome, fits⟩)
    · exact creates_of_no_factory hnone
    · obtain ⟨x, hx⟩ := Option.isSome_iff_exists.mp hsome
      obtain ⟨hname, hlisted, hpath⟩ := fits_iff.mp fits
      exact (creates_iff_reparentedURI client hfactory (hlocal factory hfactory) hmem hx
        (hbuilt _ _ _ hx) link fuel hcalm hname hlisted).mpr hpath

/-- A creator that constructs a component. -/
def component (_ : ZstURI) (name : String) : Option Entity :=
  some { entityType := .component, uri := .ofText name }

theorem component_constructed (path : ZstURI) (name : String) (x : Entity)
    (hx : component path name = some x) : Constructed name x := by
  obtain rfl := Option.some.inj hx
  exact ⟨rfl, rfl, rfl, rfl⟩

theorem makerClient_isClient : IsClient FactoryRequests.makerClient 0 :=
  ⟨rfl, rfl, rfl, by decide, fun _ _ he => (ofList_lookup he).1⟩

theorem makerClient_local (factory : EntityId) :
    (FactoryRequests.makerClient.entities factory).isProxy = false := by
  rcases factory with _ | _ | factory
  · rfl
  · rfl
  · rfl

/-- The client `bob` creates `bob/s1`. -/
theorem createEntity_creates_iff_maker :
    Creates component FactoryRequests.makerClient 0 ["bob", "maker", "synth"] "s1"
      (createEntity (ZstClientHierarchy.overrides { connected := true, answer := fun _ => none } 1)
        component (.error .exception) FactoryRequests.makerClient ["bob", "maker", "synth"] "s1") := by
  have hname : ZstURI.ofText "s1" = ["s1"] := ZstURI.parsed_of_segments (u := ["s1"]) (by decide)
  refine ((createEntity_creates_iff _ 1 component component_constructed (.error .exception)
    FactoryRequests.makerClient 0 makerClient_isClient ["bob", "maker", "synth"] "s1"
    fun factory _ => makerClient_local factory).1 fun _ => quiet_ofList (by decide)).mpr
      (.inr ⟨⟨1, rfl, by decide⟩, rfl, ?_⟩)
  rw [hname]
  exact ⟨by decide, by decide, by decide, by decide⟩

/-- With a path that the factory does not have, the client asks a null pointer for its type. -/
theorem unregistered_not_creates : ¬ ∀ (link : StageLink) (fuel : Nat)
    (creators : ZstURI → String → Option Entity),
    (∀ path name x, creators path name = some x → Constructed name x) →
    ∀ (external : Except Fault (ZstHierarchy × Option EntityId)) (h : ZstHierarchy)
      (root : EntityId), IsClient h root → ∀ (creatable : ZstURI) (name : String),
      (∀ factory, findFactory h creatable.parent = some factory →
        (h.entities factory).isProxy = false) →
      Creates creators h root creatable name
        (createEntity (ZstClientHierarchy.overrides link fuel) creators external h creatable name) := by
  intro hall
  have hfactory : findFactory FactoryRequests.makerClient
      (ZstURI.parent ["bob", "maker", "bass"]) = some 1 := rfl
  have hcreates := hall { connected := true, answer := fun _ => none } 1 component
    component_constructed (.error .exception) FactoryRequests.makerClient 0 makerClient_isClient
    ["bob", "maker", "bass"] "s1" fun factory _ => makerClient_local factory
  refine not_creates_of_null makerClient_isClient hfactory rfl ?_ hcreates
  rw [createFromFactory_eq hfactory, if_neg (by decide)]

end Showtime.LocalFactories
