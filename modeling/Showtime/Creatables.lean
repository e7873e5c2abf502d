import Showtime.Library.KeyedSet
import Showtime.Library.Run
import Showtime.Tree
/-!
# The creatables of a factory

A factory keeps its creators under their paths, and rebuilds the map from its
own keys whenever its URI may have changed. A path that begins with the new URI
stays; of any other one only the last segment is kept, behind the URI.
-/

namespace Showtime.Creatables

open Library

open ZstHierarchy (reparentedURI)

variable {Creator : Type}

/-- The keys of `std::unordered_map<ZstURI, ZstEntityCreatorFunc, ZstURIHash>`, which are the
same if their texts are. The set has the order of the texts, on which no result depends. -/
abbrev creatablePath (creatable : ZstURI × Creator) : String :=
  creatable.1.path

structure ZstEntityFactory (Creator : Type) where
  uri : ZstURI
  creatables : KeyedSet (@creatablePath Creator) := .empty

/-- `ZstURI::last` throws on the empty path. -/
def lastSegment (path : ZstURI) : Except Fault ZstURI :=
  if path = [] then .error .exception else .ok path.last

/-- Where `update_createable_URIs` puts a creatable. -/
def updatedPath (uri path : ZstURI) : Except Fault ZstURI :=
  if path.contains uri then .ok path
  else do
    let segment ← lastSegment path
    return uri.add segment

inductive FactoryStep
  | updateCreatables
  /-- `set_name`, up to `update_URI`, ... -/
  | setName (hasParent : Bool) (name : ZstURI)
  /-- ... and `set_parent`, with the address of the parent, if there is one. -/
  | setParent (address : ZstURI)
  deriving DecidableEq, Repr

namespace ZstEntityFactory

def addCreatable (f : ZstEntityFactory Creator) (path : ZstURI) (creator : Creator) :
    ZstEntityFactory Creator :=
  { f with creatables := f.creatables.insert (path, creator) }

/-- `update_createable_URIs`. Insertion does not overwrite. -/
def updateCreateableURIs (f : ZstEntityFactory Creator) :
    Except Fault (ZstEntityFactory Creator) := do
  let creatables ← f.creatables.items.foldlM (fun creatables c => do
    let path ← updatedPath f.uri c.1
    return creatables.insert (path, c.2)) .empty
  return { f with creatables }

/-- The URI that a step gives the factory. -/
def newURI (f : ZstEntityFactory Creator) : FactoryStep → Except Fault ZstURI
  | .updateCreatables => .ok f.uri
  | .setName hasParent name => .ok (if hasParent then f.uri.parent.add name else name)
  | .setParent address =>
    -- the last segment of the old URI is taken, unless it begins with the address
    if f.uri = [] then .error .exception else .ok (reparentedURI f.uri address)

def step (f : ZstEntityFactory Creator) (event : FactoryStep) : Except Fault
    (ZstEntityFactory Creator) := do
  let uri ← f.newURI event
  { f with uri }.updateCreateableURIs

end ZstEntityFactory

open ZstEntityFactory

/-! ## Where the creatables should be -/

/-- A path relative to the URI of the factory, if it is below it. -/
def relativePath (uri path : ZstURI) : ZstURI :=
  if path.contains uri then path.drop uri.length else path

/-- The creators with their relative paths. -/
def relatives (f : ZstEntityFactory Creator) : List (ZstURI × Creator) :=
  f.creatables.items.map fun c => (relativePath f.uri c.1, c.2)

/-- The map holds each of these creators under the URI of the factory followed by
its relative path, and nothing else. -/
def RegistersExactly (creators : List (ZstURI × Creator)) (f : ZstEntityFactory Creator) : Prop :=
  f.creatables.items.Perm (creators.map fun c => (f.uri ++ c.1, c.2))

/-- A path that begins with the new URI is in its place already, and any other one is
put there: in a factory with a URI, what follows the URI is one segment. -/
def FitsPath (f : ZstEntityFactory Creator) (uri path : ZstURI) : Prop :=
  if path.contains uri then path = uri ++ relativePath f.uri path
  else path ≠ [] ∧ uri.add path.last = uri ++ relativePath f.uri path

instance (f : ZstEntityFactory Creator) (uri path : ZstURI) : Decidable (FitsPath f uri path) :=
  inferInstanceAs (Decidable (if path.contains uri then path = uri ++ relativePath f.uri path
    else path ≠ [] ∧ uri.add path.last = uri ++ relativePath f.uri path))

/-- The new URI suits every creatable, and keeps them apart. -/
structure FitsCreatables (f : ZstEntityFactory Creator) (uri : ZstURI) : Prop where
  placed : ∀ c ∈ f.creatables.items, FitsPath f uri c.1
  apart : ((relatives f).map fun c => (uri ++ c.1).path).Nodup

/-- The condition on a step. -/
def Suits (f : ZstEntityFactory Creator) (event : FactoryStep) : Prop :=
  ∃ uri, f.newURI event = .ok uri ∧ FitsCreatables f uri

section Paths

variable {uri path relative : ZstURI}

theorem contains_append (hempty : uri ≠ []) : ZstURI.contains (uri ++ relative) uri = true := by
  unfold ZstURI.contains
  simp [hempty]

/-- What follows the URI is the relative path. -/
@[simp] theorem relativePath_append : relativePath uri (uri ++ relative) = relative := by
  unfold relativePath
  by_cases hempty : uri = []
  · subst hempty
    rfl
  · rw [if_pos (contains_append hempty)]
    exact List.drop_left

/-- The path of a creatable after an update, where `last` does not throw. -/
def moved (uri path : ZstURI) : ZstURI :=
  if path.contains uri then path else uri.add path.last

theorem updatedPath_eq (uri path : ZstURI) :
    updatedPath uri path = if path = [] then .error .exception else .ok (moved uri path) := by
  unfold updatedPath moved lastSegment
  cases path with
  | nil =>
    have hcontains : ZstURI.contains [] uri = false := by
      cases uri <;> rfl
    rw [if_neg (by simp [hcontains])]
    rfl
  | cons segment path =>
    split
    · rfl
    · rfl

/-- The path fits if and only if it is moved to its place. -/
theorem fitsPath_iff {f : ZstEntityFactory Creator} :
    FitsPath f uri path ↔ path ≠ [] ∧ moved uri path = uri ++ relativePath f.uri path := by
  unfold FitsPath moved
  split
  · rename_i hcontains
    refine (and_iff_right_of_imp fun _ hempty => ?_).symm
    rw [hempty] at hcontains
    cases uri <;> cases hcontains
  · exact Iff.rfl

theorem asOperand_last_append (uri : ZstURI) (segment : String) :
    ZstURI.asOperand (ZstURI.last (uri ++ [segment])) = [segment] := by
  have hdrop : (uri ++ [segment]).drop ((uri ++ [segment]).length - 1) = [segment] := by simp
  unfold ZstURI.last
  rw [hdrop]
  unfold ZstURI.ofSegments ZstURI.asOperand
  by_cases hsegment : segment = ""
  · simp [hsegment]
  · simp [hsegment]

theorem add_last_append (hempty : uri ≠ []) (parent : ZstURI) (segment : String) :
    uri.add (ZstURI.last (parent ++ [segment])) = uri ++ [segment] := by
  unfold ZstURI.add
  rw [asOperand_last_append]
  simp [ZstURI.asOperand, hempty]

/-- Of a path that is not below the URI, what follows the URI is one segment. -/
theorem fitsPath_iff_single {f : ZstEntityFactory Creator} (hempty : uri ≠ [])
    (hbelow : path = f.uri ++ relativePath f.uri path) :
    FitsPath f uri path ↔
      if path.contains uri then f.uri = uri else ∃ segment, relativePath f.uri path = [segment] := by
  unfold FitsPath
  split
  · constructor
    · intro hplace
      exact List.append_cancel_right (hbelow.symm.trans hplace)
    · intro hsame
      rw [← hsame]
      exact hbelow
  · constructor
    · rintro ⟨hpath, hplace⟩
      obtain ⟨parent, segment, hparent⟩ := List.eq_nil_or_concat path |>.resolve_left hpath
      rw [List.concat_eq_append] at hparent
      rw [hparent, add_last_append hempty, ← hparent] at hplace
      exact ⟨segment, (List.append_cancel_left hplace).symm⟩
    · rintro ⟨segment, hsegment⟩
      rw [hsegment] at hbelow ⊢
      rw [hbelow]
      exact ⟨by simp, add_last_append hempty f.uri segment⟩

/-- The texts of two paths that differ in their last segments differ. -/
theorem segment_of_path_append {first second : String}
    (hpath : (uri ++ [first]).path = (uri ++ [second]).path) : first = second := by
  unfold ZstURI.path at hpath
  by_cases hempty : uri = []
  · simpa [hempty] using hpath
  · rw [String.intercalate_append_of_ne_nil hempty (by simp),
      String.intercalate_append_of_ne_nil hempty (by simp)] at hpath
    simpa using hpath

end Paths

/-! ## One step -/

/-- The map that an update builds, where it does not throw. -/
def rebuilt (uri : ZstURI) (items : List (ZstURI × Creator)) : KeyedSet (@creatablePath Creator) :=
  KeyedSet.empty.insertAll (items.map fun c => (moved uri c.1, c.2))

section Steps

variable {f t : ZstEntityFactory Creator} {uri : ZstURI} {event : FactoryStep}

/-- The loop puts every creatable where it is moved to, unless one of them throws. -/
theorem foldlM_insert_ok {items : List (ZstURI × Creator)}
    {creatables after : KeyedSet (@creatablePath Creator)} :
    items.foldlM (fun creatables c => do
      let path ← updatedPath uri c.1
      return creatables.insert (path, c.2)) creatables = .ok after ↔
      (∀ c ∈ items, c.1 ≠ []) ∧
        after = creatables.insertAll (items.map fun c => (moved uri c.1, c.2)) := by
  induction items generalizing creatables with
  | nil => simp [KeyedSet.insertAll, pure, Except.pure, eq_comm]
  | cons c items ih =>
    rw [List.foldlM_cons, List.forall_mem_cons]
    by_cases hempty : c.1 = []
    · simp [hempty, updatedPath_eq, bind, Except.bind]
    · rw [updatedPath_eq, if_neg hempty]
      simp only [bind, Except.bind, pure, Except.pure]
      exact ih.trans (and_congr_left' (and_iff_right hempty).symm)

theorem updateCreateableURIs_ok :
    f.updateCreateableURIs = .ok t ↔ (∀ c ∈ f.creatables.items, c.1 ≠ []) ∧
      t = { f with creatables := rebuilt f.uri f.creatables.items } := by
  unfold updateCreateableURIs
  rw [Library.bind_ok]
  constructor
  · rintro ⟨creatables, hloop, hreturn⟩
    obtain ⟨hpaths, rfl⟩ := foldlM_insert_ok.mp hloop
    exact ⟨hpaths, (Except.ok.inj hreturn).symm⟩
  · rintro ⟨hpaths, rfl⟩
    exact ⟨_, foldlM_insert_ok.mpr ⟨hpaths, rfl⟩, rfl⟩

theorem step_ok :
    f.step event = .ok t ↔ ∃ uri, f.newURI event = .ok uri ∧
      (∀ c ∈ f.creatables.items, c.1 ≠ []) ∧
        t = { uri, creatables := rebuilt uri f.creatables.items } := by
  unfold step
  rw [Library.bind_ok]
  exact exists_congr fun uri => and_congr_right fun _ => updateCreateableURIs_ok

/-- A URI that suits every creatable takes each of them with it. -/
theorem FitsCreatables.perm (hfits : FitsCreatables f uri) :
    (rebuilt uri f.creatables.items).items.Perm
      ((relatives f).map fun c => (uri ++ c.1, c.2)) := by
  have hplaced : (f.creatables.items.map fun c => (moved uri c.1, c.2)) =
      (relatives f).map fun c => (uri ++ c.1, c.2) := by
    unfold relatives
    rw [List.map_map]
    refine List.map_congr_left fun c hc => ?_
    simp [(fitsPath_iff.mp (hfits.placed c hc)).2]
  unfold rebuilt
  rw [hplaced]
  refine (KeyedSet.perm_insertAll ?_ (by simp [KeyedSet.empty])).trans ?_
  · rw [List.map_map]
    exact hfits.apart
  · exact List.Perm.refl _

theorem RegistersExactly.relatives {creators : List (ZstURI × Creator)}
    (hregistered : RegistersExactly creators f) :
    (relatives f).Perm creators := by
  unfold Creatables.relatives
  refine (hregistered.map _).trans ?_
  rw [List.map_map]
  simp [Function.comp_def]

/-- Where all are registered, a URI suits them if it stays as it is, or if it begins no
path of a creatable and each relative path has one segment. -/
theorem RegistersExactly.fits_iff {creators : List (ZstURI × Creator)}
    (hregistered : RegistersExactly creators f) (hempty : uri ≠ []) :
    FitsCreatables f uri ↔ ∀ c ∈ creators,
      if ZstURI.contains (f.uri ++ c.1) uri then f.uri = uri else ∃ segment, c.1 = [segment] := by
  have hpath : ∀ c ∈ f.creatables.items, c.1 = f.uri ++ relativePath f.uri c.1 := by
    intro c hc
    obtain ⟨r, -, rfl⟩ := List.mem_map.mp (hregistered.mem_iff.mp hc)
    simp
  have hplaced : (∀ c ∈ f.creatables.items, FitsPath f uri c.1) ↔ ∀ c ∈ creators,
      if ZstURI.contains (f.uri ++ c.1) uri then f.uri = uri else ∃ segment, c.1 = [segment] := by
    constructor
    · intro hfits c hc
      have hitem := hregistered.mem_iff.mpr (List.mem_map.mpr ⟨c, hc, rfl⟩)
      simpa using (fitsPath_iff_single hempty (hpath _ hitem)).mp (hfits _ hitem)
    · intro hcreators c hc
      obtain ⟨r, hr, rfl⟩ := List.mem_map.mp (hregistered.mem_iff.mp hc)
      refine (fitsPath_iff_single hempty (hpath _ hc)).mpr ?_
      simpa using hcreators r hr
  refine ⟨fun hfits => hplaced.mp hfits.placed, fun hcreators => ⟨hplaced.mpr hcreators, ?_⟩⟩
  have hkeys := (hregistered.map creatablePath).nodup_iff.mp (KeyedSet.nodup _)
  rw [List.map_map] at hkeys
  rw [(hregistered.relatives.map _).nodup_iff]
  by_cases hsame : f.uri = uri
  · rw [← hsame]
    exact hkeys
  · -- the relative paths are single segments, and no two of them are the same
    refine List.Nodup.map_on ?_ (List.Nodup.of_map _ hkeys)
    have hsingle : ∀ c ∈ creators, ∃ segment, c.1 = [segment] := by
      intro c hc
      have hc := hcreators c hc
      split at hc
      · exact absurd hc hsame
      · exact hc
    intro c hc d hd htext
    obtain ⟨first, hfirst⟩ := hsingle c hc
    obtain ⟨second, hsecond⟩ := hsingle d hd
    rw [hfirst, hsecond] at htext
    refine List.inj_on_of_nodup_map hkeys hc hd ?_
    simp [creatablePath, hfirst, hsecond, segment_of_path_append htext]

/-- After a step whose URI suits every creatable, each is registered. -/
theorem FitsCreatables.registered {creators : List (ZstURI × Creator)}
    (hsame : (relatives f).Perm creators)
    (huri : f.newURI event = .ok uri) (hfits : FitsCreatables f uri) :
    ∃ t, f.step event = .ok t ∧ RegistersExactly creators t := by
  refine ⟨_, step_ok.mpr ⟨uri, huri, fun c hc => ?_, rfl⟩, ?_⟩
  · exact (fitsPath_iff.mp (hfits.placed c hc)).1
  · exact hfits.perm.trans (hsame.map _)

/-- If each is registered after a step, the URI suits every creatable. The creators
have to be different, or two of them may change places. -/
theorem fits_of_registered {creators : List (ZstURI × Creator)} (hsame : (relatives f).Perm creators)
    (hdistinct : (creators.map Prod.snd).Nodup) (hstep : f.step event = .ok t)
    (hregistered : RegistersExactly creators t) : Suits f event := by
  obtain ⟨uri, huri, hpaths, rfl⟩ := step_ok.mp hstep
  have hitems : (rebuilt uri f.creatables.items).items.Perm
      ((relatives f).map fun c => (uri ++ c.1, c.2)) :=
    hregistered.trans (hsame.map _).symm
  refine ⟨uri, huri, fun c hc => fitsPath_iff.mpr ⟨hpaths c hc, ?_⟩, ?_⟩
  · -- the creator of the path is found again at its place, and it comes from this path
    have hplace : (uri ++ relativePath f.uri c.1, c.2) ∈ rebuilt uri f.creatables.items := by
      refine hitems.mem_iff.mpr (List.mem_map.mpr ⟨(relativePath f.uri c.1, c.2), ?_, rfl⟩)
      exact List.mem_map.mpr ⟨c, hc, rfl⟩
    obtain ⟨other, hother, heq⟩ := List.mem_map.mp
      ((KeyedSet.mem_or_mem_of_mem_insertAll hplace).resolve_left (KeyedSet.not_mem_empty _))
    obtain ⟨hpath, hcreator⟩ := Prod.mk.inj heq
    have hcreators : (f.creatables.items.map Prod.snd).Nodup := by
      have hperm := (hsame.map Prod.snd).nodup_iff.mpr hdistinct
      unfold relatives at hperm
      rwa [List.map_map] at hperm
    obtain rfl := List.inj_on_of_nodup_map hcreators hother hc hcreator
    exact hpath
  · have hkeys := (hitems.map creatablePath).nodup_iff.mp (KeyedSet.nodup _)
    rwa [List.map_map] at hkeys

end Steps

/-! ## The factory in the hierarchy -/

/-- The entity of the hierarchy has the URI and the paths of the factory. -/
structure Reflects (f : ZstEntityFactory Creator) (x : Entity) : Prop where
  uri : x.uri = f.uri
  creatables : x.creatables.Perm (f.creatables.items.map Prod.fst)

theorem FitsCreatables.reflects {f : ZstEntityFactory Creator} {uri : ZstURI} {x : Entity}
    (hfits : FitsCreatables f uri) (huri : x.uri = uri)
    (hcreatables : x.creatables.Perm (f.creatables.items.map Prod.fst)) :
    Reflects { uri, creatables := rebuilt uri f.creatables.items } x.updateCreateableURIs := by
  refine ⟨huri, ?_⟩
  have hmoved : x.updateCreateableURIs.creatables = x.creatables.map (moved uri) := by
    rw [← huri]
    rfl
  have hplaced : (f.creatables.items.map fun c => moved uri c.1) =
      (relatives f).map fun c => uri ++ c.1 := by
    unfold relatives
    rw [List.map_map]
    exact List.map_congr_left fun c hc => (fitsPath_iff.mp (hfits.placed c hc)).2
  have hbefore := hcreatables.map (moved uri)
  have hafter := hfits.perm.map Prod.fst
  rw [List.map_map] at hbefore hafter
  rw [hmoved]
  exact hbefore.trans ((List.Perm.of_eq hplaced).trans hafter.symm)

/-- A step to a URI that suits the creatables is what `set_parent` does to the entity. -/
theorem Reflects.setParentBase {h : ZstHierarchy} {e : EntityId} {parent : Option EntityId}
    {f t : ZstEntityFactory Creator} (hreflects : Reflects f (h.entities e))
    (hfactory : (h.entities e).entityType = .factory)
    (hsuits : Suits f (.setParent (h.addressOf parent)))
    (hstep : f.step (.setParent (h.addressOf parent)) = .ok t) :
    Reflects t ((h.setParentBase e parent).entities e) := by
  obtain ⟨uri, huri, hfits⟩ := hsuits
  obtain ⟨uri', huri', -, rfl⟩ := step_ok.mp hstep
  obtain rfl : uri = uri' := Except.ok.inj (huri.symm.trans huri')
  have hnew : uri = reparentedURI (h.entities e).uri (h.addressOf parent) := by
    simp only [newURI] at huri
    split at huri
    · cases huri
    · rw [hreflects.uri]
      exact (Except.ok.inj huri).symm
  have hentity : (h.setParentBase e parent).entities e = { h.entities e with
      parentAddress := h.addressOf parent
      uri := reparentedURI (h.entities e).uri (h.addressOf parent) }.updateCreateableURIs := by
    unfold ZstHierarchy.setParentBase ZstHierarchy.updateURI
    dsimp only
    generalize hk : h.modify e _ = k
    have hself : k.entities e = { h.entities e with
        parentAddress := h.addressOf parent
        uri := reparentedURI (h.entities e).uri (h.addressOf parent) } := by
      rw [← hk, ZstHierarchy.modify_entities_self]
    have hlookup : (if (k.entities e).registered then
        k.updateEntityInLookup e (h.entities e).uri else k).entities = k.entities := by
      split <;> rfl
    generalize (if (k.entities e).registered then
      k.updateEntityInLookup e (h.entities e).uri else k) = l at hlookup ⊢
    have htype : (l.entities e).entityType = .factory := by
      rw [hlookup, hself]
      exact hfactory
    rw [if_pos htype, ZstHierarchy.modify_entities_self, hlookup, hself]
  rw [hentity]
  exact hfits.reflects hnew.symm hreflects.creatables

/-! ## Runs -/

section Runs

variable {f s : ZstEntityFactory Creator} {history : List FactoryStep}

/-- In a run whose steps all suit the creatables, each keeps its relative path. -/
theorem registered_run (hsuits : Library.Along step Suits f history)
    (hrun : Library.run step f history = .ok s) :
    (relatives s).Perm (relatives f) ∧ (history ≠ [] → RegistersExactly (relatives f) s) := by
  induction history using List.reverseRecOn generalizing s with
  | nil =>
    obtain rfl : f = s := by simpa using hrun
    exact ⟨List.Perm.refl _, fun hnil => absurd rfl hnil⟩
  | append_singleton history event ih =>
    obtain ⟨u, hu, hstep⟩ := Library.run_concat_ok.mp hrun
    obtain ⟨uri, huri, hfits⟩ := Library.along_append_cons hsuits hu
    obtain ⟨t, ht, hregistered⟩ :=
      hfits.registered (ih (Library.along_append.mp hsuits).1 hu).1 huri
    obtain rfl : t = s := Except.ok.inj (ht.symm.trans hstep)
    exact ⟨hregistered.relatives, fun _ => hregistered⟩

/-- **Creatables.** As long as every new URI suits the creatables of a factory, the map
holds each creator under the URI followed by its original relative path, and nothing
else. The first URI that does not suit them throws, or leaves the map with another
content, whatever the creators are, as long as they are different. -/
theorem creatables_registered (hrun : Library.run step f history = .ok s)
    (hsuits : Library.Along step Suits f history) :
    s.creatables.items.length = f.creatables.items.length ∧
      (history ≠ [] → RegistersExactly (relatives f) s) ∧
      (∀ event, Suits s event → ∃ t, s.step event = .ok t ∧ RegistersExactly (relatives f) t) ∧
      (((relatives f).map Prod.snd).Nodup → ∀ event t, ¬ Suits s event →
        s.step event = .ok t → ¬ RegistersExactly (relatives f) t) := by
  obtain ⟨hsame, hregistered⟩ := registered_run hsuits hrun
  refine ⟨?_, hregistered, fun event ⟨uri, huri, hfits⟩ => hfits.registered hsame huri,
    fun hdistinct event t hsuit hstep hnow => hsuit (fits_of_registered hsame hdistinct hstep hnow)⟩
  have hlength := hsame.length_eq
  unfold relatives at hlength
  rwa [List.length_map, List.length_map] at hlength

/-- A factory with one creatable. -/
def factoryOf (path : ZstURI) : ZstEntityFactory Nat :=
  addCreatable { uri := ["factory"] } path 0

/-- A factory with two creatables. -/
def toolbox : ZstEntityFactory Nat :=
  addCreatable (factoryOf ["adder"]) ["mixer"] 1

/-- The factory is put below a performer, and gets another name there. -/
def placed : List FactoryStep :=
  [.updateCreatables, .setParent ["perf"], .setName true ["tools"]]

theorem creatables_registered_placed :
    ∃ s, Library.run step toolbox placed = .ok s ∧
      RegistersExactly [(["adder"], 0), (["mixer"], 1)] s ∧ s.uri = ["perf", "tools"] := by
  have hsuits : Library.Along step Suits toolbox placed := by
    unfold placed
    iterate 3
      refine (Library.along_cons_of_ok rfl).mpr ⟨⟨_, rfl, by decide, by decide⟩, ?_⟩
    trivial
  exact ⟨_, rfl, (creatables_registered rfl hsuits).2.1 (by simp [placed]), rfl⟩

/-- A creatable in a group loses the name of the group. -/
theorem group_not_registered :
    ¬ ∀ (f : ZstEntityFactory Nat) history s, history ≠ [] → Library.run step f history = .ok s →
      s.creatables.items.length = f.creatables.items.length ∧ RegistersExactly (relatives f) s := by
  intro hall
  have hregistered := (hall (factoryOf ["filters", "lowpass"]) [.updateCreatables] _ (by simp) rfl).2
  have hlost : (["factory", "lowpass"], 0) ∈ [(["factory", "filters", "lowpass"], 0)] :=
    hregistered.subset List.mem_cons_self
  exact absurd hlost (by decide)

end Runs

end Showtime.Creatables
