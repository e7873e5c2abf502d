import Showtime.Bundles
/-!
# Walking down a path

`walk_to_entity` and `walk_child_by_URI` look for an entity step by step: each
component is asked for the child at the path's next, longer beginning. A bound on
the number of rounds stands for the running time: without a result the loop has
not come to its end.
-/

namespace Showtime

/-- `ZstURI::range`, whose unsigned difference throws when the end comes before the
start. Behind the last segment the source reads segments that were never set. -/
def ZstURI.range (u : ZstURI) (start stop : Nat) : Except Fault ZstURI :=
  if stop < start ∨ u.size < stop - start then .error .exception
  else .ok (ofSegments ((u.take (stop + 1)).drop start))

namespace Walking

open ZstHierarchy

/-- The loop of `walk_child_by_URI`; in the first round `previous` is `this`. -/
def walkLoop (h : ZstHierarchy) (path : ZstURI) :
    Nat → Int → EntityId → Option EntityId → Option (Except Fault (Option EntityId))
  | 0, _, _, _ => none
  | rounds + 1, distance, previous, result =>
    if 0 < distance then
      match path.range 0 (path.size - distance).toNat with
      | .error fault => some (.error fault)
      | .ok next =>
        match (if (h.entities previous).isComponent then h.getChildByURI previous next else none) with
        | none => some (.ok none)
        | some entity =>
          walkLoop h path rounds (path.size - (h.entities entity).uri.size) entity (some entity)
    else some (.ok result)

/-- `ZstComponent::walk_child_by_URI`. -/
def walkChildByURI (h : ZstHierarchy) (rounds : Nat) (e : EntityId) (path : ZstURI) :
    Option (Except Fault (Option EntityId)) :=
  let uri := (h.entities e).uri
  if path.size ≤ uri.size ∨ path.contains uri = false then some (.ok none)
  else walkLoop h path rounds (path.size - uri.size) e none

/-- `ZstHierarchy::walk_to_entity`. -/
def walkToEntity (h : ZstHierarchy) (rounds : Nat) (path : ZstURI) :
    Option (Except Fault (Option EntityId)) :=
  match firstSegment path with
  | .error fault => some (.error fault)
  | .ok first =>
    match h.findEntity first with
    | none => some (.ok none)
    | some root =>
      if (h.entities root).entityType = .performer then
        if (h.entities root).uri = path then some (.ok (some root))
        else walkChildByURI h rounds root path
      else some (.ok none)

/-! ## The direct lookup -/

/-- The lookup finds registered entities, each of them at its URI; a single empty
segment is not the text of any. -/
structure Addressed (h : ZstHierarchy) : Prop where
  keyed : ∀ q e, h.findEntity q = some e →
    (h.entities e).uri = q ∧ (h.entities e).registered = true
  canonical : ∀ q e, h.findEntity q = some e → q ≠ [""]

theorem Addressed.of_registeredTree {h : ZstHierarchy} (tree : RegisteredTree h) :
    Addressed h where
  keyed q e he := by
    rw [tree.findEntity_eq] at he
    exact ⟨(tree.keyed q e he).1, (tree.keyed q e he).2.2⟩
  canonical q e he := by
    rw [tree.findEntity_eq] at he
    have hsegments := (tree.segments e (tree.inTree_of_lookup he)).2
    rintro rfl
    rw [(tree.keyed _ e he).1] at hsegments
    exact hsegments List.mem_cons_self

/-- A component is found at a path. -/
def ComponentAt (h : ZstHierarchy) (q : ZstURI) : Prop :=
  ∃ e, h.findEntity q = some e ∧ (h.entities e).isComponent = true

/-- Components are found at all beginnings of the path from a number of segments on. -/
def Passable (h : ZstHierarchy) (path : ZstURI) (start : Nat) : Prop :=
  ∀ k, start ≤ k → k < path.size → ComponentAt h (ZstURI.ofSegments (path.take k))

/-- The first segment is a performer, and every beginning of the path a component. -/
def Walkable (h : ZstHierarchy) (path : ZstURI) : Prop :=
  (∃ root, h.findEntity path.first = some root ∧ (h.entities root).entityType = .performer) ∧
    Passable h path 1

/-- With rounds enough, the walk comes to this end. -/
def EndsIn (walk : Nat → Option (Except Fault (Option EntityId))) (result : Option EntityId) :
    Prop :=
  ∃ rounds, ∀ more, rounds ≤ more → walk more = some (.ok result)

/-- The walk finds what the lookup finds, if it gets through, and otherwise nothing. -/
def WalkAgrees (h : ZstHierarchy) (walk : Nat → Option (Except Fault (Option EntityId)))
    (path : ZstURI) (through : Prop) : Prop :=
  (through → EndsIn walk (h.findEntity path)) ∧ (¬ through → EndsIn walk none)

/-! ## The loop -/

theorem take_succ_ne {path : ZstURI} {n : Nat} (hn : 0 < n) (hlt : n < path.length) :
    path.take (n + 1) ≠ [""] := by
  intro hsingle
  have hlength := congrArg List.length hsingle
  rw [List.length_take, List.length_singleton] at hlength
  omega

theorem ofSegments_of_ne {q : ZstURI} (hq : q ≠ [""]) : ZstURI.ofSegments q = q :=
  if_neg hq

/-- The loop never asks for more segments than the path has. -/
theorem range_zero {path : ZstURI} {n : Nat} (hn : 0 < n) (hlt : n < path.length) :
    path.range 0 n = .ok (path.take (n + 1)) := by
  have hsize : ¬ (n < 0 ∨ path.size < n - 0) := by
    unfold ZstURI.size
    omega
  rw [ZstURI.range, if_neg hsize, List.drop_zero, ofSegments_of_ne (take_succ_ne hn hlt)]

section Loop

variable {h : ZstHierarchy} (addressed : Addressed h) {path : ZstURI}

include addressed

/-- The path is passable from an entity on if that is a component, and the path is
passable from the next segment on. -/
theorem passable_iff {n : Nat} (hlt : n < path.size) {e : EntityId}
    (he : h.findEntity (path.take n) = some e) :
    Passable h path n ↔ (h.entities e).isComponent = true ∧ Passable h path (n + 1) := by
  have hsegments := ofSegments_of_ne (addressed.canonical _ e he)
  constructor
  · intro hpassable
    obtain ⟨d, hd, hkind⟩ := hpassable n le_rfl hlt
    rw [hsegments, he] at hd
    obtain rfl := Option.some.inj hd
    exact ⟨hkind, fun k hk => hpassable k (Nat.le_of_succ_le hk)⟩
  · rintro ⟨hkind, hpassable⟩ k hk hksize
    rcases hk.eq_or_lt with rfl | hk
    · rw [hsegments]
      exact ⟨e, he, hkind⟩
    · exact hpassable k hk hksize

/-- From the entity at a beginning of the path, the loop finds what the lookup finds. -/
theorem walkLoop_eq {n : Nat} (hn : 0 < n) (hle : n ≤ path.size) {e : EntityId}
    (he : h.findEntity (path.take n) = some e) {result : Option EntityId}
    (hresult : n = path.size → result = h.findEntity path) {rounds : Nat}
    (hrounds : path.size - n < rounds) :
    (Passable h path n →
      walkLoop h path rounds (path.size - n) e result = some (.ok (h.findEntity path))) ∧
    (¬ Passable h path n →
      walkLoop h path rounds (path.size - n) e result = some (.ok none)) := by
  induction rounds generalizing n e result with
  | zero => omega
  | succ rounds ih =>
    rcases hle.eq_or_lt with hend | hlt
    · have hdistance : ¬ (0 : Int) < path.size - n := by omega
      rw [walkLoop, if_neg hdistance, hresult hend]
      refine ⟨fun _ => rfl, fun hblocked => absurd (fun k hk hksize => ?_) hblocked⟩
      omega
    · have hdistance : (0 : Int) < path.size - n := by omega
      have hstop : ((path.size : Int) - (path.size - n)).toNat = n := by omega
      rw [walkLoop, if_pos hdistance, hstop, range_zero hn hlt, passable_iff addressed hlt he]
      simp only [getChildByURI, (addressed.keyed _ _ he).2, if_true]
      cases hkind : (h.entities e).isComponent with
      | false => simp
      | true =>
        simp only [if_true, true_and]
        cases hnext : h.findEntity (path.take (n + 1)) with
        | none =>
          refine ⟨fun hpassable => ?_, fun _ => rfl⟩
          rcases Nat.lt_or_ge (n + 1) path.size with hmore | hend
          · obtain ⟨d, hd, -⟩ := hpassable (n + 1) le_rfl hmore
            rw [ofSegments_of_ne (take_succ_ne hn hlt), hnext] at hd
            cases hd
          · rw [List.take_of_length_le hend] at hnext
            rw [hnext]
        | some d =>
          have hsize : (h.entities d).uri.size = n + 1 := by
            rw [(addressed.keyed _ _ hnext).1]
            exact List.length_take_of_le hlt
          simp only [hsize]
          refine ih n.succ_pos hlt hnext (fun hend => ?_) (by omega)
          rw [← hnext, List.take_of_length_le hend.ge]

/-- A component that is at a beginning of the path walks down the rest of it. -/
theorem walkChildByURI_agrees {e : EntityId} (he : h.findEntity (h.entities e).uri = some e)
    (hcontains : path.contains (h.entities e).uri = true)
    (hlt : (h.entities e).uri.size < path.size) :
    WalkAgrees h (fun rounds => walkChildByURI h rounds e path) path
      (Passable h path (h.entities e).uri.size) := by
  have htake : path.take (h.entities e).uri.size = (h.entities e).uri := by
    unfold ZstURI.contains at hcontains
    rw [Bool.and_eq_true, List.isPrefixOf_iff_prefix] at hcontains
    exact (List.prefix_iff_eq_take.mp hcontains.2).symm
  have hpos : 0 < (h.entities e).uri.size := by
    refine List.length_pos_of_ne_nil fun hempty => ?_
    rw [hempty] at hcontains
    cases hcontains
  have hguard : ¬ (path.size ≤ (h.entities e).uri.size ∨
      path.contains (h.entities e).uri = false) := by
    simp [hcontains, hlt]
  have hfind : h.findEntity (path.take (h.entities e).uri.size) = some e := by
    rw [htake]
    exact he
  have hwalk : ∀ rounds, walkChildByURI h rounds e path =
      walkLoop h path rounds (path.size - (h.entities e).uri.size) e none :=
    fun _ => if_neg hguard
  have hstart : (h.entities e).uri.size = path.size → none = h.findEntity path :=
    fun hend => absurd hend hlt.ne
  refine ⟨fun hpassable => ⟨path.size + 1, fun rounds hrounds => (hwalk rounds).trans ?_⟩,
    fun hblocked => ⟨path.size + 1, fun rounds hrounds => (hwalk rounds).trans ?_⟩⟩
  · exact (walkLoop_eq addressed hpos hlt.le hfind hstart (by omega)).1 hpassable
  · exact (walkLoop_eq addressed hpos hlt.le hfind hstart (by omega)).2 hblocked

/-- The path does not contain the empty URI, so a performer there never walks. -/
theorem walkToEntity_unnamed (hpath : path ≠ []) (hfirst : path.first = []) (rounds : Nat) :
    walkToEntity h rounds path = some (.ok none) := by
  unfold walkToEntity firstSegment
  rw [if_neg hpath]
  dsimp only
  rw [hfirst]
  cases hroot : h.findEntity [] with
  | none => rfl
  | some root =>
    have huri : (h.entities root).uri = [] := (addressed.keyed _ root hroot).1
    have hstays : walkChildByURI h rounds root path = some (.ok none) := by
      refine if_pos (Or.inr ?_)
      rw [huri]
      rfl
    have hother : (h.entities root).uri ≠ path := fun heq => hpath (heq.symm.trans huri)
    simp only [if_neg hother, hstays, ite_self]

/-- The hierarchy walks from the performer at the first segment, if that is not empty. -/
theorem walkToEntity_agrees (hpath : path ≠ []) :
    WalkAgrees h (fun rounds => walkToEntity h rounds path) path
      (path.first ≠ [] ∧ Walkable h path) := by
  by_cases hnamed : path.first = []
  · exact ⟨fun hthrough => absurd hnamed hthrough.1,
      fun _ => ⟨0, fun rounds _ => walkToEntity_unnamed addressed hpath hnamed rounds⟩⟩
  rw [and_iff_right hnamed]
  unfold walkToEntity firstSegment
  rw [if_neg hpath]
  dsimp only
  cases hroot : h.findEntity path.first with
  | none =>
    have hblocked : ¬ Walkable h path := by
      rintro ⟨⟨root, hfind, -⟩, -⟩
      rw [hroot] at hfind
      cases hfind
    exact ⟨fun hthrough => absurd hthrough hblocked, fun _ => ⟨0, fun _ _ => rfl⟩⟩
  | some root =>
    dsimp only
    by_cases hkind : (h.entities root).entityType = .performer
    · have huri := (addressed.keyed _ root hroot).1
      have hfirst : path.first = path.take 1 := by
        refine ofSegments_of_ne fun hsingle => hnamed ?_
        rw [ZstURI.first, hsingle]
        rfl
      have hwalkable : Walkable h path ↔ Passable h path 1 :=
        and_iff_right ⟨root, hroot, hkind⟩
      simp only [if_pos hkind]
      rw [hwalkable]
      by_cases hsame : (h.entities root).uri = path
      · simp only [if_pos hsame]
        have hpassable : Passable h path 1 := by
          intro k hk hksize
          have hone : path.size ≤ 1 := by
            rw [← hsame, huri, hfirst]
            exact List.length_take_le 1 path
          omega
        refine ⟨fun _ => ⟨0, fun _ _ => ?_⟩, fun hblocked => absurd hpassable hblocked⟩
        rw [← hroot, ← huri, hsame]
      · simp only [if_neg hsame]
        have hsize : (h.entities root).uri.size = 1 := by
          rw [huri, hfirst]
          exact List.length_take_of_le (List.length_pos_of_ne_nil hpath)
        have hlt : (h.entities root).uri.size < path.size := by
          rw [hsize]
          by_contra hshort
          rw [huri, hfirst] at hsame
          exact hsame (List.take_of_length_le (not_lt.mp hshort))
        have hcontains : path.contains (h.entities root).uri = true := by
          unfold ZstURI.contains
          rw [Bool.and_eq_true, List.isPrefixOf_iff_prefix, huri, hfirst]
          refine ⟨?_, List.take_prefix 1 path⟩
          cases path with
          | nil => exact absurd rfl hpath
          | cons => rfl
        have hwalk := walkChildByURI_agrees addressed (huri ▸ hroot) hcontains hlt
        rw [hsize] at hwalk
        exact hwalk
    · simp only [if_neg hkind]
      have hblocked : ¬ Walkable h path := by
        rintro ⟨⟨root', hfind, hkind'⟩, -⟩
        rw [hroot] at hfind
        obtain rfl := Option.some.inj hfind
        exact hkind hkind'
      exact ⟨fun hthrough => absurd hthrough hblocked, fun _ => ⟨0, fun _ _ => rfl⟩⟩

end Loop

/-- Walking agrees with the direct lookup wherever a named performer and components are on
the way, and finds nothing where they are not. -/
theorem walk_agrees (h : ZstHierarchy) (addressed : Addressed h) :
    (∀ path : ZstURI, path ≠ [] →
      WalkAgrees h (fun rounds => walkToEntity h rounds path) path
        (path.first ≠ [] ∧ Walkable h path)) ∧
    ∀ c path, h.findEntity (h.entities c).uri = some c →
      path.contains (h.entities c).uri = true → (h.entities c).uri.size < path.size →
      WalkAgrees h (fun rounds => walkChildByURI h rounds c path) path
        (Passable h path (h.entities c).uri.size) :=
  ⟨fun _ hpath => walkToEntity_agrees addressed hpath,
    fun _ _ hc hcontains hlt => walkChildByURI_agrees addressed hc hcontains hlt⟩

theorem walk_agrees_nested :
    (∀ path : ZstURI, path ≠ [] → WalkAgrees Bundles.nested
      (fun rounds => walkToEntity Bundles.nested rounds path) path
      (path.first ≠ [] ∧ Walkable Bundles.nested path)) ∧
    ∀ c path, Bundles.nested.findEntity (Bundles.nested.entities c).uri = some c →
      path.contains (Bundles.nested.entities c).uri = true →
      (Bundles.nested.entities c).uri.size < path.size →
      WalkAgrees Bundles.nested (fun rounds => walkChildByURI Bundles.nested rounds c path) path
        (Passable Bundles.nested path (Bundles.nested.entities c).uri.size) :=
  walk_agrees Bundles.nested (.of_registeredTree Bundles.nested_registeredTree)

example : walkToEntity Bundles.nested 3 ["perf", "comp", "out"] = some (.ok (some 3)) := by decide

/-- A client has joined as `/ada`, and after it one without a name. -/
def unnamed : ZstHierarchy :=
  ofList [
    { entityType := .performer, uri := ["", "ada"], registered := true },
    { entityType := .performer, uri := [], registered := true }]

theorem unnamed_addressed : Addressed unnamed := by
  have hlookup : ∀ q e, unnamed.findEntity q = some e →
      e < 2 ∧ (unnamed.entities e).uri = q := fun q e he => ofList_lookup he
  refine ⟨fun q e he => ?_, ?_⟩
  · obtain ⟨hlt, huri⟩ := hlookup q e he
    refine ⟨huri, ?_⟩
    rcases e with _ | _ | e
    · rfl
    · rfl
    · exact absurd hlt (Nat.not_lt.mpr (Nat.le_add_left 2 e))
  · rintro _ e he rfl
    obtain ⟨hlt, huri⟩ := hlookup _ e he
    rcases e with _ | _ | e
    · exact absurd huri (by decide)
    · exact absurd huri (by decide)
    · exact absurd hlt (Nat.not_lt.mpr (Nat.le_add_left 2 e))

/-- The first client is found at its path, but not by walking from the other one. -/
theorem unnamed_not_walked : ¬ ∀ h, Addressed h → ∀ path, path ≠ [] →
    WalkAgrees h (fun rounds => walkToEntity h rounds path) path (Walkable h path) := by
  intro hall
  have hwalkable : Walkable unnamed ["", "ada"] := by
    refine ⟨⟨1, by decide, by decide⟩, fun k hk hksize => ?_⟩
    obtain rfl : k = 1 := by
      have hlt : k < 2 := hksize
      omega
    exact ⟨1, by decide, by decide⟩
  obtain ⟨rounds, hrounds⟩ := (hall unnamed unnamed_addressed ["", "ada"] (by decide)).1 hwalkable
  have hnone : walkToEntity unnamed rounds ["", "ada"] = some (.ok none) := rfl
  have hfound : unnamed.findEntity ["", "ada"] = some 0 := by decide
  have hsome := hnone.symm.trans (hrounds rounds le_rfl)
  rw [hfound] at hsome
  cases hsome

end Walking
end Showtime
