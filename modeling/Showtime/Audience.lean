import Showtime.Directories
import Showtime.Snapshot
/-!
# What a client sees of the directory

A client that joins is sent the stage's entities and cables, one message each.
Whatever it builds from them is the directory again, but for its own part of it.
-/

namespace Showtime.Audience

open ZstHierarchy ZstStage Detaching Draining Directories Remaining Snapshot

variable {h k : ZstHierarchy} {d : Library.Directory String ZstEntityType} {own : ZstURI}

/-- Outside a path the hierarchy is what the directory says, and below the path
it has nothing. -/
structure Shows (own : ZstURI) (d : Library.Directory String ZstEntityType) (k : ZstHierarchy) :
    Prop where
  entry : ∀ path, path.contains own = false →
    (k.findEntity path).map (fun e => (k.entities e).entityType) = d.entry path
  lists : ∀ path child, path.contains own = false → (k.ListsChild path child ↔
    path ≠ [] ∧ ∃ s, child = path ++ [s] ∧ (d.entry child).isSome)
  below : ∀ path, path.contains own = true → path ≠ own → k.findEntity path = none
  root : ∀ child, ¬ k.ListsChild own child

theorem consistent_of_order (order : InOrder h) : StageOwnsTree h :=
  ⟨order.tree, order.root, order.listed, fun _ => order.lt_next, order.performer, order.kind⟩

/-- A component lists what the directory has one segment below it. -/
theorem lists_iff_entry (represents : Represents h d) (path child : ZstURI) :
    h.ListsChild path child ↔ path ≠ [] ∧ ∃ s, child = path ++ [s] ∧ (d.entry child).isSome := by
  have tree := represents.order.tree
  unfold ZstHierarchy.ListsChild
  rw [tree.findEntity_eq]
  constructor
  · rintro ⟨p, hp, hmem⟩
    have hpTree := tree.inTree_of_lookup hp
    obtain ⟨c, s, hc, -, hchild⟩ := tree.child p hpTree child hmem
    rw [(tree.keyed path p hp).1] at hchild
    refine ⟨?_, s, hchild, ?_⟩
    · rw [← (tree.keyed path p hp).1]
      exact (tree.segments p hpTree).1
    · rw [represents.isSome_entry, hc]
      rfl
  · rintro ⟨hpath, s, rfl, hentry⟩
    rw [represents.isSome_entry] at hentry
    obtain ⟨c, hc⟩ := Option.isSome_iff_exists.mp hentry
    have hcTree := tree.inTree_of_lookup hc
    have huri := (tree.keyed _ c hc).1
    have haddress : (h.entities c).parentAddress ≠ [] := by
      intro hnil
      have hone := tree.top c hcTree hnil
      have hpos := List.length_pos_iff.mpr hpath
      rw [huri, List.length_append, List.length_singleton] at hone
      omega
    obtain ⟨p, hp, -, hmem⟩ := tree.parent c hcTree haddress
    have hpTree := tree.inTree_of_lookup hp
    obtain ⟨c', s', -, -, hbelow⟩ := tree.child p hpTree _ hmem
    rw [huri] at hbelow hmem
    have hpuri := (List.append_inj' hbelow rfl).1
    refine ⟨p, ?_, hmem⟩
    rw [hpuri]
    exact hpTree

theorem shows_of_mirrors (represents : Represents h d) (mirrors : Mirrors h own k) :
    Shows own d k := by
  refine ⟨fun path hpath => ?_, fun path child hpath => ?_, mirrors.below, mirrors.root⟩
  · have hentry := congrArg (Option.map Prod.fst) (mirrors.entry path hpath)
    unfold entryAt at hentry
    rw [Option.map_map, Option.map_map, represents.order.tree.findEntity_eq] at hentry
    rw [represents.entry]
    exact hentry
  · rw [mirrors.lists path child hpath, lists_iff_entry represents]

/-- The snapshot's cables change nothing of it. -/
theorem Shows.heard (hshows : Shows own d h) (hk : Heard h k) : Shows own d k := by
  have hfind : k.findEntity = h.findEntity := by
    funext path
    simp only [findEntity, hk.root, hk.lookup, hk.uri]
  have hlists : k.ListsChild = h.ListsChild := by
    funext path child
    simp only [ZstHierarchy.ListsChild, hfind, hk.field Entity.children fun _ => rfl]
  refine ⟨fun path hpath => ?_, fun path child hpath => ?_, fun path => ?_, fun child => ?_⟩
  · simp only [hfind, hk.field Entity.entityType fun _ => rfl]
    exact hshows.entry path hpath
  · rw [hlists]
    exact hshows.lists path child hpath
  · rw [hfind]
    exact hshows.below path
  · rw [hlists]
    exact hshows.root child

section Client

variable {c : ZstSession}

theorem heard_cableCreateHandler (c : ZstSession) (a : ZstCableAddress) :
    Heard c.hierarchy (ZstClientSession.cableCreateHandler c a).hierarchy := by
  unfold ZstClientSession.cableCreateHandler
  split
  · exact .createCable c _ _
  · exact .refl _

theorem receive_heard_cables (v : Overrides) (cables : List ZstCableAddress) (c : ZstSession) :
    ∃ t, Library.run (ZstClientSession.receive v) c (cables.map .cableCreateRequest) = .ok t ∧
      Heard c.hierarchy t.hierarchy := by
  induction cables generalizing c with
  | nil => exact ⟨c, rfl, .refl _⟩
  | cons a cables ih =>
    obtain ⟨t, ht, hheard⟩ := ih (ZstClientSession.cableCreateHandler c a)
    exact ⟨t, Library.run_cons_ok.mpr ⟨_, Plugged.receive_cable v c a, ht⟩,
      (heard_cableCreateHandler c a).trans hheard⟩

/-- What the snapshot shows of a hierarchy that is a directory. -/
theorem shows_snapshot {s : ZstSession} {sender : EntityId} (v : Overrides)
    (represents : Represents s.hierarchy d) (hsender : s.hierarchy.InTree sender)
    (hperformer : (s.hierarchy.entities sender).entityType = .performer)
    (hproxy : (s.hierarchy.entities sender).stageProxy.isSome = true)
    (fresh : KnowsRoot c (s.hierarchy.entities sender).uri) :
    ∃ t, Library.run (ZstClientSession.receive v) c (snapshot s sender) = .ok t ∧
      Shows (s.hierarchy.entities sender).uri d t.hierarchy := by
  have consistent := consistent_of_order represents.order
  have hown : (s.hierarchy.entities sender).uri.contains (s.hierarchy.entities sender).uri = true := by
    have hne := (consistent.tree.segments sender hsender).1
    simp [ZstURI.contains, hne]
  obtain ⟨l, hrun, hmirrored, -⟩ := receive_entities fresh consistent v hown
    consistent.published_ancestorsFirst fun e => (consistent.mem_published hsender hperformer).mp
  have hremote : (fun path => ∃ e ∈ published s.hierarchy sender,
      (s.hierarchy.entities e).uri = path) =
      Remote s.hierarchy (s.hierarchy.entities sender).uri := by
    funext path
    simp only [Remote, consistent.mem_published hsender hperformer, and_assoc]
  rw [hremote] at hmirrored
  have hshows := shows_of_mirrors represents
    (hmirrored.mirrors consistent hown (consistent.performer_uri hsender hperformer))
  obtain ⟨t, hcables, hheard⟩ := receive_heard_cables v (addresses s) { c with hierarchy := l }
  refine ⟨t, ?_, hshows.heard hheard⟩
  rw [snapshot_eq hproxy]
  exact Library.run_append_ok.mpr ⟨_, hrun, hcables⟩

end Client

/-- Whenever nothing is left to do on the stage, a client that joins sees what the
requests so far make of the empty directory. -/
theorem run_shows {events : List StageEvent} {s c : ZstSession} {sender : EntityId} (v : Overrides)
    (hdisciplined : Library.Along ZstStage.step Disciplined ZstStage.opened events)
    (hrun : Library.run ZstStage.step ZstStage.opened events = .ok s) (idle : Idle s.hierarchy)
    (hsender : s.hierarchy.InTree sender)
    (hperformer : (s.hierarchy.entities sender).entityType = .performer)
    (hproxy : (s.hierarchy.entities sender).stageProxy.isSome = true)
    (fresh : KnowsRoot c (s.hierarchy.entities sender).uri) :
    ∃ t, Library.run (ZstClientSession.receive v) c (snapshot s sender) = .ok t ∧
      Shows (s.hierarchy.entities sender).uri
        ((Library.requests ZstStage.step requestOf ZstStage.opened events).foldl
          Library.Directory.perform .empty) t.hierarchy := by
  have represents := (refines_run hdisciplined hrun).represents idle
  exact shows_snapshot v represents hsender hperformer hproxy fresh

/-- Another client joins. -/
theorem along_patch_joining : Library.Along ZstStage.step Disciplined ZstStage.opened
    (patch ++ [joining "bob" 2]) := by
  refine Library.along_append.mpr ⟨along_patch, fun u hu => ⟨?_, fun _ _ => trivial⟩⟩
  obtain rfl := Except.ok.inj ((run_after patch (by decide +kernel)).symm.trans hu)
  exact disciplined_of_named (by decide +kernel) ⟨by decide, by decide⟩ (by decide +kernel)

theorem run_shows_patch :
    ∃ t, Library.run (ZstClientSession.receive stageOverrides) (newClient "bob")
        (snapshot (after (patch ++ [joining "bob" 2])) 3) = .ok t ∧
      Shows ["bob"]
        ((((Library.Directory.empty.enter ["ada"] .performer).enter ["ada", "osc"]
          .component).enter ["ada", "osc", "out"] .plug).enter ["bob"] .performer) t.hierarchy := by
  have huri : ((after (patch ++ [joining "bob" 2])).hierarchy.entities 3).uri = ["bob"] := by
    decide +kernel
  have hrequests : Library.requests ZstStage.step requestOf ZstStage.opened
      (patch ++ [joining "bob" 2]) =
        [.enter ["ada"] .performer, .enter ["ada", "osc"] .component,
          .enter ["ada", "osc", "out"] .plug, .enter ["bob"] .performer] := by
    decide +kernel
  have hsender : (after (patch ++ [joining "bob" 2])).hierarchy.InTree 3 := by decide +kernel
  have hshows := run_shows stageOverrides along_patch_joining (run_after _ (by decide +kernel))
    (by decide +kernel) hsender (by decide +kernel) (by decide +kernel)
    (by rw [huri]; exact newClient_knowsRoot "bob")
  rw [huri, hrequests] at hshows
  exact hshows

end Showtime.Audience
