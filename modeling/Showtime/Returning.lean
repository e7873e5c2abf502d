import Showtime.RenameRuns
/-!
# Coming back to the stage

A performer that has left is found at its path until the reaper has come to it. Who
joins under that path before then is refused. Who joins after it is found there, and
stays so as long as nothing passes the path.
-/

namespace Showtime.Returning

open ZstHierarchy ZstStageHierarchy ZstStageSession ZstStage Cabling CableSets Footprint
open NamedEntities (Renames)
open RenamedCables (cleanup_places keyed_of_nowhere not_under_nil)

/-- The new performer, or what it stands below, does not leave in the step. -/
def NewcomerStays (x : EntityId) (s : ZstSession) (event : StageEvent) : Prop :=
  ∀ e ∈ leavers s.hierarchy event, ¬ s.hierarchy.Below e x

/-- The entity leaves from below nobody, or it is found at its path, and it passes the
given one on its way with nothing that is below it. -/
def LeavesPast (h : ZstHierarchy) (path : ZstURI) (e : EntityId) : Prop :=
  h.parent e = none ∨
    h.lookup (h.entities e).uri = some e ∧ EndsNamed h e ∧ ¬ Under (RemovalStem h e) path

/-- The entity keeps its name, or passes the path with nothing while it gets another one. -/
def UpdatesPast (h : ZstHierarchy) (path : ZstURI) (buffer : EntityBuffer) (e : EntityId) : Prop :=
  Renames h e buffer → buffer.uri.last ≠ [] ∧ EndsNamed h e ∧
    ¬ Under (RenameStem h e buffer.uri.last) path ∧ ∀ x, h.lookup path = some x → ¬ h.Below e x

/-- Who joins has a path, nobody passes the given path, and the reaper has no callback
for anybody there. -/
def SparesPath (path : ZstURI) (s : ZstSession) : StageEvent → Prop
  | .receive msg =>
    match msg.content with
    | .clientJoinRequest performer _ => performer.uri ≠ []
    | .clientLeaveRequest _ _ | .entityDestroyRequest _ =>
      ∀ e ∈ leavers s.hierarchy (.receive msg), LeavesPast s.hierarchy path e
    | .entityUpdateRequest buffer originalPath =>
      ∀ e ∈ s.hierarchy.findEntity originalPath, UpdatesPast s.hierarchy path buffer e
    | _ => True
  | .heartbeatTimer => ∀ e ∈ leavers s.hierarchy .heartbeatTimer, s.hierarchy.parent e = none
  | .cleanup => ∀ e ∈ s.hierarchy.cleanupOps.head?, (s.hierarchy.entities e).uri ≠ path
  | _ => True

/-- Somebody is found at the path, and nobody at the empty one. -/
structure Found (path : ZstURI) (x : EntityId) (s : ZstSession) : Prop where
  wired : Wired s
  nowhere : s.hierarchy.lookup [] = none
  found : s.hierarchy.lookup path = some x

section Steps

variable {path : ZstURI} {x : EntityId} {s t : ZstSession} {h k : ZstHierarchy}

/-- A move that passes the path with nobody leaves alone whoever is found there. -/
theorem lookup_of_passes {e : EntityId} {T : ZstURI → Prop} (indexed : Indexed h)
    (hk : Passes h (h.Below e) (ParentOf h e) T k) (he : h.lookup (h.entities e).uri = some e)
    (hfound : h.lookup path = some x) (hx : ¬ h.Below e x) (hT : ¬ T path) :
    k.lookup path = some x := by
  rw [hk.lookup_eq hT fun d hd huri => ?_]
  · exact hfound
  · have hd' := inTree_of_below indexed he hd
    rw [huri, hfound] at hd'
    exact hx (Option.some.inj hd' ▸ hd)

/-- Nor does it put anybody at the empty path. -/
theorem nowhere_of_passes {e : EntityId} {stem : ZstURI → Prop} (indexed : Indexed h)
    (hk : Passes h (h.Below e) (ParentOf h e) (Under stem) k)
    (he : h.lookup (h.entities e).uri = some e) (nowhere : h.lookup [] = none)
    (hstem : ∀ u, stem u → u ≠ []) : k.lookup [] = none := by
  rw [hk.lookup_eq (not_under_nil hstem) fun d hd huri => ?_]
  · exact nowhere
  · have hd' := inTree_of_below indexed he hd
    rw [huri, nowhere] at hd'
    cases hd'

/-- Both places as they were. -/
structure SamePlace (path : ZstURI) (x : EntityId) (k : ZstHierarchy) : Prop where
  nowhere : k.lookup [] = none
  found : k.lookup path = some x

theorem Found.of_lookup (found : Found path x s) (hk : k.lookup = s.hierarchy.lookup) :
    SamePlace path x k :=
  ⟨hk ▸ found.nowhere, hk ▸ found.found⟩

theorem Found.removeProxyEntity (found : Found path x s) {e : EntityId}
    (hstays : ¬ s.hierarchy.Below e x) (hpast : LeavesPast s.hierarchy path e) :
    SamePlace path x (s.hierarchy.removeProxyEntity stageOverrides e) := by
  rcases hpast with hparent | ⟨he, hnamed, hpassed⟩
  · exact found.of_lookup (Standing.removeProxyEntity hparent).lookup
  · have hindexed := found.wired.indexed
    have hk := (passes_removeProxyEntity hindexed he).mono Composed.under
    refine ⟨nowhere_of_passes hindexed hk he found.nowhere ?_,
      lookup_of_passes hindexed hk he found.found hstays hpassed⟩
    rintro u ⟨d, hd, rfl⟩
    exact hnamed d hd

theorem Found.updateProxyEntity (found : Found path x s) {buffer : EntityBuffer}
    {originalPath : ZstURI} {e : EntityId}
    (hfind : s.hierarchy.findEntity originalPath = some e)
    (hpast : UpdatesPast s.hierarchy path buffer e) :
    SamePlace path x (s.hierarchy.updateProxyEntity stageOverrides e buffer) := by
  by_cases hrenames : Renames s.hierarchy e buffer
  · obtain ⟨hnew, hnamed, hpassed, hstays⟩ := hpast hrenames
    have hindexed := found.wired.indexed
    have he := lookup_of_findEntity hindexed hfind
    have hk := (passes_updateProxyEntity hindexed he buffer).mono Composed.under
    refine ⟨nowhere_of_passes hindexed hk he found.nowhere ?_,
      lookup_of_passes hindexed hk he found.found (hstays x found.found) hpassed⟩
    rintro u (rfl | ⟨-, rfl | rfl⟩ | ⟨d, hd, -, rfl⟩)
    · exact hnew
    · exact NamedEntities.add_ne_nil _ _
    · exact NamedEntities.add_ne_nil _ _
    · exact hnamed d hd
  · exact found.of_lookup (RenamedCables.updateProxyEntity_still hrenames).2.1

/-- A message that removes or updates somebody. -/
theorem Found.receive_move (found : Found path x s) {msg : ZstStageMessage}
    (hmove : IsMove msg.content) (hclear : SparesPath path s (.receive msg))
    (hstays : NewcomerStays x s (.receive msg)) (hrun : receive s msg = .ok t) :
    SamePlace path x t.hierarchy := by
  obtain ⟨-, hmoved⟩ := receive_moved hmove hrun
  cases hmoved with
  | nobody sent hk =>
    rw [hk]
    exact ⟨found.nowhere, found.found⟩
  | removed e sent he hk =>
    have hmem : e ∈ leavers s.hierarchy (.receive msg) := he ▸ List.mem_singleton_self e
    unfold SparesPath at hclear
    have hpast : LeavesPast s.hierarchy path e := by
      cases hcontent : msg.content with
      | clientLeaveRequest | entityDestroyRequest =>
        simp only [hcontent] at hclear
        exact hclear e hmem
      | _ => simp [leavers, hcontent] at hmem
    have hplace := found.removeProxyEntity (hstays e hmem) hpast
    rw [hk]
    exact ⟨hplace.nowhere, hplace.found⟩
  | updated buffer originalPath e sent hcontent hfind hk =>
    unfold SparesPath at hclear
    simp only [hcontent] at hclear
    have hplace := found.updateProxyEntity hfind (hclear e hfind)
    rw [hk]
    exact ⟨hplace.nowhere, hplace.found⟩

/-- A message that brings somebody does not bring it to a path that is taken. -/
theorem Found.receive_arrives (found : Found path x s) {msg : ZstStageMessage}
    (harrives : Arrives msg.content) (hrun : receive s msg = .ok t) :
    SamePlace path x t.hierarchy := by
  obtain ⟨-, hk | ⟨y, huri, hnew, -, -, hk⟩⟩ :=
    receive_arrives_ok (keyed_of_nowhere found.wired.indexed found.nowhere) harrives hrun
  · exact found.of_lookup hk.lookup
  · rw [found.wired.indexed.findEntity_eq] at hnew
    have hother : ∀ q, q ≠ y.uri → t.hierarchy.lookup q = s.hierarchy.lookup q := fun q hq => by
      rw [hk.lookup]
      exact Function.update_of_ne hq _ _
    refine ⟨(hother [] huri.symm).trans found.nowhere, (hother path ?_).trans found.found⟩
    rintro rfl
    rw [found.found] at hnew
    cases hnew

theorem Found.receive (found : Found path x s) {msg : ZstStageMessage}
    (hclear : SparesPath path s (.receive msg)) (hstays : NewcomerStays x s (.receive msg))
    (hrun : receive s msg = .ok t) : SamePlace path x t.hierarchy := by
  by_cases hcalm : EntityPreserving msg.content
  · exact found.of_lookup (ZstStage.receive_calm hcalm hrun).lookup
  by_cases hmove : IsMove msg.content
  · exact found.receive_move hmove hclear hstays hrun
  · refine found.receive_arrives ?_ hrun
    unfold SparesPath at hclear
    cases hcontent : msg.content with
    | clientJoinRequest performer address =>
      simp only [hcontent] at hclear
      exact hclear
    | entityCreateRequest => trivial
    | clientLeaveRequest | entityUpdateRequest | entityDestroyRequest =>
      rw [hcontent] at hmove
      exact absurd trivial hmove
    | _ =>
      rw [hcontent] at hcalm
      exact absurd trivial hcalm

theorem Found.cleanup (found : Found path x s) (hclear : SparesPath path s .cleanup) :
    SamePlace path x (reapAll stageOverrides 1 s.hierarchy) := by
  cases hops : s.hierarchy.cleanupOps with
  | nil =>
    simp only [reapAll, hops]
    exact ⟨found.nowhere, found.found⟩
  | cons e rest =>
    have he : e ∈ s.hierarchy.cleanupOps.head? := by
      rw [hops]
      rfl
    obtain ⟨-, hlookup, hnone, -⟩ := cleanup_places { s.hierarchy with cleanupOps := rest } e
    simp only [reapAll, hops]
    exact ⟨hnone [] found.nowhere, (hlookup path (hclear e he).symm).trans found.found⟩

/-- Whoever is found at a path that a step is clear of is found there after it. -/
theorem Found.step (found : Found path x s) {event : StageEvent} (hclear : SparesPath path s event)
    (hstays : NewcomerStays x s event) (hrun : ZstStage.step s event = .ok t) : Found path x t := by
  have hplace : SamePlace path x t.hierarchy := by
    cases event with
    | receive msg => exact found.receive hclear hstays hrun
    | respond message response =>
      simp only [ZstStage.step] at hrun
      split at hrun
      · exact found.of_lookup (onRecvResponse_rests hrun).lookup
      · obtain rfl := Except.ok.inj hrun
        exact ⟨found.nowhere, found.found⟩
    | heartbeatTimer =>
      obtain rfl := Except.ok.inj hrun
      exact found.of_lookup (RenamedCables.stageHeartbeatTimer_still hclear).1.lookup
    | hierarchyEvent =>
      simp only [ZstStage.step] at hrun
      split at hrun
      · obtain rfl := Except.ok.inj hrun
        exact ⟨found.nowhere, found.found⟩
      · exact found.of_lookup (Standing.processHierarchyEvent hrun).lookup
    | synchronisableEvent =>
      obtain rfl := Except.ok.inj hrun
      exact found.of_lookup (Standing.processItems 1 s.hierarchy).lookup
    | cleanup =>
      obtain rfl := Except.ok.inj hrun
      exact found.cleanup hclear
    | forgetDead =>
      obtain rfl := Except.ok.inj hrun
      exact ⟨found.nowhere, found.found⟩
    | cableEvents =>
      obtain rfl := Except.ok.inj hrun
      exact found.of_lookup (congrArg ZstHierarchy.lookup (Standing.cableEvents_hierarchy s))
  exact ⟨found.wired.step hrun, hplace.nowhere, hplace.found⟩

end Steps

/-! ## Runs -/

/-- Somebody joins under the path. -/
def Joins (path : ZstURI) : StageEvent → Prop
  | .receive msg =>
    match msg.content with
    | .clientJoinRequest performer _ => performer.uri = path
    | _ => False
  | _ => False

/-- A client leaves, and the next one that joins under its path does so now. -/
structure Returns (before : List StageEvent) (leave : ZstStageMessage)
    (between : List StageEvent) (join : ZstStageMessage) (performer : EntityBuffer)
    (t : ZstSession) : Prop where
  leaves : ∃ path reason, leave.content = .clientLeaveRequest path reason
  left : ∃ s e, Library.run step opened before = .ok s ∧
    getClientFromEndpointUUID s.hierarchy leave.originEndpointUUID = some e ∧
    (s.hierarchy.entities e).uri = performer.uri ∧
    Library.run step s (.receive leave :: between) = .ok t
  alone : ∀ event ∈ between, ¬ Joins performer.uri event
  joins : ∃ address, join.content = .clientJoinRequest performer address

/-- The join is answered with `Signal_OK`, and the new performer is found at its path. -/
structure AdmitsPerformer (t : ZstSession) (join : ZstStageMessage) (performer : EntityBuffer)
    (u : ZstSession) : Prop where
  answered : ∃ h, ZstStageHierarchy.dispatch t.hierarchy join
      (getClientFromEndpointUUID t.hierarchy join.originEndpointUUID) = .ok (h, .ok) ∧
    u.hierarchy = respond h join .ok
  kind : (u.hierarchy.entities t.hierarchy.next).entityType = .performer
  found : u.hierarchy.lookup performer.uri = some t.hierarchy.next

/-- The join is answered, and its performer is found until it leaves. -/
def ComesBack (t : ZstSession) (join : ZstStageMessage) (performer : EntityBuffer)
    (after : List StageEvent) : Prop :=
  ∃ u, step t (.receive join) = .ok u ∧ AdmitsPerformer t join performer u ∧
    ∀ first last v, after = first ++ last → Library.run step u first = .ok v →
      Library.Along step (NewcomerStays t.hierarchy.next) u first →
        v.hierarchy.lookup performer.uri = some t.hierarchy.next

/-- Nobody is found at the path any more, nor at the empty one, and whoever is found at
that of the parent can have children. -/
structure Vacant (h : ZstHierarchy) (path : ZstURI) : Prop where
  named : path ≠ []
  free : h.lookup path = none
  nowhere : h.lookup [] = none
  component : ∀ p, h.lookup path.parent = some p → (h.entities p).isComponent = true

section Runs

variable {s t u : ZstSession} {join : ZstStageMessage} {performer : EntityBuffer}
  {address : String}

theorem receive_join (hjoin : join.content = .clientJoinRequest performer address) :
    receive t join = (createClientHandler t.hierarchy join performer address).map fun result =>
      { t with hierarchy := respond result.1 join result.2 } := by
  have hsession : ZstStageSession.onReceiveMsg t join = .ok t := by
    unfold ZstStageSession.onReceiveMsg ZstStageSession.dispatch
    rw [hjoin]
    cases getClientFromEndpointUUID t.hierarchy join.originEndpointUUID <;> rfl
  unfold receive
  rw [hsession]
  dsimp only [bind, Except.bind]
  unfold ZstStageHierarchy.onReceiveMsg ZstStageHierarchy.dispatch
  rw [hjoin]
  dsimp only
  cases createClientHandler t.hierarchy join performer address <;> rfl

theorem createClientHandler_vacant {h : ZstHierarchy} (indexed : Indexed h)
    (hvacant : Vacant h performer.uri) (msg : ZstStageMessage) :
    createClientHandler h msg performer address = .ok
      (h.arrive (Entity.performerStageProxy performer address msg.originEndpointUUID), .ok) := by
  have hfree : ¬ (h.findEntity performer.uri).isSome = true := by
    rw [indexed.findEntity_eq, hvacant.free]
    exact Bool.false_ne_true
  have hadd := addProxyEntity_eq stageOverrides
    ((keyed_of_nowhere indexed hvacant.nowhere).above performer.uri)
    (unplaced_performerStageProxy performer address msg.originEndpointUUID) fun p hp =>
      hvacant.component p (indexed.findEntity_eq _ ▸ hp)
  unfold createClientHandler
  rw [if_neg hfree, hadd]
  rfl

/-- Who joins where nobody is found is let in. -/
theorem admits_of_vacant (wired : Wired t)
    (hjoin : join.content = .clientJoinRequest performer address)
    (hvacant : Vacant t.hierarchy performer.uri) :
    ∃ u, receive t join = .ok u ∧ AdmitsPerformer t join performer u ∧
      Found performer.uri t.hierarchy.next u := by
  have hhandler : createClientHandler t.hierarchy join performer address = _ :=
    createClientHandler_vacant wired.indexed hvacant join
  have hrun := receive_join (t := t) hjoin
  rw [hhandler] at hrun
  have hlookup : ∀ q, (respond (t.hierarchy.arrive (Entity.performerStageProxy performer address
      join.originEndpointUUID)) join .ok).lookup q =
        Function.update t.hierarchy.lookup performer.uri (some t.hierarchy.next) q := fun q => by
    rw [respond_eq]
    rfl
  have hfound := (hlookup performer.uri).trans (Function.update_self _ _ _)
  have hstep : step t (.receive join) = .ok _ := hrun
  refine ⟨_, hrun, ⟨⟨_, ?_, rfl⟩, ?_, hfound⟩, wired.step hstep, ?_, hfound⟩
  · unfold ZstStageHierarchy.dispatch
    rw [hjoin]
    exact hhandler
  · dsimp only
    rw [respond_eq]
    exact arrive_kind_next _ _
  · refine (hlookup []).trans ?_
    rw [Function.update_of_ne hvacant.named.symm]
    exact hvacant.nowhere

/-- Nobody is let in where somebody is found. -/
theorem AdmitsPerformer.free (hadmits : AdmitsPerformer t join performer u)
    (hjoin : join.content = .clientJoinRequest performer address) :
    t.hierarchy.findEntity performer.uri = none := by
  obtain ⟨h, hdispatch, -⟩ := hadmits.answered
  unfold ZstStageHierarchy.dispatch at hdispatch
  rw [hjoin] at hdispatch
  dsimp only at hdispatch
  by_contra hsome
  unfold createClientHandler at hdispatch
  rw [if_pos (Option.isSome_iff_ne_none.mpr hsome)] at hdispatch
  cases (Prod.mk.inj (Except.ok.inj hdispatch)).2

/-- Whoever is found stays in a run that is clear of its path, until it leaves. -/
theorem Found.run {path : ZstURI} {x : EntityId} (found : Found path x s)
    {events : List StageEvent} (hclear : Library.Along ZstStage.step (SparesPath path) s events)
    (hstays : Library.Along ZstStage.step (NewcomerStays x) s events)
    (hrun : Library.run ZstStage.step s events = .ok t) : Found path x t := by
  induction events generalizing s with
  | nil =>
    obtain rfl := Except.ok.inj hrun
    exact found
  | cons event events ih =>
    obtain ⟨u, hstep, hrest⟩ := Library.run_cons_ok.mp hrun
    exact ih (found.step hclear.1 hstays.1 hstep) (hclear.2 u hstep) (hstays.2 u hstep) hrest

/-- Who comes back when nobody is found at its path any more is let in and stays,
as long as nothing passes the path. -/
theorem comesBack_of_clear {before between after : List StageEvent} {leave : ZstStageMessage}
    (hreturns : Returns before leave between join performer t)
    (hvacant : Vacant t.hierarchy performer.uri)
    (hclear : ∀ u, step t (.receive join) = .ok u →
      Library.Along step (SparesPath performer.uri) u after) :
    ComesBack t join performer after := by
  obtain ⟨s, e, hbefore, -, -, hbetween⟩ := hreturns.left
  obtain ⟨address, hjoin⟩ := hreturns.joins
  have wired : Wired t := (Wired.opened.run hbefore).run hbetween
  obtain ⟨u, hrun, hadmits, hfound⟩ := admits_of_vacant wired hjoin hvacant
  refine ⟨u, hrun, hadmits, fun first last v hsplit hfirst hstays => ?_⟩
  have hlong := hclear u hrun
  rw [hsplit] at hlong
  exact (hfound.run (Library.along_append.mp hlong).1 hstays hfirst).found

/-! `ada` leaves, and another client joins under its name. -/

def adaLeaves : ZstStageMessage where
  content := .clientLeaveRequest ["ada"] .quit
  id := 0
  originEndpointUUID := 1

def ada : EntityBuffer where
  entityType := .performer
  uri := ["ada"]

def adaJoins : ZstStageMessage where
  content := .clientJoinRequest ada ""
  id := 0
  originEndpointUUID := 3

def met : List StageEvent := [joining "ada" 1, joining "bob" 2]

/-- `bob` leaves in its turn. -/
def bobToo : List StageEvent := [leaving "bob" 2, .synchronisableEvent, .cleanup]

theorem comesBack_of_clear_forgotten : ∃ s t,
    Library.run ZstStage.step opened met = .ok s ∧
    Library.run ZstStage.step s (.receive adaLeaves :: drainTurn) = .ok t ∧
    ComesBack t adaJoins ada bobToo := by
  obtain ⟨s, t, u, v, w, hs, ht, hu, hv, hw, hclient, huri, hfree, hnowhere, hbob, hparent, hops,
      hpath⟩ : ∃ s t u v w, Library.run ZstStage.step opened met = .ok s ∧
      Library.run ZstStage.step s (.receive adaLeaves :: drainTurn) = .ok t ∧
      ZstStage.step t (.receive adaJoins) = .ok u ∧
      ZstStage.step u (leaving "bob" 2) = .ok v ∧ ZstStage.step v .synchronisableEvent = .ok w ∧
      getClientFromEndpointUUID s.hierarchy 1 = some 0 ∧
      (s.hierarchy.entities 0).uri = ["ada"] ∧ t.hierarchy.lookup ["ada"] = none ∧
      t.hierarchy.lookup [] = none ∧ leavers u.hierarchy (leaving "bob" 2) = [1] ∧
      u.hierarchy.parent 1 = none ∧ w.hierarchy.cleanupOps = [1] ∧
      (w.hierarchy.entities 1).uri = ["bob"] :=
    ⟨_, _, _, _, _, rfl, rfl, rfl, rfl, rfl, rfl, rfl, rfl, rfl, rfl, rfl, rfl, rfl⟩
  have hvacant : Vacant t.hierarchy ["ada"] := by
    refine ⟨by decide, hfree, hnowhere, fun p hp => ?_⟩
    have hp' : t.hierarchy.lookup [] = some p := hp
    rw [hnowhere] at hp'
    cases hp'
  have hreturns : Returns met adaLeaves drainTurn adaJoins ada t :=
    ⟨⟨_, _, rfl⟩, ⟨s, 0, hs, hclient, huri, ht⟩, by simp [drainTurn, Joins], ⟨"", rfl⟩⟩
  refine ⟨s, t, hs, ht, comesBack_of_clear hreturns hvacant fun u' hu' => ?_⟩
  obtain rfl := Except.ok.inj (hu.symm.trans hu')
  refine (Library.along_cons_of_ok hv).mpr ⟨fun e he => ?_, (Library.along_cons_of_ok hw).mpr
    ⟨trivial, fun e he => ?_, fun _ _ => trivial⟩⟩
  · have he' : e ∈ leavers u.hierarchy (leaving "bob" 2) := he
    rw [hbob] at he'
    obtain rfl := List.mem_singleton.mp he'
    exact .inl hparent
  · rw [hops] at he
    obtain rfl := Option.some.inj he
    rw [hpath]
    decide

/-- Who is back before the event loop and the reaper is refused. -/
theorem early_not_comesBack : ¬ ∀ before leave between join performer t after,
    Returns before leave between join performer t → ComesBack t join performer after := by
  intro hall
  obtain ⟨s, t, hs, ht, hclient, huri, hfound⟩ : ∃ s t,
      Library.run ZstStage.step opened met = .ok s ∧
      Library.run ZstStage.step s [.receive adaLeaves] = .ok t ∧
      getClientFromEndpointUUID s.hierarchy 1 = some 0 ∧
      (s.hierarchy.entities 0).uri = ["ada"] ∧ t.hierarchy.findEntity ["ada"] = some 0 :=
    ⟨_, _, rfl, rfl, rfl, rfl, rfl⟩
  obtain ⟨u, -, hadmits, -⟩ := hall met adaLeaves [] adaJoins ada t []
    ⟨⟨_, _, rfl⟩, ⟨s, 0, hs, hclient, huri, ht⟩, by simp, ⟨"", rfl⟩⟩
  have hfree := hadmits.free rfl
  rw [show ada.uri = ["ada"] from rfl, hfound] at hfree
  cases hfree

end Runs

end Showtime.Returning
