import Showtime.ClientCables
/-!
# The outcome of connecting two plugs

A client creates the cable, links it to its plugs and changes its status before
it asks the stage. Whatever the stage answers, the session that is left once
its events are drained is compared with the one that never connected the plugs.
-/

namespace Showtime.ConnectOutcomes

open ZstClientSession ClientCables

/-! ## Events of a cable -/

/-- The status after an event. -/
def statusAfter : ZstSyncStatus → SynchronisableEvent → ZstSyncStatus
  | _, .activated => .activated
  | _, .deactivated => .deactivated
  | status, .destroyed | status, .updated => status

/-- The cable once its events are processed. -/
def settled (x : ZstCable) : ZstCable :=
  { x with
    syncStatus := x.synchronisableEvents.foldl statusAfter x.syncStatus
    synchronisableEvents := [] }

theorem settled_of_calm {x : ZstCable} (hx : x.synchronisableEvents = []) : settled x = x := by
  cases x
  simp_all [settled]

theorem settled_settled (x : ZstCable) : settled (settled x) = settled x :=
  settled_of_calm rfl

theorem processCableEvent_objects (s : ZstSession) (c : CableId) (event : SynchronisableEvent) :
    (s.processCableEvent c event).cableObjects = Function.update s.cableObjects c
      { s.cableObjects c with syncStatus := statusAfter (s.cableObjects c).syncStatus event } := by
  cases event with
  | activated | deactivated => rfl
  | destroyed | updated => exact (Function.update_eq_self c s.cableObjects).symm

theorem processCableEvents_objects (events : List SynchronisableEvent) (s : ZstSession)
    (c : CableId) :
    (events.foldl (fun s event => s.processCableEvent c event) s).cableObjects =
      Function.update s.cableObjects c
        { s.cableObjects c with
          syncStatus := events.foldl statusAfter (s.cableObjects c).syncStatus } := by
  induction events generalizing s with
  | nil => exact (Function.update_eq_self c s.cableObjects).symm
  | cons event events ih =>
    rw [List.foldl_cons, ih, processCableEvent_objects]
    simp

theorem processCableItem_objects (s : ZstSession) (c : CableId) :
    (s.processCableItem c).cableObjects =
      Function.update s.cableObjects c (settled (s.cableObjects c)) := by
  unfold ZstSession.processCableItem
  rw [processCableEvents_objects]
  simp [ZstSession.modifyCable, settled]

/-! ## The queue -/

/-- The session's queue is drained, and its reaper has run. The hierarchy's
queues hold no cables. -/
def drained (s : ZstSession) : ZstSession :=
  s.processCableItems.reapCables

/-- Every cable of the queue settles, and the others are left alone. -/
theorem processCableItems_eq (queue : List CableId) (s : ZstSession) :
    let t := queue.foldl ZstSession.processCableItem s
    t.hierarchy = s.hierarchy ∧ t.cables = s.cables ∧
      (∀ c, t.cableObjects c =
        if c ∈ queue then settled (s.cableObjects c) else s.cableObjects c) ∧
      ∀ c, CableDying t c ↔ CableDying s c := by
  induction queue generalizing s with
  | nil => simp
  | cons first queue ih =>
    obtain ⟨hhierarchy, -, hcables, -, -, -, hdying⟩ := processCableItem_eq s first
    obtain ⟨hhierarchy', hcables', hobjects', hdying'⟩ := ih (s.processCableItem first)
    refine ⟨hhierarchy'.trans hhierarchy, hcables'.trans hcables, fun c => ?_,
      fun c => (hdying' c).trans (hdying c)⟩
    refine (hobjects' c).trans ?_
    rw [processCableItem_objects]
    by_cases hfirst : c = first
    · subst hfirst
      simp [settled_settled]
    · simp [hfirst]

/-- The events of a cable destroy it, or activate it. -/
def DestroysOrActivates (events : List SynchronisableEvent) : Prop :=
  .destroyed ∈ events ∨ ∀ event ∈ events, event = .activated

/-- What holds of the cables of a session at all times. -/
structure OrderlyCables (s : ZstSession) : Prop where
  known : ∀ c, c ∈ s.cables ∨ c ∈ s.synchronisableEvents ∨ c ∈ s.cleanupOps → c < s.nextCable
  single : ∀ c ∈ s.cables, ∀ d ∈ s.cables,
    (s.cableObjects c).address = (s.cableObjects d).address → c = d
  queued : ∀ c ∈ s.cables, (s.cableObjects c).synchronisableEvents ≠ [] →
    c ∈ s.synchronisableEvents
  uniform : ∀ c ∈ s.cables, DestroysOrActivates (s.cableObjects c).synchronisableEvents

/-- Events that activate a cable leave it activated. -/
theorem statusAfter_activated {events : List SynchronisableEvent} (status : ZstSyncStatus)
    (hevents : ∀ event ∈ events, event = .activated) (hsome : events ≠ []) :
    events.foldl statusAfter status = .activated := by
  induction events generalizing status with
  | nil => exact absurd rfl hsome
  | cons event events ih =>
    obtain rfl : event = .activated := hevents event List.mem_cons_self
    cases events with
    | nil => rfl
    | cons next events =>
      exact ih _ (fun e he => hevents e (List.mem_cons_of_mem _ he)) (List.cons_ne_nil _ _)

namespace OrderlyCables

variable {s t : ZstSession}

/-- What is left of a session once it is drained. -/
theorem drained_eq (orderly : OrderlyCables s) :
    (drained s).hierarchy = s.hierarchy ∧
      (∀ c, c ∈ (drained s).cables ↔ c ∈ s.cables ∧ ¬ CableDying s c) ∧
      ∀ c ∈ s.cables, (drained s).cableObjects c = settled (s.cableObjects c) := by
  obtain ⟨hhierarchy, hcables, hobjects, hdying⟩ :=
    processCableItems_eq s.synchronisableEvents { s with synchronisableEvents := [] }
  have hsettled : ∀ c ∈ s.cables, (drained s).cableObjects c = settled (s.cableObjects c) := by
    intro c hc
    refine (hobjects c).trans ?_
    split
    · rfl
    · rename_i hnot
      refine (settled_of_calm ?_).symm
      by_contra hevents
      exact hnot (orderly.queued c hc hevents)
  refine ⟨hhierarchy, fun c => ?_, hsettled⟩
  have hmem : c ∈ (drained s).cables ↔ c ∈ s.cables ∧ c ∉ s.processCableItems.cleanupOps := by
    unfold drained ZstSession.reapCables
    rw [List.mem_filter, decide_eq_true_eq]
    exact and_congr_left fun _ => by rw [show s.processCableItems.cables = s.cables from hcables]
  rw [hmem]
  refine and_congr_right fun hc => not_congr ?_
  -- without events only the reaper keeps a cable from staying
  have hcalm : (s.processCableItems.cableObjects c).synchronisableEvents = [] :=
    congrArg ZstCable.synchronisableEvents (hsettled c hc)
  have hdying : CableDying s.processCableItems c ↔ CableDying s c := hdying c
  rw [← hdying]
  unfold CableDying
  rw [hcalm]
  simp

/-- Some cables of the session get events. -/
theorem touches (orderly : OrderlyCables s) (hst : Touches s t)
    (huniform : ∀ c ∈ s.cables, DestroysOrActivates (t.cableObjects c).synchronisableEvents) :
    OrderlyCables t := by
  refine ⟨fun c hc => ?_, fun c hc d hd hcd => ?_, fun c hc hevents => ?_, fun c hc => ?_⟩
  · rw [hst.next]
    refine orderly.known c ?_
    rw [hst.cables, hst.cleanupOps] at hc
    rcases hc with hc | hc | hc
    · exact Or.inl hc
    · exact (hst.pending c hc).elim (fun hc => Or.inr (Or.inl hc)) Or.inl
    · exact Or.inr (Or.inr hc)
  · rw [hst.cables] at hc hd
    rw [hst.address, hst.address] at hcd
    exact orderly.single c hc d hd hcd
  · rw [hst.cables] at hc
    rcases hst.events c with hsame | hmem
    · exact hst.queue (orderly.queued c hc (hsame ▸ hevents))
    · exact hmem
  · rw [hst.cables] at hc
    exact huniform c hc

/-- The hierarchy plays no part in it. -/
theorem hierarchy (orderly : OrderlyCables s) (h : ZstHierarchy) : OrderlyCables
    { s with hierarchy := h } :=
  ⟨orderly.known, orderly.single, orderly.queued, orderly.uniform⟩

theorem enqueueCableActivation (orderly : OrderlyCables s) {c : CableId} (hc : c ∈ s.cables) :
    OrderlyCables (s.enqueueCableActivation c) := by
  refine orderly.touches (enqueueCableActivation_touches hc) fun d hd => ?_
  unfold ZstSession.enqueueCableActivation
  split
  · by_cases hdc : d = c
    · subst hdc
      simp only [ZstSession.modifyCable, Function.update_self]
      rcases orderly.uniform d hd with hdestroyed | hactivated
      · exact Or.inl (List.mem_append_left _ hdestroyed)
      · refine Or.inr fun event hevent => ?_
        rcases List.mem_append.mp hevent with hevent | hevent
        · exact hactivated event hevent
        · exact List.mem_singleton.mp hevent
    · simp only [ZstSession.modifyCable, Function.update_of_ne hdc]
      exact orderly.uniform d hd
  · exact orderly.uniform d hd

theorem enqueueCableDeactivation (orderly : OrderlyCables s) {c : CableId} (hc : c ∈ s.cables) :
    OrderlyCables (s.enqueueCableDeactivation c) := by
  refine orderly.touches (enqueueCableDeactivation_touches hc) fun d hd => ?_
  unfold ZstSession.enqueueCableDeactivation
  split
  · by_cases hdc : d = c
    · subst hdc
      exact Or.inl (by simp [ZstSession.modifyCable])
    · simp only [ZstSession.modifyCable, Function.update_of_ne hdc]
      exact orderly.uniform d hd
  · exact orderly.uniform d hd

theorem status (orderly : OrderlyCables s) (c : CableId) (status : ZstSyncStatus) :
    OrderlyCables (s.modifyCable c fun x => { x with syncStatus := status }) := by
  refine orderly.touches (touches_status s c status) fun d hd => ?_
  by_cases hdc : d = c
  · subst hdc
    simpa [ZstSession.modifyCable] using orderly.uniform d hd
  · simpa [ZstSession.modifyCable, hdc] using orderly.uniform d hd

theorem destroyCableComplete (orderly : OrderlyCables s) {c : CableId} (hc : c ∈ s.cables) :
    OrderlyCables (s.destroyCableComplete c) := by
  rw [ZstSession.destroyCableComplete_eq, ZstSession.unplug_session]
  exact (orderly.hierarchy _).enqueueCableDeactivation hc

theorem processCableItem (orderly : OrderlyCables s) {c : CableId} {rest : List CableId}
    (hqueue : s.synchronisableEvents = c :: rest) :
    OrderlyCables ({ s with synchronisableEvents := rest }.processCableItem c) := by
  obtain ⟨-, hnext, hcables, hevents, hobjects, hcleanup, -⟩ :=
    processCableItem_eq { s with synchronisableEvents := rest } c
  refine ⟨fun d hd => ?_, fun d hd e he hde => ?_, fun d hd hne => ?_, fun d hd => ?_⟩
  · rw [hnext]
    refine orderly.known d ?_
    rw [hcables, hevents] at hd
    rw [hqueue]
    rcases hd with hd | hd | hd
    · exact Or.inl hd
    · exact Or.inr (Or.inl (List.mem_cons_of_mem _ hd))
    · rcases hcleanup d hd with hd | rfl
      · exact Or.inr (Or.inr hd)
      · exact Or.inr (Or.inl List.mem_cons_self)
  · rw [hcables] at hd he
    rw [(hobjects d).1, (hobjects e).1] at hde
    exact orderly.single d hd e he hde
  · rw [hcables] at hd
    rw [(hobjects d).2] at hne
    rw [hevents]
    split at hne
    · exact absurd rfl hne
    · rename_i hdc
      have hmem := orderly.queued d hd hne
      rw [hqueue] at hmem
      exact (List.mem_cons.mp hmem).resolve_left hdc
  · rw [hcables] at hd
    rw [(hobjects d).2]
    split
    · exact Or.inr fun _ hevent => by cases hevent
    · exact orderly.uniform d hd

theorem reapCables (orderly : OrderlyCables s) : OrderlyCables s.reapCables := by
  have hmem : ∀ {c}, c ∈ s.reapCables.cables → c ∈ s.cables := List.mem_of_mem_filter
  refine ⟨fun c hc => orderly.known c ?_, fun c hc d hd => orderly.single c (hmem hc) d (hmem hd),
    fun c hc => orderly.queued c (hmem hc), fun c hc => orderly.uniform c (hmem hc)⟩
  rcases hc with hc | hc | hc
  · exact Or.inl (hmem hc)
  · exact Or.inr (Or.inl hc)
  · cases hc

end OrderlyCables

/-- An existing cable is returned, and activated if it waits for that. -/
theorem createCable_some {s : ZstSession} {input output : EntityId} {a : ZstCableAddress}
    (ha : a = ⟨(s.hierarchy.entities input).uri, (s.hierarchy.entities output).uri⟩)
    {c : CableId} (hfind : s.findCable a = some c) :
    s.createCable input output =
      (if (s.cableObjects c).syncStatus = .activated then s else s.enqueueCableActivation c, c) := by
  subst ha
  unfold ZstSession.createCable
  simp only [hfind]

/-- A session with a new cable at the end of its list. -/
def added (s : ZstSession) (cable : ZstCable) : ZstSession :=
  { s with
    cableObjects := Function.update s.cableObjects s.nextCable cable
    nextCable := s.nextCable + 1
    cables := s.cables ++ [s.nextCable] }

/-- A new cable is activated, and put into the sets of both plugs. -/
theorem createCable_none {s : ZstSession} {input output : EntityId} {a : ZstCableAddress}
    (ha : a = ⟨(s.hierarchy.entities input).uri, (s.hierarchy.entities output).uri⟩)
    (hfind : s.findCable a = none) :
    s.createCable input output =
      (((added s { address := a, input, output, syncStatus := .activated }).plugAddCable
        input a).plugAddCable output a, s.nextCable) := by
  subst ha
  unfold ZstSession.createCable
  simp only [hfind]
  rfl

theorem plugAddCable_session (s : ZstSession) (e : EntityId) (a : ZstCableAddress) :
    s.plugAddCable e a = { s with hierarchy := (s.plugAddCable e a).hierarchy } :=
  rfl

theorem holds_createCable_none (s : ZstSession) (input output : EntityId) (a : ZstCableAddress) :
    PlugsHold a input output ((s.plugAddCable input a).plugAddCable output a) := by
  have hadds : ∀ (t : ZstSession) (e : EntityId),
      a ∈ ((t.plugAddCable e a).hierarchy.entities e).cables := by
    intro t e
    rw [ZstSession.plugAddCable_cables, if_pos rfl]
    split
    · assumption
    · simp
  refine ⟨?_, hadds _ output⟩
  by_cases hsame : input = output
  · subst hsame
    exact hadds _ input
  · rw [ZstSession.plugAddCable_cables, if_neg hsame]
    exact hadds s input

namespace OrderlyCables

variable {s t : ZstSession}

theorem added (orderly : OrderlyCables s) {cable : ZstCable}
    (hfind : s.findCable cable.address = none)
    (hcalm : cable.synchronisableEvents = []) : OrderlyCables (ConnectOutcomes.added s cable) := by
  have hold : ∀ c ∈ s.cables, c ≠ s.nextCable := fun c hc =>
    Nat.ne_of_lt (orderly.known c (Or.inl hc))
  have hobject : ∀ c ∈ s.cables,
      (ConnectOutcomes.added s cable).cableObjects c = s.cableObjects c := fun c hc =>
    Function.update_of_ne (hold c hc) _ _
  have hnew : (ConnectOutcomes.added s cable).cableObjects s.nextCable = cable :=
    Function.update_self _ _ _
  have hothers : ∀ c ∈ s.cables, (s.cableObjects c).address ≠ cable.address := fun c hc => by
    simpa using (List.find?_eq_none.mp hfind) c hc
  have hmem : ∀ {c}, c ∈ (ConnectOutcomes.added s cable).cables →
      c ∈ s.cables ∨ c = s.nextCable := fun hc =>
    (List.mem_append.mp hc).imp id List.mem_singleton.mp
  refine ⟨fun c hc => ?_, fun c hc d hd hcd => ?_, fun c hc hevents => ?_, fun c hc => ?_⟩
  · have hlt : c < s.nextCable ∨ c = s.nextCable := by
      rcases hc with hc | hc | hc
      · exact (hmem hc).imp (fun hc => orderly.known c (Or.inl hc)) id
      · exact Or.inl (orderly.known c (Or.inr (Or.inl hc)))
      · exact Or.inl (orderly.known c (Or.inr (Or.inr hc)))
    rcases hlt with hlt | rfl
    · exact Nat.lt_succ_of_lt hlt
    · exact Nat.lt_succ_self s.nextCable
  · rcases hmem hc with hc | rfl
    · rcases hmem hd with hd | rfl
      · rw [hobject c hc, hobject d hd] at hcd
        exact orderly.single c hc d hd hcd
      · rw [hobject c hc, hnew] at hcd
        exact absurd hcd (hothers c hc)
    · rcases hmem hd with hd | rfl
      · rw [hobject d hd, hnew] at hcd
        exact absurd hcd.symm (hothers d hd)
      · rfl
  · rcases hmem hc with hc | rfl
    · rw [hobject c hc] at hevents
      exact orderly.queued c hc hevents
    · rw [hnew] at hevents
      exact absurd hcalm hevents
  · rcases hmem hc with hc | rfl
    · rw [hobject c hc]
      exact orderly.uniform c hc
    · rw [hnew, hcalm]
      exact Or.inr fun _ hevent => by cases hevent

theorem createCable (orderly : OrderlyCables s) (input output : EntityId) :
    OrderlyCables (s.createCable input output).1 := by
  cases hfind : s.findCable
      ⟨(s.hierarchy.entities input).uri, (s.hierarchy.entities output).uri⟩ with
  | none =>
    rw [createCable_none rfl hfind, plugAddCable_session, plugAddCable_session]
    exact (orderly.added hfind rfl).hierarchy _
  | some c =>
    rw [createCable_some rfl hfind]
    simp only
    split
    · exact orderly
    · exact orderly.enqueueCableActivation (List.mem_of_find?_eq_some hfind)

theorem step {a : ZstCableAddress} {event : ClientEvent} (orderly : OrderlyCables s)
    (hrun : ClientCables.step a s event = .ok t) : OrderlyCables t := by
  cases event with
  | create =>
    obtain rfl := Except.ok.inj hrun
    unfold cableCreateHandler
    split
    · exact orderly.createCable _ _
    · exact orderly
  | destroy =>
    obtain rfl := Except.ok.inj hrun
    unfold cableDestroyHandler
    split
    · rename_i c hfind
      exact orderly.destroyCableComplete (List.mem_of_find?_eq_some hfind)
    · exact orderly
  | connect =>
    simp only [ClientCables.step] at hrun
    split at hrun
    · obtain rfl := Except.ok.inj hrun
      unfold connectCable
      simp only
      split
      · exact (orderly.createCable _ _).status _ _
      · exact orderly
    · obtain rfl := Except.ok.inj hrun
      exact orderly
  | connected cable =>
    simp only [ClientCables.step] at hrun
    split at hrun
    · rename_i hc
      obtain rfl := Except.ok.inj hrun
      exact orderly.enqueueCableActivation hc
    · cases hrun
  | disconnected cable =>
    simp only [ClientCables.step] at hrun
    split at hrun
    · rename_i hc
      obtain rfl := Except.ok.inj hrun
      exact orderly.destroyCableComplete hc
    · cases hrun
  | hierarchy h =>
    obtain rfl := Except.ok.inj hrun
    exact orderly.hierarchy h
  | cableItem =>
    simp only [ClientCables.step] at hrun
    split at hrun
    · obtain rfl := Except.ok.inj hrun
      exact orderly
    · rename_i c rest hqueue
      obtain rfl := Except.ok.inj hrun
      exact orderly.processCableItem hqueue
  | reap =>
    obtain rfl := Except.ok.inj hrun
    exact orderly.reapCables

end OrderlyCables

/-! ## The response -/

/-- What `connect_cable` does with the response to its request. -/
def onRecvResponse (s : ZstSession) (cable : CableId) (response : Option Content) : ZstSession :=
  if verifySignal response .ok then connectCableComplete s cable else s

/-- The plugs are connected, the response comes, and the events are drained. -/
def afterConnect (s : ZstSession) (input output : EntityId) (response : Option Content) :
    ZstSession :=
  match connectCable s input output with
  | (t, some cable) => drained (onRecvResponse t cable response)
  | (t, none) => drained t

/-- The address that a cable between the plugs has. -/
def addressOf (s : ZstSession) (input output : EntityId) : ZstCableAddress :=
  ⟨(s.hierarchy.entities input).uri, (s.hierarchy.entities output).uri⟩

/-- `connect_cable` accepts the plugs. -/
structure Pluggable (s : ZstSession) (input output : EntityId) : Prop where
  inputActivated : (s.hierarchy.entities input).isActivated = true
  outputActivated : (s.hierarchy.entities output).isActivated = true
  inJack : (s.hierarchy.entities input).direction = .inJack
  outJack : (s.hierarchy.entities output).direction = .outJack

/-- The session has an activated cable of the address that is linked to both plugs. -/
def CableLinked (a : ZstCableAddress) (input output : EntityId) (s : ZstSession) : Prop :=
  PlugsHold a input output s ∧ ∃ c ∈ s.cables, (s.cableObjects c).address = a ∧
    (s.cableObjects c).input = input ∧ (s.cableObjects c).output = output ∧
    (s.cableObjects c).syncStatus = .activated

/-- The sessions have the same cables with the same status, and so do the plugs. -/
structure Same (input output : EntityId) (s t : ZstSession) : Prop where
  cables : ∀ c, c ∈ t.cables ↔ c ∈ s.cables
  status : ∀ c ∈ s.cables, (t.cableObjects c).syncStatus = (s.cableObjects c).syncStatus
  input : (t.hierarchy.entities input).cables = (s.hierarchy.entities input).cables
  output : (t.hierarchy.entities output).cables = (s.hierarchy.entities output).cables

/-- If the stage agrees the cable is there, linked and activated, and otherwise
nothing has changed. -/
def ConnectOutcome (s : ZstSession) (input output : EntityId) (response : Option Content) : Prop :=
  if verifySignal response .ok then
    CableLinked (addressOf s input output) input output (afterConnect s input output response)
  else Same input output (drained s) (afterConnect s input output response)

/-- A cable that is there already stays, and is linked to these plugs. -/
def ReadyToConnect (s : ZstSession) (input output : EntityId) : Prop :=
  ∀ c ∈ s.findCable (addressOf s input output), ¬ CableDying s c ∧
    (s.cableObjects c).input = input ∧ (s.cableObjects c).output = output ∧
    PlugsHold (addressOf s input output) input output s

/-- The cable is there already, and its events, or the reaper, are still to come. -/
def Awaited (s : ZstSession) (input output : EntityId) : Prop :=
  ∃ c ∈ s.findCable (addressOf s input output),
    (s.cableObjects c).synchronisableEvents ≠ [] ∨ c ∈ s.cleanupOps

section Responses

variable {s t : ZstSession} {input output : EntityId} {c : CableId}

theorem Pluggable.connectCable_eq (pluggable : Pluggable s input output) :
    connectCable s input output =
      ((s.createCable input output).1.modifyCable (s.createCable input output).2 fun x =>
        { x with syncStatus := .activating }, some (s.createCable input output).2) := by
  unfold connectCable
  simp [pluggable.inputActivated, pluggable.outputActivated, pluggable.inJack, pluggable.outJack]

theorem afterConnect_eq (hconnect : connectCable s input output = (t, some c))
    (response : Option Content) :
    afterConnect s input output response = drained (onRecvResponse t c response) := by
  unfold afterConnect
  rw [hconnect]

/-- Only the status and the events of one cable have changed, and not whether it goes away. -/
structure Activating (s t : ZstSession) (c : CableId) : Prop where
  hierarchy : t.hierarchy = s.hierarchy
  cables : t.cables = s.cables
  dying : ∀ d, CableDying t d ↔ CableDying s d
  others : ∀ d, d ≠ c → t.cableObjects d = s.cableObjects d
  address : (t.cableObjects c).address = (s.cableObjects c).address
  input : (t.cableObjects c).input = (s.cableObjects c).input
  output : (t.cableObjects c).output = (s.cableObjects c).output

theorem activating_status (s : ZstSession) (c : CableId) (status : ZstSyncStatus) :
    Activating s (s.modifyCable c fun x => { x with syncStatus := status }) c := by
  refine ⟨rfl, rfl, fun d => ?_, fun d hd => Function.update_of_ne hd _ _, ?_, ?_, ?_⟩
  · unfold CableDying
    by_cases hdc : d = c
    · subst hdc
      simp [ZstSession.modifyCable]
    · simp [ZstSession.modifyCable, hdc]
  · simp [ZstSession.modifyCable]
  · simp [ZstSession.modifyCable]
  · simp [ZstSession.modifyCable]

theorem activating_enqueue (s : ZstSession) (c : CableId) :
    Activating s (s.enqueueCableActivation c) c := by
  have hobject : (s.enqueueCableActivation c).cables = s.cables ∧
      (∀ d, d ≠ c → (s.enqueueCableActivation c).cableObjects d = s.cableObjects d) ∧
      ((s.enqueueCableActivation c).cableObjects c).address = (s.cableObjects c).address ∧
      ((s.enqueueCableActivation c).cableObjects c).input = (s.cableObjects c).input ∧
      ((s.enqueueCableActivation c).cableObjects c).output = (s.cableObjects c).output := by
    unfold ZstSession.enqueueCableActivation
    split
    · exact ⟨rfl, fun d hd => Function.update_of_ne hd _ _, by simp [ZstSession.modifyCable]⟩
    · exact ⟨rfl, fun _ _ => rfl, rfl, rfl, rfl⟩
  obtain ⟨hcables, hothers, haddress, hinput, houtput⟩ := hobject
  exact ⟨s.enqueueCableActivation_hierarchy c, hcables, enqueueCableActivation_dying s c, hothers,
    haddress, hinput, houtput⟩

theorem Activating.trans {u : ZstSession} (hst : Activating s t c) (htu : Activating t u c) :
    Activating s u c :=
  ⟨htu.hierarchy.trans hst.hierarchy, htu.cables.trans hst.cables,
    fun d => (htu.dying d).trans (hst.dying d),
    fun d hd => (htu.others d hd).trans (hst.others d hd), htu.address.trans hst.address,
    htu.input.trans hst.input, htu.output.trans hst.output⟩

/-- The cable is there already: it is to be activated again. -/
theorem Pluggable.connectCable_some (pluggable : Pluggable s input output)
    (hfind : s.findCable (addressOf s input output) = some c) :
    ∃ t, connectCable s input output = (t, some c) ∧ Activating s t c ∧
      (t.cableObjects c).syncStatus = .activating ∧
      (t.cableObjects c).synchronisableEvents = (s.cableObjects c).synchronisableEvents ++
        if (s.cableObjects c).syncStatus = .activating then [.activated] else [] := by
  rw [pluggable.connectCable_eq, createCable_some rfl hfind]
  refine ⟨_, rfl, ?_, ?_, ?_⟩
  · simp only
    split
    · exact activating_status s c _
    · exact (activating_enqueue s c).trans (activating_status _ c _)
  · simp [ZstSession.modifyCable]
  · simp only [ZstSession.modifyCable, Function.update_self]
    by_cases hactivating : (s.cableObjects c).syncStatus = .activating
    · simp [ZstSession.enqueueCableActivation, ZstSession.modifyCable, hactivating]
    · simp [ZstSession.enqueueCableActivation, hactivating]

/-- There is no cable: a new one is linked to the plugs. -/
theorem Pluggable.connectCable_none (pluggable : Pluggable s input output)
    (hfind : s.findCable (addressOf s input output) = none) :
    ∃ t, connectCable s input output = (t, some s.nextCable) ∧
      PlugsHold (addressOf s input output) input output t ∧
      t.cables = s.cables ++ [s.nextCable] ∧ t.cleanupOps = s.cleanupOps ∧
      t.cableObjects s.nextCable =
        { address := addressOf s input output, input, output, syncStatus := .activating } := by
  rw [pluggable.connectCable_eq, createCable_none rfl hfind]
  refine ⟨_, rfl, ?_, rfl, rfl, ?_⟩
  · exact holds_createCable_none _ input output _
  · simp [ZstSession.modifyCable, ZstSession.plugAddCable, added, addressOf]

theorem OrderlyCables.connectCable (orderly : OrderlyCables s)
    (pluggable : Pluggable s input output) :
    OrderlyCables (connectCable s input output).1 := by
  rw [pluggable.connectCable_eq]
  exact (orderly.createCable input output).status _ _

/-- When the stage agrees, the cable gets activated unless it goes away. -/
theorem OrderlyCables.drained_complete (orderly : OrderlyCables t) (hc : c ∈ t.cables)
    (hstatus : (t.cableObjects c).syncStatus = .activating) :
    (∀ d, d ∈ (drained (connectCableComplete t c)).cables ↔ d ∈ t.cables ∧ ¬ CableDying t d) ∧
      (∀ d ∈ t.cables,
        ((drained (connectCableComplete t c)).cableObjects d).address = (t.cableObjects d).address ∧
        ((drained (connectCableComplete t c)).cableObjects d).input = (t.cableObjects d).input ∧
        ((drained (connectCableComplete t c)).cableObjects d).output =
          (t.cableObjects d).output) ∧
      (¬ CableDying t c →
        ((drained (connectCableComplete t c)).cableObjects c).syncStatus = .activated) ∧
      (drained (connectCableComplete t c)).hierarchy = t.hierarchy := by
  have hu := orderly.enqueueCableActivation hc
  have hactivating := activating_enqueue t c
  obtain ⟨hhierarchy, hmem, hobjects⟩ := hu.drained_eq
  have hmem' : ∀ {d}, d ∈ t.cables → d ∈ (t.enqueueCableActivation c).cables := fun hd =>
    hactivating.cables ▸ hd
  refine ⟨fun d => ?_, fun d hd => ?_, fun hstays => ?_, hhierarchy.trans hactivating.hierarchy⟩
  · unfold connectCableComplete
    rw [hmem, hactivating.cables, hactivating.dying]
  · unfold connectCableComplete
    rw [hobjects d (hmem' hd)]
    by_cases hdc : d = c
    · subst hdc
      exact ⟨hactivating.address, hactivating.input, hactivating.output⟩
    · rw [hactivating.others d hdc]
      exact ⟨rfl, rfl, rfl⟩
  · unfold connectCableComplete
    rw [hobjects c (hmem' hc)]
    have hcalm : ¬ CableDying (t.enqueueCableActivation c) c := fun hdies =>
      hstays ((hactivating.dying c).mp hdies)
    refine statusAfter_activated _ ?_ ?_
    · exact (hu.uniform c (hmem' hc)).resolve_left fun hdestroyed => hcalm (Or.inl hdestroyed)
    · simp [ZstSession.enqueueCableActivation, hstatus, ZstSession.modifyCable]

/-- The stage agrees. -/
theorem linked_iff_ready (orderly : OrderlyCables s) (pluggable : Pluggable s input output)
    {response : Option Content} (hok : verifySignal response .ok = true) :
    CableLinked (addressOf s input output) input output (afterConnect s input output response) ↔
      ReadyToConnect s input output := by
  have ht := orderly.connectCable pluggable
  cases hfind : s.findCable (addressOf s input output) with
  | none =>
    obtain ⟨t, hconnect, hholds, hcables, hcleanup, hobject⟩ := pluggable.connectCable_none hfind
    rw [hconnect] at ht
    have hnew : s.nextCable ∈ t.cables := by
      rw [hcables]
      exact List.mem_append_right _ List.mem_cons_self
    have hstays : ¬ CableDying t s.nextCable := by
      rintro (hdestroyed | hcleaned)
      · rw [hobject] at hdestroyed
        cases hdestroyed
      · rw [hcleanup] at hcleaned
        exact Nat.lt_irrefl _ (orderly.known _ (Or.inr (Or.inr hcleaned)))
    obtain ⟨hmem, hobjects, hstatus, hhierarchy⟩ :=
      OrderlyCables.drained_complete ht hnew (congrArg ZstCable.syncStatus hobject)
    obtain ⟨haddress, hinput, houtput⟩ := hobjects _ hnew
    rw [hobject] at haddress hinput houtput
    refine iff_of_true ?_ fun c hc => ?_
    · rw [afterConnect_eq hconnect, onRecvResponse, if_pos hok]
      refine ⟨?_, s.nextCable, (hmem _).mpr ⟨hnew, hstays⟩, haddress, hinput, houtput,
        hstatus hstays⟩
      unfold PlugsHold
      rw [hhierarchy]
      exact hholds
    · rw [hfind] at hc
      cases hc
  | some c =>
    obtain ⟨t, hconnect, hactivating, hstatus, -⟩ := pluggable.connectCable_some hfind
    rw [hconnect] at ht
    have hc : c ∈ s.cables := List.mem_of_find?_eq_some hfind
    have hca : (s.cableObjects c).address = addressOf s input output := by
      simpa using List.find?_some hfind
    have hct : c ∈ t.cables := hactivating.cables ▸ hc
    obtain ⟨hmem, hobjects, hstatus, hhierarchy⟩ := OrderlyCables.drained_complete ht hct hstatus
    obtain ⟨haddress, hinput, houtput⟩ := hobjects c hct
    have hready : ReadyToConnect s input output ↔ ¬ CableDying s c ∧
        (s.cableObjects c).input = input ∧ (s.cableObjects c).output = output ∧
        PlugsHold (addressOf s input output) input output s := by
      simp [ReadyToConnect, hfind]
    have hresult : afterConnect s input output response = drained (connectCableComplete t c) := by
      rw [afterConnect_eq hconnect, onRecvResponse, if_pos hok]
    have hholds : PlugsHold (addressOf s input output) input output
        (drained (connectCableComplete t c)) ↔
        PlugsHold (addressOf s input output) input output s := by
      unfold PlugsHold
      rw [hhierarchy, hactivating.hierarchy]
    rw [hresult, hready]
    unfold CableLinked
    rw [hholds]
    constructor
    · rintro ⟨hthere, d, hd, hda, hdi, hdo, -⟩
      obtain ⟨hdt, hstays⟩ := (hmem d).mp hd
      -- no other cable has the address
      obtain rfl : d = c := by
        refine ht.single d hdt c hct ?_
        rw [← (hobjects d hdt).1, hda, hactivating.address, hca]
      refine ⟨fun hdies => hstays ((hactivating.dying d).mpr hdies), ?_, ?_, hthere⟩
      · rw [← hactivating.input, ← hinput, hdi]
      · rw [← hactivating.output, ← houtput, hdo]
    · rintro ⟨hlives, hi, ho, hthere⟩
      have hstays : ¬ CableDying t c := fun hdies => hlives ((hactivating.dying c).mp hdies)
      refine ⟨hthere, c, (hmem c).mpr ⟨hct, hstays⟩, ?_, ?_, ?_, hstatus hstays⟩
      · rw [haddress, hactivating.address, hca]
      · rw [hinput, hactivating.input, hi]
      · rw [houtput, hactivating.output, ho]

/-- The stage refuses, or does not answer. -/
theorem same_iff_awaited (orderly : OrderlyCables s) (pluggable : Pluggable s input output)
    {response : Option Content} (hno : ¬ verifySignal response .ok = true) :
    Same input output (drained s) (afterConnect s input output response) ↔
      Awaited s input output := by
  have ht := orderly.connectCable pluggable
  obtain ⟨hhierarchy, hmem, hobjects⟩ := orderly.drained_eq
  cases hfind : s.findCable (addressOf s input output) with
  | none =>
    obtain ⟨t, hconnect, -, hcables, hcleanup, hobject⟩ := pluggable.connectCable_none hfind
    rw [hconnect] at ht
    have hresult : afterConnect s input output response = drained t := by
      rw [afterConnect_eq hconnect, onRecvResponse, if_neg hno]
    refine iff_of_false (fun hsame => ?_) fun hawaited => ?_
    · -- the new cable is still there
      have hnew : s.nextCable ∈ (drained t).cables := by
        refine (OrderlyCables.drained_eq ht).2.1 _ |>.mpr ⟨?_, ?_⟩
        · rw [hcables]
          exact List.mem_append_right _ List.mem_cons_self
        · rintro (hdestroyed | hcleaned)
          · rw [hobject] at hdestroyed
            cases hdestroyed
          · rw [hcleanup] at hcleaned
            exact Nat.lt_irrefl _ (orderly.known _ (Or.inr (Or.inr hcleaned)))
      rw [hresult] at hsame
      have hold := ((hmem _).mp ((hsame.cables _).mp hnew)).1
      exact Nat.lt_irrefl _ (orderly.known _ (Or.inl hold))
    · obtain ⟨c, hc, -⟩ := hawaited
      rw [hfind] at hc
      cases hc
  | some c =>
    obtain ⟨t, hconnect, hactivating, hstatus, hevents⟩ := pluggable.connectCable_some hfind
    rw [hconnect] at ht
    have hc : c ∈ s.cables := List.mem_of_find?_eq_some hfind
    have hct : c ∈ t.cables := hactivating.cables ▸ hc
    have hresult : afterConnect s input output response = drained t := by
      rw [afterConnect_eq hconnect, onRecvResponse, if_neg hno]
    have hawaited : Awaited s input output ↔
        (s.cableObjects c).synchronisableEvents ≠ [] ∨ c ∈ s.cleanupOps := by
      simp [Awaited, hfind]
    obtain ⟨hhierarchy', hmem', hobjects'⟩ := OrderlyCables.drained_eq ht
    have hcables : ∀ d, d ∈ (drained t).cables ↔ d ∈ (drained s).cables := fun d => by
      rw [hmem', hmem, hactivating.cables, hactivating.dying]
    rw [hresult, hawaited]
    constructor
    · intro hsame
      by_contra hnone
      obtain ⟨hcalm, hkept⟩ := not_or.mp hnone
      have hcalm : (s.cableObjects c).synchronisableEvents = [] := not_not.mp hcalm
      have hstays : ¬ CableDying s c := by
        rintro (hdestroyed | hcleaned)
        · rw [hcalm] at hdestroyed
          cases hdestroyed
        · exact hkept hcleaned
      have hdone := hsame.status c ((hmem c).mpr ⟨hc, hstays⟩)
      rw [hobjects c hc, hobjects' c hct] at hdone
      simp only [settled, hevents, hcalm, hstatus] at hdone
      by_cases hbefore : (s.cableObjects c).syncStatus = .activating
      · simp [hbefore, statusAfter] at hdone
      · simp only [hbefore, if_false] at hdone
        exact hbefore hdone.symm
    · intro hevents'
      refine ⟨hcables, fun d hd => ?_, ?_, ?_⟩
      · obtain ⟨hds, hdlives⟩ := (hmem d).mp hd
        rw [hobjects d hds, hobjects' d (hactivating.cables ▸ hds)]
        by_cases hdc : d = c
        · subst hdc
          -- its events activate the cable, with the request and without it
          have hsome := hevents'.resolve_right fun hcleaned => hdlives (Or.inr hcleaned)
          have hactivated := (orderly.uniform d hds).resolve_left fun hdestroyed =>
            hdlives (Or.inl hdestroyed)
          have hactivated' := (OrderlyCables.uniform ht d hct).resolve_left fun hdestroyed =>
            hdlives ((hactivating.dying d).mp (Or.inl hdestroyed))
          have hsome' : (t.cableObjects d).synchronisableEvents ≠ [] := by
            rw [hevents]
            exact List.append_ne_nil_of_left_ne_nil hsome _
          exact (statusAfter_activated _ hactivated' hsome').trans
            (statusAfter_activated _ hactivated hsome).symm
        · rw [hactivating.others d hdc]
      · rw [hhierarchy', hhierarchy, hactivating.hierarchy]
      · rw [hhierarchy', hhierarchy, hactivating.hierarchy]

end Responses

/-! ## Client sessions -/

/-- A step of the client, for a cable of any address. -/
def clientStep (s : ZstSession) (event : ZstCableAddress × ClientEvent) : Except Fault ZstSession :=
  ClientCables.step event.1 s event.2

/-- A session that has no cables yet. -/
structure NoCables (s : ZstSession) : Prop where
  cables : s.cables = []
  synchronisableEvents : s.synchronisableEvents = []
  cleanupOps : s.cleanupOps = []

theorem NoCables.orderly {s : ZstSession} (hs : NoCables s) : OrderlyCables s := by
  refine ⟨fun c hc => ?_, fun c hc => ?_, fun c hc => ?_, fun c hc => ?_⟩
  · rw [hs.cables, hs.synchronisableEvents, hs.cleanupOps] at hc
    simp at hc
  · rw [hs.cables] at hc
    cases hc
  · rw [hs.cables] at hc
    cases hc
  · rw [hs.cables] at hc
    cases hc

/-- In every session that a client can reach, connecting two activated plugs ends
as the response says if and only if a cable that the stage agrees to is new, or
stays linked to these plugs, and one that it refuses was there with its
events still to come. -/
theorem connect_outcome_iff (events : List (ZstCableAddress × ClientEvent)) {start s : ZstSession}
    {input output : EntityId} (hstart : NoCables start)
    (hrun : Library.run clientStep start events = .ok s) (pluggable : Pluggable s input output)
    (response : Option Content) :
    ConnectOutcome s input output response ↔
      if verifySignal response .ok then ReadyToConnect s input output
      else Awaited s input output := by
  have orderly : OrderlyCables s :=
    Library.run_invariant (fun _ _ _ hs (_ : True) hstep => hs.step hstep)
      hstart.orderly (Library.along_of_forall fun _ _ _ _ _ _ => trivial) hrun
  unfold ConnectOutcome
  split
  · rename_i hok
    exact linked_iff_ready orderly pluggable hok
  · rename_i hno
    exact same_iff_awaited orderly pluggable hno

/-- The client `ada` with an input plug, and `bob` with an output plug, all activated. -/
def rack : ZstSession where
  hierarchy := ZstHierarchy.ofList
    [{ entityType := .performer, uri := ["ada"], syncStatus := .activated },
      { entityType := .plug, uri := ["ada", "in"], direction := .inJack, syncStatus := .activated },
      { entityType := .performer, uri := ["bob"], isProxy := true, syncStatus := .activated },
      { entityType := .plug, uri := ["bob", "out"], direction := .outJack, isProxy := true,
        syncStatus := .activated }]
    (some 0)
  cableObjects _ := { address := ⟨[], []⟩, input := 0, output := 0 }

/-- The plugs are connected again after the stage told the client about the cable. -/
theorem connect_outcome_iff_again : ∃ s,
    Library.run clientStep rack [(patch, .create)] = .ok s ∧
      ConnectOutcome s 1 3 (some (.signalMessage .ok)) := by
  refine ⟨_, rfl, (connect_outcome_iff [(patch, .create)] ⟨rfl, rfl, rfl⟩ rfl
    ⟨by decide, by decide, by decide, by decide⟩ (some (.signalMessage .ok))).mpr ?_⟩
  rw [if_pos (by decide)]
  intro c hc
  obtain rfl : 0 = c := Option.some.inj hc
  refine ⟨?_, by decide, by decide, ?_⟩
  · exact not_or.mpr ⟨by decide, by decide⟩
  · exact ⟨by decide, by decide⟩

/-- When the stage does not answer, the new cable stays in the session. -/
theorem unanswered_not_same :
    ¬ ∀ (events : List (ZstCableAddress × ClientEvent)) (start s : ZstSession)
      (input output : EntityId) (response : Option Content), NoCables start →
      Library.run clientStep start events = .ok s → Pluggable s input output →
      ConnectOutcome s input output response := by
  intro hall
  have hsame : Same 1 3 (drained rack) (afterConnect rack 1 3 none) :=
    hall [] rack rack 1 3 none ⟨rfl, rfl, rfl⟩ rfl ⟨by decide, by decide, by decide, by decide⟩
  have hnew : 0 ∈ (afterConnect rack 1 3 none).cables := by decide
  have hnone : 0 ∉ (drained rack).cables := by decide
  exact hnone ((hsame.cables 0).mp hnew)

end Showtime.ConnectOutcomes
