import Showtime.Library.Deferred
import Showtime.Library.Run
import Showtime.Receiving
/-!
# Compute events

A client that receives graph messages while its application polls: what the
calls of `compute` see of the values that arrive at an input plug.
-/

namespace Showtime.Compute

open ZstHierarchy ZstGraphSession Receiving Library
open ZstClientHierarchy (unanswered)

variable {F : Type}

/-- The client receives a message, or its application's poll runs one compute
event or the rest of `process_events`. -/
inductive GraphEvent (F : Type)
  | receive (msg : GraphMessage F)
  | compute
  | session

def step (v : Overrides) (fuel : Nat) (g : ZstGraphSession F) :
    GraphEvent F → Except Fault (ZstGraphSession F)
  | .receive msg => g.receive msg
  | .compute => g.processCompute
  | .session => .ok (g.processSession v fuel)

/-- What the calls of `compute` for a plug have seen, oldest first. -/
def calls (g : ZstGraphSession F) (plug : EntityId) : List (ZstValue F) :=
  (g.computed.filter fun call => call.plug = plug).map Computed.value

/-- The values of the messages that are for a plug. -/
def received (s : ZstSession) (plug : EntityId) : List (GraphEvent F) → List (ZstValue F)
  | [] => []
  | .receive msg :: events =>
    List.replicate ((receivers s msg).count plug) (held msg) ++ received s plug events
  | _ :: events => received s plug events

/-- The events as one plug sees them: its value is overwritten, and a compute
event runs when it is the plug's own. The queue holds the plugs whose compute
events wait. -/
def schedule (s : ZstSession) (plug : EntityId) :
    List EntityId → List (GraphEvent F) → List (CellEvent (ZstValue F))
  | _, [] => []
  | queue, .receive msg :: events =>
    (List.replicate ((receivers s msg).count plug) (held msg)).map .write ++
      schedule s plug (queue ++ receivers s msg) events
  | queue, .session :: events => schedule s plug queue events
  | [], .compute :: events => schedule s plug [] events
  | waiting :: queue, .compute :: events =>
    if waiting = plug then .observe :: schedule s plug queue events
    else schedule s plug queue events

/-- Between a message for the plug and the call of `compute` that was queued for
it no message with another value arrives. -/
def Unhurried (s : ZstSession) (plug : EntityId) (events : List (GraphEvent F)) : Prop :=
  Steady [] (schedule s plug [] events)

instance [DecidableEq F] (s : ZstSession) (plug : EntityId) (events : List (GraphEvent F)) :
    Decidable (Unhurried s plug events) :=
  inferInstanceAs (Decidable (Steady _ _))

/-! ## Drains that move nothing -/

/-- Nothing but activations and updates is queued in a hierarchy. -/
structure OnlyActivationsQueued (h : ZstHierarchy) : Prop where
  hierarchyEvents : h.hierarchyEvents = []
  cleanupOps : h.cleanupOps = []
  events : ∀ e, ∀ event ∈ (h.entities e).synchronisableEvents,
    event = .activated ∨ event = .updated

/-- A session whose cables wait for nothing either. -/
structure OnlyActivationsInSession (s : ZstSession) : Prop where
  hierarchy : OnlyActivationsQueued s.hierarchy
  cableEvents : s.synchronisableEvents = []
  cableCleanupOps : s.cleanupOps = []

namespace OnlyActivationsQueued

variable {h k : ZstHierarchy}

theorem modify (hk : OnlyActivationsQueued k) (e : EntityId) (f : Entity → Entity)
    (hevents : ∀ event ∈ (f (k.entities e)).synchronisableEvents,
      event = .activated ∨ event = .updated) : OnlyActivationsQueued (k.modify e f) := by
  refine ⟨hk.hierarchyEvents, hk.cleanupOps, fun d event hevent => ?_⟩
  rw [modify_entities] at hevent
  split at hevent
  · exact hevents event hevent
  · exact hk.events d event hevent

theorem queue (hk : OnlyActivationsQueued k) (items dead : List EntityId) (freed : Bool) :
    OnlyActivationsQueued
      { k with synchronisableEvents := items, deadIDs := dead, freedAccess := freed } :=
  ⟨hk.hierarchyEvents, hk.cleanupOps, hk.events⟩

theorem announceUpdate {g : ZstGraphSession F} (hg : OnlyActivationsInSession g.session)
    (e : EntityId) :
    OnlyActivationsInSession (g.announceUpdate e).session := by
  refine ⟨?_, hg.cableEvents, hg.cableCleanupOps⟩
  have hdefer : OnlyActivationsQueued (g.session.hierarchy.deferEvents e [.updated]) := by
    refine hg.hierarchy.modify e _ fun event hevent => ?_
    rcases List.mem_append.mp hevent with hold | hnew
    · exact hg.hierarchy.events e event hold
    · exact Or.inr (List.mem_singleton.mp hnew)
  unfold ZstGraphSession.announceUpdate synchronisableHasEvent
  split
  · exact hdefer.queue _ _ _
  · exact hdefer

theorem onActivation_still (x : Entity) : still (onActivation x) = still x := by
  unfold onActivation
  split <;> rfl

theorem onActivation_events (x : Entity) :
    (onActivation x).synchronisableEvents = x.synchronisableEvents := by
  unfold onActivation
  split <;> rfl

variable (v : Overrides)

/-- An entity that runs its own events keeps its place. -/
theorem processOwnEvents (hk : PlacesKept h k ∧ OnlyActivationsQueued k) (fuel : Nat)
    (e : EntityId) :
    PlacesKept h (ZstHierarchy.processOwnEvents v fuel k e) ∧
      OnlyActivationsQueued (ZstHierarchy.processOwnEvents v fuel k e) := by
  refine processOwnEvents_rule v (P := fun l => PlacesKept h l ∧ OnlyActivationsQueued l) ?_ fuel hk
  rintro l event rest ⟨hrest, hcalm⟩ hown
  have hevents : ∀ event' ∈ event :: rest, event' = .activated ∨ event' = .updated := by
    intro event' hevent
    exact hcalm.events e event' (hown ▸ hevent)
  have hpop : OnlyActivationsQueued (l.modify e fun x => { x with synchronisableEvents := rest }) :=
    hcalm.modify e _ fun event' hevent => hevents event' (List.mem_cons_of_mem _ hevent)
  have hmoved : PlacesKept h (l.modify e fun x => { x with synchronisableEvents := rest }) :=
    hrest.modify e _ rfl
  rcases hevents event List.mem_cons_self with rfl | rfl
  · have hstatus := hpop.modify e (fun x => { x with syncStatus := .activated }) (hpop.events e)
    refine ⟨(hmoved.modify e _ rfl).modify e onActivation (onActivation_still _),
      hstatus.modify e onActivation fun event hevent => ?_⟩
    rw [onActivation_events] at hevent
    exact hstatus.events e event hevent
  · exact ⟨hmoved, hpop⟩

theorem processItems (hk : PlacesKept h k ∧ OnlyActivationsQueued k) (fuel : Nat) :
    PlacesKept h (ZstHierarchy.processItems v fuel k) ∧
      OnlyActivationsQueued (ZstHierarchy.processItems v fuel k) := by
  refine processItems_rule v (P := fun l => PlacesKept h l ∧ OnlyActivationsQueued l) ?_ fuel hk
  rintro l e rest ⟨hrest, hcalm⟩ -
  unfold processItem
  split
  · exact ⟨hrest.queue rest l.deadIDs l.freedAccess, hcalm.queue rest l.deadIDs l.freedAccess⟩
  · exact processOwnEvents v ⟨hrest.queue rest l.deadIDs _, hcalm.queue rest l.deadIDs _⟩ _ e

/-- A drain without arrivals and without cleanups. -/
theorem processEvents (hk : PlacesKept h k ∧ OnlyActivationsQueued k) (fuel : Nat) :
    PlacesKept h (ZstClientHierarchy.processEvents v fuel k) ∧
      OnlyActivationsQueued (ZstClientHierarchy.processEvents v fuel k) := by
  have hcalm := hk.2
  have hsame : ({ k with hierarchyEvents := [] } : ZstHierarchy) = k := by
    rw [← hcalm.hierarchyEvents]
  unfold ZstClientHierarchy.processEvents
  simp only [hcalm.hierarchyEvents, List.foldl_nil, hsame]
  obtain ⟨hrest, hcalm⟩ := processItems v hk (k.synchronisableEvents.length + fuel)
  generalize ZstHierarchy.processItems v (k.synchronisableEvents.length + fuel) k = l
    at hrest hcalm ⊢
  have hreap : ∀ n, reapAll v n l = l := by
    intro n
    cases n with
    | zero => rfl
    | succ n => simp [reapAll, hcalm.cleanupOps]
  rw [hreap]
  exact ⟨hrest.queue l.synchronisableEvents [] l.freedAccess,
    hcalm.queue l.synchronisableEvents [] l.freedAccess⟩

/-- The rest of `process_events` finds no cable to process. -/
theorem processSession {s : ZstSession} {g : ZstGraphSession F} (hg : Unmoved s g.session)
    (hcalm : OnlyActivationsInSession g.session) (fuel : Nat) :
    Unmoved s (g.processSession v fuel).session ∧
      OnlyActivationsInSession (g.processSession v fuel).session := by
  obtain ⟨hrest, hcalm'⟩ := processEvents v ⟨hg.hierarchy, hcalm.hierarchy⟩ fuel
  unfold ZstGraphSession.processSession ZstClientSession.processEvents
  simp only [ZstSession.processCableItems, hcalm.cableEvents, List.foldl_nil,
    ZstSession.reapCables, hcalm.cableCleanupOps]
  exact ⟨⟨hrest, by simp [hg.cables], hg.cableObjects⟩, ⟨hcalm', rfl, rfl⟩⟩

end OnlyActivationsQueued

/-! ## The schedule of a run -/

theorem received_eq (s : ZstSession) (plug : EntityId) (events : List (GraphEvent F))
    (queue : List EntityId) : writes (schedule s plug queue events) = received s plug events := by
  induction events generalizing queue with
  | nil => rfl
  | cons event events ih =>
    cases event with
    | receive msg => rw [schedule, received, writes_append, writes_map_write, ih]
    | session => exact ih queue
    | compute =>
      cases queue with
      | nil => exact ih []
      | cons head queue =>
        rw [schedule]
        split <;> exact ih queue

/-- Every run shows one plug the schedule that the events make for it. -/
theorem run_schedule (v : Overrides) (fuel : Nat) {s : ZstSession} (hs : InputsFound s)
    {plug : EntityId} (hplug : (s.hierarchy.entities plug).isOutputPlug = false)
    (events : List (GraphEvent F))
    (hmessages : ∀ msg, .receive msg ∈ events →
      ∃ buffer, msg.value = some buffer ∧ buffer.isList = true)
    (g : ZstGraphSession F) (queue : List EntityId) (pending : List (ZstValue F))
    (hg : Unmoved s g.session) (hcalm : OnlyActivationsInSession g.session)
    (hevents : g.computeEvents = queue.map (computeEvent s))
    (hqueue : ∀ e ∈ queue, ∃ c ∈ s.cables, (s.cableObjects c).input = e ∧
      (s.hierarchy.entities e).isProxy = false)
    (hpending : pending.length = queue.count plug) :
    ∃ g' queue' pending', run (step v fuel) g events = .ok g' ∧
      g'.computeEvents = List.map (computeEvent s) queue' ∧
      waiting pending (schedule s plug queue events) = some pending' ∧
      pending'.length = queue'.count plug ∧
      calls g' plug =
        calls g plug ++ observations (g.rawValue plug) (schedule s plug queue events) := by
  induction events generalizing g queue pending with
  | nil => exact ⟨g, queue, pending, rfl, hevents, rfl, hpending, by simp [schedule, observations]⟩
  | cons event events ih =>
    have hrest : ∀ msg, .receive msg ∈ events →
        ∃ buffer, msg.value = some buffer ∧ buffer.isList = true :=
      fun msg hmsg => hmessages msg (List.mem_cons_of_mem _ hmsg)
    cases event with
    | session =>
      obtain ⟨g', queue', pending', hrun, htail⟩ :=
        ih hrest _ queue pending (OnlyActivationsQueued.processSession v hg hcalm fuel).1
          (OnlyActivationsQueued.processSession v hg hcalm fuel).2
          hevents hqueue hpending
      exact ⟨g', queue', pending', run_cons_ok.mpr ⟨_, rfl, hrun⟩, htail⟩
    | receive msg =>
      obtain ⟨buffer, hvalue, hlist⟩ := hmessages msg List.mem_cons_self
      obtain ⟨k, hreceive, hk, hkevents, hkcomputed, hkvalues⟩ := receive_eq hs hg hvalue hlist
      have hkcalm : OnlyActivationsInSession k.session := by
        rcases hk with hk | ⟨e, hk⟩
        · rw [hk]
          exact hcalm
        · rw [hk]
          exact OnlyActivationsQueued.announceUpdate hcalm e
      obtain ⟨g', queue', pending', hrun, hevents', hwaiting, hcount, hcalls⟩ :=
        ih hrest (delivered s msg k (receivers s msg)) (queue ++ receivers s msg)
          (pending ++ List.replicate ((receivers s msg).count plug) (held msg)) (unmoved_of_announced hg hk) hkcalm (by simp [delivered, hkevents, hevents])
          (by
            intro e he
            rcases List.mem_append.mp he with he | he
            · exact hqueue e he
            · exact mem_receivers he)
          (by simp [hpending])
      refine ⟨g', queue', pending', run_cons_ok.mpr ⟨_, hreceive, hrun⟩, hevents', ?_, hcount, ?_⟩
      · rw [schedule, waiting_writes]
        exact hwaiting
      · have hvalue : (delivered s msg k (receivers s msg)).rawValue plug =
            if (receivers s msg).count plug = 0 then g.rawValue plug else held msg := by
          simp only [delivered, List.count_eq_zero, hkvalues plug hplug]
          by_cases hmem : plug ∈ receivers s msg
          · simp [hmem]
          · simp [hmem]
        rw [schedule, observations_replicate, ← hvalue, hcalls]
        simp only [calls, delivered, hkcomputed]
    | compute =>
      cases queue with
      | nil =>
        have hidle : g.processCompute = .ok g := by
          unfold processCompute
          rw [hevents]
          rfl
        obtain ⟨g', queue', pending', hrun, htail⟩ := ih hrest g [] pending hg hcalm hevents hqueue hpending
        exact ⟨g', queue', pending', run_cons_ok.mpr ⟨g, hidle, hrun⟩, htail⟩
      | cons head queue =>
        obtain ⟨c, hc, rfl, hproxy⟩ := hqueue _ List.mem_cons_self
        obtain ⟨p, hcompute⟩ := processCompute_eq hs hg hc hproxy hevents
        have hqueue' := fun e he => hqueue e (List.mem_cons_of_mem _ he)
        by_cases hhead : (s.cableObjects c).input = plug
        · subst hhead
          rw [List.count_cons_self] at hpending
          obtain ⟨first, rest, rfl⟩ := List.exists_cons_of_length_eq_add_one hpending
          obtain ⟨g', queue', pending', hrun, hevents', hwaiting, hcount, hcalls⟩ :=
            ih hrest { g with
              computeEvents := queue.map (computeEvent s)
              computed := g.computed ++ [⟨p, (s.cableObjects c).input,
                g.rawValue (s.cableObjects c).input⟩] } queue rest hg hcalm rfl hqueue'
              (by simpa using hpending)
          refine ⟨g', queue', pending', run_cons_ok.mpr ⟨_, hcompute, hrun⟩, hevents', ?_, hcount,
            ?_⟩
          · rw [schedule, if_pos rfl, waiting]
            exact hwaiting
          · rw [schedule, if_pos rfl, observations, hcalls]
            simp [calls, List.filter_append]
        · rw [List.count_cons_of_ne hhead] at hpending
          obtain ⟨g', queue', pending', hrun, hevents', hwaiting, hcount, hcalls⟩ :=
            ih hrest { g with
              computeEvents := queue.map (computeEvent s)
              computed := g.computed ++ [⟨p, (s.cableObjects c).input,
                g.rawValue (s.cableObjects c).input⟩] } queue pending hg hcalm rfl hqueue' hpending
          refine ⟨g', queue', pending', run_cons_ok.mpr ⟨_, hcompute, hrun⟩, hevents', ?_, hcount,
            ?_⟩
          · rw [schedule, if_neg hhead]
            exact hwaiting
          · rw [schedule, if_neg hhead, hcalls]
            simp [calls, List.filter_append, hhead]

/-! ## What the calls see -/

/-- An input plug of an activated local component, before any message came in. -/
structure IdleInput (g : ZstGraphSession F) (plug : EntityId) : Prop where
  wired : InputsFound g.session
  calm : OnlyActivationsInSession g.session
  input : (g.session.hierarchy.entities plug).isInputPlug = true
  proxy : (g.session.hierarchy.entities plug).isProxy = false
  component : ∃ p, parentComponent g.session.hierarchy plug = some p ∧
    (g.session.hierarchy.entities p).isActivated = true
  computeEvents : g.computeEvents = []
  computed : g.computed = []

/-- Whether the calls have seen the values depends on the schedule only. -/
theorem calls_of_run (v : Overrides) (fuel : Nat) {g : ZstGraphSession F} {plug : EntityId}
    (hidle : IdleInput g plug) {events : List (GraphEvent F)}
    (hmessages : ∀ msg, .receive msg ∈ events →
      ∃ buffer, msg.value = some buffer ∧ buffer.isList = true) :
    ∃ g', run (step v fuel) g events = .ok g' ∧
      (g'.computeEvents = [] → waiting [] (schedule g.session plug [] events) = some []) ∧
      calls g' plug = observations (g.rawValue plug) (schedule g.session plug [] events) := by
  have hplug : (g.session.hierarchy.entities plug).isOutputPlug = false := by
    have hinput := hidle.input
    unfold Entity.isInputPlug at hinput
    unfold Entity.isOutputPlug
    cases hdirection : (g.session.hierarchy.entities plug).direction <;>
      simp [hdirection] at hinput ⊢
  obtain ⟨g', queue', pending', hrun, hevents, hwaiting, hcount, hcalls⟩ :=
    run_schedule v fuel hidle.wired hplug events hmessages g [] [] (.refl _) hidle.calm hidle.computeEvents (by simp) rfl
  refine ⟨g', hrun, fun hdrained => ?_, ?_⟩
  · rw [hevents, List.map_eq_nil_iff] at hdrained
    rw [hdrained, List.count_nil, List.length_eq_zero_iff] at hcount
    rw [hwaiting, hcount]
  · rw [hcalls]
    simp [calls, hidle.computed]

/-- `compute` is called once for every message. -/
theorem calls_length (v : Overrides) (fuel : Nat) {g g' : ZstGraphSession F} {plug : EntityId}
    (hidle : IdleInput g plug) {events : List (GraphEvent F)}
    (hmessages : ∀ msg, .receive msg ∈ events →
      ∃ buffer, msg.value = some buffer ∧ buffer.isList = true)
    (hrun : run (step v fuel) g events = .ok g') (hdrained : g'.computeEvents = []) :
    (calls g' plug).length = (received g.session plug events).length := by
  obtain ⟨k, hk, hwaiting, hcalls⟩ := calls_of_run v fuel hidle hmessages
  obtain rfl := Except.ok.inj (hk.symm.trans hrun)
  have hlength := length_observations (g.rawValue plug) (hwaiting hdrained)
  rw [received_eq] at hlength
  rw [hcalls]
  simpa using hlength

/-- A client never fails on graph messages, and once all compute events are
drained the calls of `compute` for a plug have seen the values of the plug's
messages, one by one and in order, exactly if the events were unhurried. -/
theorem calls_iff (v : Overrides) (fuel : Nat) {g : ZstGraphSession F} {plug : EntityId}
    (hidle : IdleInput g plug) {events : List (GraphEvent F)}
    (hmessages : ∀ msg, .receive msg ∈ events →
      ∃ buffer, msg.value = some buffer ∧ buffer.isList = true) :
    ∃ g', run (step v fuel) g events = .ok g' ∧
      (g'.computeEvents = [] →
        (calls g' plug = received g.session plug events ↔
          Unhurried g.session plug events)) := by
  obtain ⟨g', hrun, hwaiting, hcalls⟩ := calls_of_run v fuel hidle hmessages
  refine ⟨g', hrun, fun hdrained => ?_⟩
  rw [hcalls, ← received_eq g.session plug events []]
  exact observations_eq_iff (by simp) (hwaiting hdrained)

/-- A client with a component `bob/synth` whose input is connected to `ada/out`. -/
def listener : ZstGraphSession Int where
  session :=
    { hierarchy := .ofList
        [{ entityType := .performer, uri := ["bob"], registered := true, syncStatus := .activated,
           children := [["bob", "synth"]] },
         { entityType := .component, uri := ["bob", "synth"], parentAddress := ["bob"],
           registered := true, syncStatus := .activated, children := [["bob", "synth", "in"]] },
         { entityType := .plug, uri := ["bob", "synth", "in"], parentAddress := ["bob", "synth"],
           direction := .inJack, registered := true, sessionAdaptor := true,
           syncStatus := .activated, cables := [⟨["bob", "synth", "in"], ["ada", "out"]⟩] },
         { entityType := .plug, uri := ["ada", "out"], parentAddress := ["ada"],
           direction := .outJack, registered := true, sessionAdaptor := true, isProxy := true,
           syncStatus := .activated, cables := [⟨["bob", "synth", "in"], ["ada", "out"]⟩] }]
        (some 0)
      cableObjects := fun _ => ⟨⟨["bob", "synth", "in"], ["ada", "out"]⟩, 2, 3, .activated, []⟩
      nextCable := 1
      cables := [0] }
  rawValue _ := {}

theorem listener_idle : IdleInput listener 2 := by
  have hevents : ∀ e, (listener.session.hierarchy.entities e).synchronisableEvents = [] := by
    intro e
    match e with
    | 0 | 1 | 2 | 3 => rfl
    | e + 4 => rfl
  refine ⟨⟨by decide, by decide, ?_⟩, ⟨⟨rfl, rfl, ?_⟩, rfl, rfl⟩, by decide, by decide,
    ⟨1, by decide, by decide⟩, rfl, rfl⟩
  · intro c hc _
    obtain rfl : c = 0 := List.mem_singleton.mp hc
    exact ⟨1, by decide, by decide⟩
  · intro e event hevent
    rw [hevents] at hevent
    cases hevent

/-- Two messages, each of them computed before the next one arrives. -/
def polled : List (GraphEvent Int) :=
  [.receive ⟨["ada", "out"], some (.intList [1])⟩, .session, .compute,
   .receive ⟨["ada", "out"], some (.intList [2])⟩, .session, .compute]

/-- Two messages that arrive between two polls. -/
def burst : List (GraphEvent Int) :=
  [.receive ⟨["ada", "out"], some (.intList [1])⟩,
   .receive ⟨["ada", "out"], some (.intList [2])⟩, .session, .compute, .compute]

theorem polled_messages : ∀ msg, .receive msg ∈ polled →
    ∃ buffer, msg.value = some buffer ∧ buffer.isList = true := by
  intro msg hmsg
  simp only [polled, List.mem_cons, GraphEvent.receive.injEq, reduceCtorEq, List.not_mem_nil,
    or_false, false_or] at hmsg
  rcases hmsg with rfl | rfl
  · exact ⟨_, rfl, rfl⟩
  · exact ⟨_, rfl, rfl⟩

/-- The rule at work: both values are seen. -/
theorem calls_iff_polled :
    ∃ g', run (step unanswered 0) listener polled = .ok g' ∧ g'.computeEvents = [] ∧
      calls g' 2 = [⟨.intList, [.int 1]⟩, ⟨.intList, [.int 2]⟩] := by
  obtain ⟨g', hrun, hiff⟩ := calls_iff unanswered 0 listener_idle polled_messages
  have hdrained : g'.computeEvents = [] := by
    have hqueue : (run (step unanswered 0) listener polled).map computeEvents = .ok [] := by decide
    rw [hrun] at hqueue
    exact Except.ok.inj hqueue
  exact ⟨g', hrun, hdrained, (hiff hdrained).mpr (by decide)⟩

/-- Both calls see the second value. -/
theorem burst_skips_value :
    IdleInput listener 2 ∧ ∃ g', run (step unanswered 0) listener burst = .ok g' ∧
      g'.computeEvents = [] ∧
      received listener.session 2 burst = [⟨.intList, [.int 1]⟩, ⟨.intList, [.int 2]⟩] ∧
      calls g' 2 = [⟨.intList, [.int 2]⟩, ⟨.intList, [.int 2]⟩] := by
  refine ⟨listener_idle, _, rfl, ?_, ?_, ?_⟩
  · decide
  · decide
  · decide

end Showtime.Compute
