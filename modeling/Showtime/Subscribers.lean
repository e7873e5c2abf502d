import Showtime.StageRun
/-!
# Connected subscribers

A publisher remembers the paths of the clients that have connected to it, and
forgets none of them. Paths are used again: who joins under the path of a
client that has left is taken for connected. What a publisher remembers is true
as long as nobody does.
-/

namespace Showtime.Subscribers

open ZstHierarchy ZstStageHierarchy ZstStageSession ZstStage

/-- The current performers: the proxies that join requests have brought. -/
def joined (h : ZstHierarchy) : List EntityId :=
  h.proxies.filter fun e => (h.entities e).stageProxy.isSome

/-- The paths of the clients that have connected to a performer. -/
def peers (x : Entity) : List ZstURI :=
  (x.stageProxy.map StageProxy.connectedSubscriberPeers).getD []

theorem hasConnectedSubscriber_iff {x client : Entity} :
    x.hasConnectedSubscriber client = true ↔ client.uri ∈ peers x := by
  unfold Entity.hasConnectedSubscriber peers
  cases x.stageProxy <;> simp

theorem mem_joined {h : ZstHierarchy} {e : EntityId} :
    e ∈ joined h ↔ e ∈ h.proxies ∧ (h.entities e).stageProxy.isSome = true := by
  simp [joined]

/-! ## Runs that are watched -/

/-- The stage with the peer handshakes that were completed so far, each of them
between two incarnations. -/
structure WatchedPeers where
  session : ZstSession
  completed : List (EntityId × EntityId) := []

/-- The handshake that a step completes: an OK reply from the subscriber. -/
def completes (s : ZstSession) : StageEvent → List (EntityId × EntityId)
  | .respond message response =>
    match callback s.hierarchy message with
    | some (.clientsConnected output input _) =>
      if verifySignal response .ok then [(output, input)] else []
    | _ => []
  | _ => []

/-- Both clients are there when their handshake is completed. -/
theorem completes_live {s t : ZstSession} {event : StageEvent} (hrun : step s event = .ok t) :
    ∀ pair ∈ completes s event, s.hierarchy.live pair.2 = true := by
  intro pair hpair
  cases event with
  | respond message response =>
    simp only [ZstStage.step] at hrun
    simp only [completes] at hpair
    split at hpair
    · rename_i output input follow hcallback
      simp only [hcallback] at hrun
      split at hpair
      · rename_i hok
        rw [List.mem_singleton.mp hpair]
        exact (clientsConnected_succeeded hok hrun).2.1
      · cases hpair
    · cases hpair
  | _ => cases hpair

def watch (w : WatchedPeers) (event : StageEvent) : Except Fault WatchedPeers := do
  let session ← step w.session event
  return { session, completed := w.completed ++ completes w.session event }

/-- A current performer counts as connected only if it is. -/
def Connected (w : WatchedPeers) : Prop :=
  ∀ output ∈ joined w.session.hierarchy, ∀ input ∈ joined w.session.hierarchy,
    (w.session.hierarchy.entities output).hasConnectedSubscriber
        (w.session.hierarchy.entities input) = true →
      (output, input) ∈ w.completed

/-- `connect_clients` skips the handshake only for connected clients, and for a
client and itself. -/
def SkipsConnected (w : WatchedPeers) : Prop :=
  ∀ output ∈ joined w.session.hierarchy, ∀ input ∈ joined w.session.hierarchy,
    ∀ action, handshakeMessages w.session.hierarchy output input action = [] →
      (output, input) ∈ w.completed ∨ output = input

/-- A client joins under a path that nobody on the stage has, and nobody
remembers, and an entity is created under a path that nobody has. -/
def FreshPaths (h : ZstHierarchy) : StageEvent → Prop
  | .receive msg =>
    match msg.content with
    | .clientJoinRequest performer _ => h.findEntity performer.uri = none →
      (∀ e ∈ h.proxies, (h.entities e).uri ≠ performer.uri) ∧
        ∀ output ∈ joined h, performer.uri ∉ peers (h.entities output)
    | .entityCreateRequest buffer => h.findEntity buffer.uri = none →
      ∀ e ∈ h.proxies, (h.entities e).uri ≠ buffer.uri
    | _ => True
  | _ => True

instance (h : ZstHierarchy) : ∀ event, Decidable (FreshPaths h event)
  | .receive ⟨content, _, _⟩ =>
    match content with
    | .clientJoinRequest performer _ =>
      inferInstanceAs (Decidable (h.findEntity performer.uri = none → _ ∧ _))
    | .entityCreateRequest buffer =>
      inferInstanceAs (Decidable (h.findEntity buffer.uri = none → ∀ e ∈ h.proxies, _))
    | .signalMessage _ | .clientLeaveRequest _ _ | .clientGraphHandshakeListen _ _
    | .clientGraphHandshakeStart _ _ | .clientGraphHandshakeStop _ | .entityUpdateRequest _ _
    | .entityDestroyRequest _ | .entityObserveRequest _ | .entityTakeOwnershipRequest _ _
    | .factoryCreateEntityRequest _ _ | .factoryCreateEntityAck _ | .cableCreateRequest _
    | .cableDestroyRequest _ | .serverStatusMessage => inferInstanceAs (Decidable True)
  | .respond _ _ | .heartbeatTimer | .hierarchyEvent | .synchronisableEvent | .cleanup
  | .forgetDead | .cableEvents => inferInstanceAs (Decidable True)

/-! ## What the publishers remember -/

/-- Whoever a performer remembers was connected to it, and nobody else has the
path by now. -/
structure Remembers (h : ZstHierarchy) (completed : List (EntityId × EntityId)) : Prop where
  sound : FindsOwned h
  allocated : ∀ pair ∈ completed, pair.2 < h.next
  apart : ∀ e ∈ h.proxies, ∀ d ∈ h.proxies, (h.entities e).uri = (h.entities d).uri → e = d
  connected : ∀ output ∈ joined h, ∀ path ∈ peers (h.entities output), ∃ input,
    (output, input) ∈ completed ∧
      ∀ client ∈ joined h, (h.entities client).uri = path → client = input

namespace Remembers

variable {h k : ZstHierarchy} {completed : List (EntityId × EntityId)}

/-- Fewer proxies with the same paths and memories. -/
theorem mono (hw : Remembers h completed) (sound : FindsOwned k) (hnext : k.next = h.next)
    (hproxies : k.proxies ⊆ h.proxies)
    (huri : ∀ e, (k.entities e).uri = (h.entities e).uri)
    (hproxy : ∀ e, (k.entities e).stageProxy = (h.entities e).stageProxy) :
    Remembers k completed := by
  have hjoined : ∀ e ∈ joined k, e ∈ joined h := fun e he => by
    rw [mem_joined, hproxy] at he
    exact mem_joined.mpr ⟨hproxies he.1, he.2⟩
  refine ⟨sound, hnext ▸ hw.allocated, fun e he d hd heq => ?_, fun output hout path hpath => ?_⟩
  · rw [huri, huri] at heq
    exact hw.apart e (hproxies he) d (hproxies hd) heq
  · unfold peers at hpath
    rw [hproxy] at hpath
    obtain ⟨input, hcompleted, honly⟩ := hw.connected output (hjoined output hout) path hpath
    refine ⟨input, hcompleted, fun client hclient hclientURI => ?_⟩
    exact honly client (hjoined client hclient) (huri client ▸ hclientURI)

theorem standing (hw : Remembers h completed) (hk : Standing h k) : Remembers k completed :=
  hw.mono (hw.sound.standing hk) hk.next (fun _ he => hk.proxies ▸ he)
    (hk.field Entity.uri fun _ => rfl) (hk.field Entity.stageProxy fun _ => rfl)

theorem buries (hw : Remembers h completed) (e : EntityId) : Remembers (h.bury e) completed := by
  refine hw.mono (hw.sound.buries e) rfl (fun _ => List.mem_of_mem_erase)
    (fun d => ?_) fun d => ?_
  · rw [FindsOwned.bury_entities]
    split
    · rename_i hde
      rw [hde]
    · rfl
  · rw [FindsOwned.bury_entities]
    split
    · rename_i hde
      rw [hde]
    · rfl

theorem mem_peers_addSubscriber {x client : Entity} {path : ZstURI}
    (hpath : path ∈ peers (x.addSubscriber client)) : path = client.uri ∨ path ∈ peers x := by
  unfold peers Entity.addSubscriber at hpath
  unfold peers
  cases hproxy : x.stageProxy with
  | none => simp [hproxy] at hpath
  | some proxy => simpa [hproxy] using hpath

/-- A completed handshake is remembered under the path of its subscriber. -/
theorem connects (hw : Remembers h completed) {output input : EntityId}
    (hpair : (output, input) ∈ completed) (hin : h.live input = true) :
    Remembers (subscribe h output input) completed := by
  have huri := FindsOwned.subscribe_uri h output input
  have hisSome : ∀ e, ((subscribe h output input).entities e).stageProxy.isSome =
      (h.entities e).stageProxy.isSome := fun e => by
    unfold subscribe
    rw [modify_entities]
    split
    · rename_i heq
      rw [heq]
      simp [Entity.addSubscriber]
    · rfl
  have hjoined : joined (subscribe h output input) = joined h := by
    unfold joined
    simp only [hisSome]
    rfl
  have hmem : input ∈ h.proxies := (hw.sound.live input).mp hin
  refine ⟨hw.sound.subscribe output input, hw.allocated, fun e he d hd heq => ?_,
    fun e he path hpath => ?_⟩
  · rw [huri, huri] at heq
    exact hw.apart e he d hd heq
  · rw [hjoined] at he
    simp only [hjoined, huri]
    have hold : path ∈ peers (h.entities e) → ∃ client, (e, client) ∈ completed ∧
        ∀ c ∈ joined h, (h.entities c).uri = path → c = client := hw.connected e he path
    by_cases heo : e = output
    · subst heo
      unfold subscribe at hpath
      rw [modify_entities_self] at hpath
      rcases mem_peers_addSubscriber hpath with rfl | hpath
      · refine ⟨input, hpair, fun c hc hcuri => ?_⟩
        exact hw.apart c (mem_joined.mp hc).1 input hmem hcuri
      · exact hold hpath
    · unfold subscribe at hpath
      rw [modify_entities_of_ne h _ heo] at hpath
      exact hold hpath

/-- Somebody arrives under a path that nobody has, and nobody remembers if it
is a performer. -/
theorem arrives (hw : Remembers h completed) {x : Entity} (sound : FindsOwned (h.arrive x))
    (hnew : ∀ e ∈ h.proxies, (h.entities e).uri ≠ x.uri)
    (hpeers : peers x = [])
    (hfresh : x.stageProxy.isSome = true → ∀ output ∈ joined h, x.uri ∉ peers (h.entities output)) :
    Remembers (h.arrive x) completed := by
  have hproxies : ∀ e ∈ (h.arrive x).proxies, e ∈ h.proxies ∧ e ≠ h.next ∨ e = h.next := by
    intro e he
    rcases List.mem_append.mp he with he | he
    · exact Or.inl ⟨he, Nat.ne_of_lt (hw.sound.owned.allocated e he)⟩
    · exact Or.inr (List.mem_singleton.mp he)
  refine ⟨sound, fun pair hpair => Nat.lt_succ_of_lt (hw.allocated pair hpair),
    fun e he d hd heq => ?_, fun output hout path hpath => ?_⟩
  · rcases hproxies e he with ⟨heOld, heNext⟩ | rfl <;>
      rcases hproxies d hd with ⟨hdOld, hdNext⟩ | rfl
    · rw [arrive_uri heNext, arrive_uri hdNext] at heq
      exact hw.apart e heOld d hdOld heq
    · rw [arrive_uri heNext, arrive_uri_next] at heq
      exact absurd heq (hnew e heOld)
    · rw [arrive_uri hdNext, arrive_uri_next] at heq
      exact absurd heq.symm (hnew d hdOld)
    · rfl
  · obtain ⟨houtProxy, houtSome⟩ := mem_joined.mp hout
    rcases hproxies output houtProxy with ⟨houtOld, houtNext⟩ | rfl
    · unfold peers at hpath
      rw [arrive_stageProxy houtNext] at hpath houtSome
      have houtJoined := mem_joined.mpr ⟨houtOld, houtSome⟩
      obtain ⟨input, hcompleted, honly⟩ := hw.connected output houtJoined path hpath
      refine ⟨input, hcompleted, fun client hclient hclientURI => ?_⟩
      obtain ⟨hclientProxy, hclientSome⟩ := mem_joined.mp hclient
      rcases hproxies client hclientProxy with ⟨hclientOld, hclientNext⟩ | rfl
      · rw [arrive_stageProxy hclientNext] at hclientSome
        rw [arrive_uri hclientNext] at hclientURI
        exact honly client (mem_joined.mpr ⟨hclientOld, hclientSome⟩) hclientURI
      · rw [arrive_stageProxy_next] at hclientSome
        rw [arrive_uri_next] at hclientURI
        subst hclientURI
        exact absurd hpath (hfresh hclientSome output houtJoined)
    · unfold peers at hpath hpeers
      rw [arrive_stageProxy_next, hpeers] at hpath
      cases hpath

/-- Only a reply completes a handshake. -/
theorem completes_receive (s : ZstSession) (msg : ZstStageMessage) :
    Subscribers.completes s (.receive msg) = [] := rfl

/-- More handshakes with performers that are there. -/
theorem completes (hw : Remembers h completed) {more : List (EntityId × EntityId)}
    (hmore : ∀ pair ∈ more, h.live pair.2 = true) : Remembers h (completed ++ more) := by
  refine ⟨hw.sound, fun pair hpair => ?_, hw.apart, fun output hout path hpath => ?_⟩
  · rcases List.mem_append.mp hpair with hpair | hpair
    · exact hw.allocated pair hpair
    · exact hw.sound.owned.allocated _ ((hw.sound.live _).mp (hmore pair hpair))
  · obtain ⟨input, hcompleted, honly⟩ := hw.connected output hout path hpath
    exact ⟨input, List.mem_append_left _ hcompleted, honly⟩

/-- Every step whose arrivals are fresh keeps what the publishers remember true. -/
theorem watch {w v : WatchedPeers} {event : StageEvent}
    (hw : Remembers w.session.hierarchy w.completed) (hsettled : KeepsPlaces w.session event)
    (hfresh : FreshPaths w.session.hierarchy event) (hrun : Subscribers.watch w event = .ok v) :
    Remembers v.session.hierarchy v.completed := by
  obtain ⟨t, hstep, hrun⟩ := Library.bind_ok.mp hrun
  have hlater := hw.completes (completes_live hstep)
  generalize hcompleted : w.completed ++ Subscribers.completes w.session event = completed
    at hlater hrun
  obtain rfl := Except.ok.inj hrun
  change Remembers t.hierarchy completed
  cases step_change hsettled hstep with
  | stands hk => exact hlater.standing hk
  | dequeues events _ hk =>
    have hpopped : Remembers { w.session.hierarchy with hierarchyEvents := events } completed :=
      hlater.mono (hw.sound.dequeues events) rfl (List.Subset.refl _) (fun _ => rfl) fun _ => rfl
    exact hpopped.standing hk
  | connects message response output input follow hevent hcallback hok _ hin hk =>
    refine (hlater.connects ?_ hin).standing hk
    rw [← hcompleted, hevent]
    simp [Subscribers.completes, hcallback, hok]
  | joins msg performer address l hevent hcontent hfind hadd hk =>
    subst hevent
    simp only [KeepsPlaces, hcontent] at hsettled
    simp only [FreshPaths, hcontent] at hfresh
    obtain ⟨hnew, hunknown⟩ := hfresh hfind
    obtain ⟨rfl, hl⟩ := hw.sound.arrive (unplaced_performerStageProxy _ _ _) hsettled hfind
      hadd
    exact (hlater.arrives hl hnew rfl fun _ => hunknown).standing hk
  | creates msg buffer l hevent hcontent hfind huri hadd hk =>
    subst hevent
    simp only [FreshPaths, hcontent] at hfresh
    obtain ⟨rfl, hl⟩ := hw.sound.arrive (unplaced_unpack buffer) huri hfind hadd
    refine (hlater.arrives hl (hfresh hfind) rfl fun hsome => ?_).standing hk
    cases hsome
  | forgets path hk =>
    have hforgotten := hlater.mono (hw.sound.forgets path) rfl (List.Subset.refl _)
      (fun _ => rfl) fun _ => rfl
    exact hforgotten.standing hk
  | buries e _ hk => exact (hlater.buries e).standing hk

theorem connected_of {w : WatchedPeers} (hw : Remembers w.session.hierarchy w.completed) :
    Connected w := by
  intro output hout input hin hknown
  obtain ⟨client, hcompleted, honly⟩ :=
    hw.connected output hout _ (hasConnectedSubscriber_iff.mp hknown)
  rw [honly input hin rfl]
  exact hcompleted

theorem skipsConnected {w : WatchedPeers} (hw : Remembers w.session.hierarchy w.completed) :
    SkipsConnected w := by
  intro output hout input hin action hnone
  by_cases hknown : (w.session.hierarchy.entities output).hasConnectedSubscriber
      (w.session.hierarchy.entities input) = true
  · exact Or.inl (hw.connected_of output hout input hin hknown)
  by_cases huri : (w.session.hierarchy.entities output).uri =
      (w.session.hierarchy.entities input).uri
  · exact Or.inr (hw.apart _ (mem_joined.mp hout).1 _ (mem_joined.mp hin).1 huri)
  · obtain ⟨proxy, hproxy⟩ := Option.isSome_iff_exists.mp (mem_joined.mp hin).2
    simp [handshakeMessages, hknown, huri, whisperMessages, hproxy] at hnone

/-- Who joins under a path that a performer remembers counts as connected at
once, and has completed no handshake. -/
theorem not_connected_of_remembered {w v : WatchedPeers} {msg : ZstStageMessage}
    {performer : EntityBuffer} {address : String} {output : EntityId}
    (hw : Remembers w.session.hierarchy w.completed)
    (hcontent : msg.content = .clientJoinRequest performer address) (huri : performer.uri ≠ [])
    (hfind : w.session.hierarchy.findEntity performer.uri = none)
    (hout : output ∈ joined w.session.hierarchy)
    (hknown : performer.uri ∈ peers (w.session.hierarchy.entities output))
    (hrun : Subscribers.watch w (.receive msg) = .ok v) : ¬ Connected v := by
  obtain ⟨t, hstep, hrun⟩ := Library.bind_ok.mp hrun
  obtain rfl := Except.ok.inj hrun
  have hcalm : ¬ EntityPreserving msg.content := by
    rw [hcontent]
    exact id
  obtain ⟨l, response, hdispatch, rfl⟩ := receive_not_calm hcalm hstep
  unfold ZstStageHierarchy.dispatch at hdispatch
  rw [hcontent] at hdispatch
  unfold createClientHandler at hdispatch
  simp only [hfind, Option.isSome_none, Bool.false_eq_true, if_false] at hdispatch
  obtain ⟨k, hadd, hdispatch⟩ := Library.bind_ok.mp hdispatch
  obtain ⟨rfl, -⟩ := Prod.mk.inj (Except.ok.inj hdispatch)
  obtain ⟨rfl, -⟩ := hw.sound.arrive (unplaced_performerStageProxy _ _ _) huri hfind hadd
  obtain ⟨houtProxy, houtSome⟩ := mem_joined.mp hout
  have houtNext : output ≠ w.session.hierarchy.next :=
    Nat.ne_of_lt (hw.sound.owned.allocated output houtProxy)
  have hrespond := Standing.respond (w.session.hierarchy.arrive
    (Entity.performerStageProxy performer address msg.originEndpointUUID)) msg response
  have hproxy := fun e => hrespond.field Entity.stageProxy (fun _ => rfl) e
  intro hconnected
  have hpair := hconnected output (mem_joined.mpr ?_) w.session.hierarchy.next
    (mem_joined.mpr ?_) ?_
  · -- the new performer has a new id
    rw [completes_receive, List.append_nil] at hpair
    exact Nat.lt_irrefl _ (hw.allocated _ hpair)
  · simp only [hrespond.proxies, hproxy, arrive_stageProxy houtNext]
    exact ⟨List.mem_append_left _ houtProxy, houtSome⟩
  · simp only [hrespond.proxies, hproxy, arrive_stageProxy_next]
    exact ⟨List.mem_append_right _ (List.mem_singleton_self _), rfl⟩
  · refine hasConnectedSubscriber_iff.mpr ?_
    rw [hrespond.field Entity.uri fun _ => rfl, arrive_uri_next]
    unfold peers at hknown ⊢
    rw [hproxy, arrive_stageProxy houtNext]
    exact hknown

end Remembers

/-! ## Whole runs -/

theorem remembers_opened : Remembers opened.hierarchy [] :=
  ⟨sound_opened, by simp, by simp [opened, ofList], by simp [joined, opened, ofList]⟩

/-- The step brings nobody under a path that is used, and renames nobody. -/
def AllFresh (w : WatchedPeers) (event : StageEvent) : Prop :=
  KeepsPlaces w.session event ∧ FreshPaths w.session.hierarchy event

instance (w : WatchedPeers) (event : StageEvent) : Decidable (AllFresh w event) :=
  inferInstanceAs (Decidable (_ ∧ _))

/-- While every client joins under a path that nobody remembers, only clients
that have completed a handshake count as connected. -/
theorem connected_of_fresh (events : List StageEvent) (w : WatchedPeers)
    (hfresh : Library.Along watch AllFresh { session := opened } events)
    (hrun : Library.run watch { session := opened } events = .ok w) :
    Connected w ∧ SkipsConnected w := by
  have hstep : ∀ (v : WatchedPeers) (event : StageEvent) (u : WatchedPeers),
      Remembers v.session.hierarchy v.completed → AllFresh v event → watch v event = .ok u →
        Remembers u.session.hierarchy u.completed := fun v event u hv hcondition hstep =>
    hv.watch hcondition.1 hcondition.2 hstep
  have hw := Library.run_invariant hstep remembers_opened hfresh hrun
  exact ⟨hw.connected_of, hw.skipsConnected⟩

/-- The client `bob` observes `ada`, and their handshake is completed. -/
def observed : List StageEvent :=
  [joining "ada" 1, joining "bob" 2, observing "ada" 2, .respond 2 (some (.signalMessage .ok))]

theorem connected_of_fresh_observed : ∃ w,
    Library.run watch { session := opened } observed = .ok w ∧ w.completed = [(0, 1)] ∧
      Connected w ∧ SkipsConnected w :=
  ⟨_, rfl, rfl, connected_of_fresh observed _ (by decide) rfl⟩

/-- ... and later another client joins as `bob`. -/
def rejoined : List StageEvent :=
  observed ++ [leaving "bob" 2, .hierarchyEvent, .hierarchyEvent, .hierarchyEvent,
    .synchronisableEvent, .cleanup, .forgetDead, joining "bob" 3]

/-- The stage takes the second `bob` for connected. -/
theorem rejoined_not_connected :
    ¬ ∀ (events : List StageEvent) (w : WatchedPeers),
      Library.Along watch (fun w event => KeepsPlaces w.session event)
        { session := opened } events →
      Library.run watch { session := opened } events = .ok w →
      Connected w ∧ SkipsConnected w := by
  intro hconnected
  obtain ⟨w, hrun, hknown, hpair⟩ : ∃ w,
      Library.run watch { session := opened } rejoined = .ok w ∧
        (w.session.hierarchy.entities 0).hasConnectedSubscriber
          (w.session.hierarchy.entities 2) = true ∧
        (0 ∈ joined w.session.hierarchy ∧ 2 ∈ joined w.session.hierarchy) ∧
        (0, 2) ∉ w.completed :=
    ⟨_, rfl, by decide, by decide, by decide⟩
  refine hpair.2 ((hconnected rejoined w (by decide) hrun).1 0 hpair.1.1 2 hpair.1.2 hknown)

end Showtime.Subscribers
