import Showtime.StageSession
import Showtime.Library.Run
/-!
# Handing a plug over to another performer

What an accepted ownership request does to the subscriptions between the new
owner of an output plug and the performers that have an input connected to it.
-/

namespace Showtime

open ZstHierarchy ZstStageHierarchy ZstStageSession Library

namespace Handover

/-- The callbacks of the requests that were sent between two states. -/
def started (s t : ZstSession) : List ResponseAction :=
  (t.hierarchy.sent.drop s.hierarchy.sent.length).filterMap Outgoing.onRecvResponse

/-- The requests are answered with OK, one after the other. -/
def succeed (s : ZstSession) (callbacks : List ResponseAction) : Except Fault ZstSession :=
  callbacks.foldlM (fun s callback => onRecvResponse s callback (some (.signalMessage .ok))) s

/-- Whether the performer was told to listen to the graph address of another one. -/
def toldToListen (s : ZstSession) (receiver owner : EntityId) : Bool :=
  s.hierarchy.sent.any fun m =>
    (s.hierarchy.entities receiver).stageProxy.any (fun proxy =>
        proxy.originEndpointUUID = m.target) &&
      m.content = .clientGraphHandshakeListen (s.hierarchy.entities owner).uri
        (reliableAddress (s.hierarchy.entities owner))

/-- The performer can receive what the other one fires. -/
def Subscribed (s : ZstSession) (owner receiver : EntityId) : Prop :=
  (s.hierarchy.entities owner).hasConnectedSubscriber (s.hierarchy.entities receiver) = true ∧
    toldToListen s receiver owner = true

instance (s : ZstSession) (owner receiver : EntityId) : Decidable (Subscribed s owner receiver) :=
  inferInstanceAs (Decidable (_ ∧ _))

/-- The request names an output plug and a performer, and a cable leads from
the plug to an input of a receiver that is not that performer. -/
structure Receives (s : ZstSession) (path newOwner : ZstURI) (owner receiver : EntityId) :
    Prop where
  plug : ∃ e, s.hierarchy.findEntity path = some e ∧ (s.hierarchy.entities e).isOutputPlug = true
  named : newOwner ≠ []
  performer : findStageProxy s.hierarchy newOwner = some owner
  cable : ∃ c ∈ s.cables, s.hierarchy.findEntity path = some (s.cableObjects c).output ∧
    findStageProxy s.hierarchy (s.hierarchy.entities (s.cableObjects c).input).uri.first =
      some receiver
  other : (s.hierarchy.entities receiver).uri ≠ (s.hierarchy.entities owner).uri

/-! ## Who listens to the owner -/

/-- The URIs, the addresses and the audience of one performer are the same in
two states, and nobody else was told to listen to it. -/
structure SameListeners (owner : EntityId) (s t : ZstSession) : Prop where
  uri : ∀ e, (t.hierarchy.entities e).uri = (s.hierarchy.entities e).uri
  endpoint : ∀ e, (t.hierarchy.entities e).stageProxy.map StageProxy.originEndpointUUID =
    (s.hierarchy.entities e).stageProxy.map StageProxy.originEndpointUUID
  stageProxy : (t.hierarchy.entities owner).stageProxy = (s.hierarchy.entities owner).stageProxy
  told : ∀ m, (∃ address, m.content =
      .clientGraphHandshakeListen (s.hierarchy.entities owner).uri address) →
    (m ∈ t.hierarchy.sent ↔ m ∈ s.hierarchy.sent)

theorem SameListeners.refl (owner : EntityId) (s : ZstSession) : SameListeners owner s s :=
  ⟨fun _ => rfl, fun _ => rfl, rfl, fun _ _ => Iff.rfl⟩

theorem SameListeners.trans {owner : EntityId} {s t u : ZstSession}
    (hst : SameListeners owner s t) (htu : SameListeners owner t u) : SameListeners owner s u := by
  refine ⟨fun e => (htu.uri e).trans (hst.uri e), fun e => (htu.endpoint e).trans (hst.endpoint e),
    htu.stageProxy.trans hst.stageProxy, fun m hm => ?_⟩
  have hm' : ∃ address, m.content =
      .clientGraphHandshakeListen (t.hierarchy.entities owner).uri address := by
    rw [hst.uri owner]
    exact hm
  exact (htu.told m hm').trans (hst.told m hm)

/-- A state with the same listeners has the same subscriptions to the owner. -/
theorem SameListeners.subscribed {owner : EntityId} {s t : ZstSession}
    (hsame : SameListeners owner s t) (receiver : EntityId) :
    Subscribed t owner receiver ↔ Subscribed s owner receiver := by
  unfold Subscribed
  refine and_congr ?_ ?_
  · unfold Entity.hasConnectedSubscriber
    rw [hsame.stageProxy, hsame.uri receiver]
  · have haddress : reliableAddress (t.hierarchy.entities owner) =
        reliableAddress (s.hierarchy.entities owner) := by
      unfold reliableAddress
      rw [hsame.stageProxy]
    have hendpoint : ∀ target,
        (t.hierarchy.entities receiver).stageProxy.any (fun proxy =>
            decide (proxy.originEndpointUUID = target)) =
          (s.hierarchy.entities receiver).stageProxy.any (fun proxy =>
            decide (proxy.originEndpointUUID = target)) := by
      intro target
      have := congrArg (Option.any fun endpoint => decide (endpoint = target))
        (hsame.endpoint receiver)
      simpa [Option.any_map, Function.comp_def] using this
    unfold toldToListen
    rw [haddress, hsame.uri owner]
    simp only [List.any_eq_true, Bool.and_eq_true, decide_eq_true_eq, hendpoint]
    constructor
    · rintro ⟨m, hm, htarget, hcontent⟩
      exact ⟨m, (hsame.told m ⟨_, hcontent⟩).mp hm, htarget, hcontent⟩
    · rintro ⟨m, hm, htarget, hcontent⟩
      exact ⟨m, (hsame.told m ⟨_, hcontent⟩).mpr hm, htarget, hcontent⟩

/-- Messages that tell nobody to listen to the owner change no subscription to it. -/
theorem sameListeners_of_sent {owner : EntityId} (s : ZstSession) {messages : List Outgoing}
    (hmessages : ∀ m ∈ messages, ∀ address,
      m.content ≠ .clientGraphHandshakeListen (s.hierarchy.entities owner).uri address) :
    SameListeners owner s
      (onHierarchy s fun h => { h with sent := h.sent ++ messages }) := by
  refine ⟨fun _ => rfl, fun _ => rfl, rfl, ?_⟩
  rintro m ⟨address, hm⟩
  refine ⟨fun hmem => ?_, fun hmem => List.mem_append_left _ hmem⟩
  rcases List.mem_append.mp hmem with hmem | hmem
  · exact hmem
  · exact absurd hm (hmessages m hmem address)

/-! ## The request -/

/-- The handshakes of the request: every receiver as the publisher, the new
owner as its subscriber. -/
def handshakes (s : ZstSession) (owner : EntityId) (receivers : List EntityId) : List Outgoing :=
  receivers.flatMap fun receiver => handshakeMessages s.hierarchy receiver owner .none

theorem mem_handshakes {s : ZstSession} {owner : EntityId} {receivers : List EntityId}
    {m : Outgoing} : m ∈ handshakes s owner receivers ↔
      ∃ receiver ∈ receivers, m ∈ handshakeMessages s.hierarchy receiver owner .none :=
  List.mem_flatMap

/-- The plug with its new owner. -/
def owned (s : ZstSession) (plug owner : EntityId) : ZstSession :=
  onHierarchy s fun h => h.modify plug fun x => setOwner x (h.entities owner).uri

/-- What an accepted request does. -/
theorem aquire_accepted {s t : ZstSession} {path newOwner : ZstURI} {owner : EntityId}
    (hnamed : newOwner ≠ []) (howner : findStageProxy s.hierarchy newOwner = some owner)
    (hrequest : aquireEntityOwnershipHandler s path newOwner = .ok (t, .ok)) :
    ∃ plug rs, s.hierarchy.findEntity path = some plug ∧ receivers (owned s plug owner) plug = .ok rs ∧
      t = onHierarchy (owned s plug owner) fun h =>
        { h with
          sent := h.sent ++ (handshakes (owned s plug owner) owner rs ++
            broadcastMessages h (.entityTakeOwnershipRequest (h.entities plug).uri newOwner)) } := by
  unfold aquireEntityOwnershipHandler at hrequest
  cases hplug : s.hierarchy.findEntity path with
  | none => simp [hplug, pure, Except.pure] at hrequest
  | some plug =>
    simp only [hplug, if_neg hnamed, howner, bind, Except.bind] at hrequest
    split at hrequest
    · cases hrequest
    · rename_i rs hreceivers
      obtain rfl := (Prod.mk.inj (Except.ok.inj hrequest)).1
      refine ⟨plug, rs, rfl, hreceivers, ?_⟩
      rw [foldl_connectClients_eq]
      simp only [onHierarchy, broadcast_eq, List.append_assoc]
      rfl

theorem owned_sameListeners (s : ZstSession) (plug owner : EntityId) :
    SameListeners owner s (owned s plug owner) := by
  have hkeep : ∀ e, (((owned s plug owner).hierarchy.entities e).uri =
      (s.hierarchy.entities e).uri) ∧ ((owned s plug owner).hierarchy.entities e).stageProxy =
      (s.hierarchy.entities e).stageProxy := by
    intro e
    unfold owned onHierarchy setOwner
    rw [modify_entities]
    split
    · rename_i he
      subst he
      split <;> exact ⟨rfl, rfl⟩
    · exact ⟨rfl, rfl⟩
  exact ⟨fun e => (hkeep e).1, fun e => by rw [(hkeep e).2], (hkeep owner).2, fun _ _ => Iff.rfl⟩

theorem owned_findStageProxy (s : ZstSession) (plug owner : EntityId) (path : ZstURI) :
    findStageProxy (owned s plug owner).hierarchy path = findStageProxy s.hierarchy path := by
  have hfind : (owned s plug owner).hierarchy.findEntity path = s.hierarchy.findEntity path := by
    unfold findEntity
    rw [show (owned s plug owner).hierarchy.root = s.hierarchy.root from rfl]
    cases s.hierarchy.root with
    | none => rfl
    | some root =>
      simp only [(owned_sameListeners s plug owner).uri root]
      rfl
  have hproxy : ∀ e, ((owned s plug owner).hierarchy.entities e).stageProxy.isSome =
      (s.hierarchy.entities e).stageProxy.isSome := by
    intro e
    have hendpoint := congrArg Option.isSome ((owned_sameListeners s plug owner).endpoint e)
    rwa [Option.isSome_map, Option.isSome_map] at hendpoint
  unfold findStageProxy
  simp only [hfind, hproxy]

/-- A handshake with the owner as the subscriber tells nobody to listen to it. -/
theorem handshakes_content {s : ZstSession} {owner : EntityId} {receivers : List EntityId}
    {m : Outgoing} (hm : m ∈ handshakes s owner receivers) (address : String) :
    m.content ≠ .clientGraphHandshakeListen (s.hierarchy.entities owner).uri address := by
  obtain ⟨receiver, -, hm⟩ := mem_handshakes.mp hm
  unfold handshakeMessages at hm
  simp only at hm
  split_ifs at hm with hconnected huri
  · cases hm
  · cases hm
  · rcases List.mem_append.mp hm with hm | hm
    · rw [whisperMessages_content hm]
      intro heq
      exact huri (Content.clientGraphHandshakeListen.inj heq).1
    · rw [whisperMessages_content hm]
      exact Content.noConfusion

/-- The callbacks of the handshakes have the owner as the subscriber of another performer. -/
theorem handshakes_callback {s : ZstSession} {owner : EntityId} {receivers : List EntityId}
    {m : Outgoing} (hm : m ∈ handshakes s owner receivers) {callback : ResponseAction}
    (hcallback : m.onRecvResponse = some callback) :
    ∃ receiver ∈ receivers, callback = .clientsConnected receiver owner .none ∧
      (s.hierarchy.entities receiver).uri ≠ (s.hierarchy.entities owner).uri := by
  obtain ⟨receiver, hreceiver, hm⟩ := mem_handshakes.mp hm
  unfold handshakeMessages at hm
  simp only at hm
  split_ifs at hm with hconnected huri
  · cases hm
  · cases hm
  · rcases List.mem_append.mp hm with hm | hm
    · rw [whisperMessages_callback hm] at hcallback
      exact ⟨receiver, hreceiver, (Option.some.inj hcallback).symm, huri⟩
    · rw [whisperMessages_callback hm] at hcallback
      cases hcallback

/-! ## The answers -/

/-- A successful handshake adds its subscriber to another performer than the owner. -/
theorem answer_sameListeners {s t : ZstSession} {owner receiver : EntityId}
    (hne : (s.hierarchy.entities receiver).uri ≠ (s.hierarchy.entities owner).uri)
    (hrun : onRecvResponse s (.clientsConnected receiver owner .none)
      (some (.signalMessage .ok)) = .ok t) : SameListeners owner s t := by
  obtain ⟨-, -, hconnected⟩ := clientsConnected_succeeded (by simp) hrun
  obtain rfl := Except.ok.inj hconnected
  rw [completeClientConnection_eq]
  have hsubscribe : SameListeners owner s
      (onHierarchy s fun h => subscribe h receiver owner) := by
    have hother : owner ≠ receiver := fun heq => hne (by rw [heq])
    refine ⟨fun e => ?_, fun e => ?_, ?_, fun _ _ => Iff.rfl⟩
    · simp only [onHierarchy, subscribe, modify_entities]
      split
      · rename_i he
        rw [he]
        rfl
      · rfl
    · simp only [onHierarchy, subscribe, modify_entities]
      split
      · rename_i he
        simp only [he, Entity.addSubscriber, Option.map_map]
        rfl
      · rfl
    · simp only [onHierarchy, subscribe]
      rw [modify_entities_of_ne _ _ hother]
  refine hsubscribe.trans (sameListeners_of_sent _ fun m hm address => ?_)
  rw [whisperMessages_content hm]
  exact Content.noConfusion

theorem succeed_sameListeners {owner : EntityId} {callbacks : List ResponseAction}
    {s t : ZstSession}
    (hcallbacks : ∀ callback ∈ callbacks, ∃ receiver,
      callback = .clientsConnected receiver owner .none ∧
        (s.hierarchy.entities receiver).uri ≠ (s.hierarchy.entities owner).uri)
    (hrun : succeed s callbacks = .ok t) : SameListeners owner s t := by
  unfold succeed at hrun
  induction callbacks generalizing s with
  | nil =>
    obtain rfl : s = t := by simpa [pure, Except.pure] using hrun
    exact .refl owner s
  | cons callback callbacks ih =>
    obtain ⟨receiver, rfl, hne⟩ := hcallbacks _ List.mem_cons_self
    obtain ⟨u, hfirst, hrest⟩ := run_cons_ok.mp hrun
    have hsame := answer_sameListeners hne hfirst
    refine hsame.trans (ih (fun callback hmem => ?_) hrest)
    obtain ⟨receiver', rfl, hne'⟩ := hcallbacks _ (List.mem_cons_of_mem _ hmem)
    exact ⟨receiver', rfl, by rwa [hsame.uri, hsame.uri]⟩

/-- The requests that the handler sends are its handshakes. -/
theorem mem_started {s t : ZstSession} {path newOwner : ZstURI} {owner : EntityId}
    (hnamed : newOwner ≠ []) (howner : findStageProxy s.hierarchy newOwner = some owner)
    (hrequest : aquireEntityOwnershipHandler s path newOwner = .ok (t, .ok)) :
    SameListeners owner s t ∧ ∀ callback ∈ started s t, ∃ receiver,
      callback = .clientsConnected receiver owner .none ∧
        (t.hierarchy.entities receiver).uri ≠ (t.hierarchy.entities owner).uri := by
  obtain ⟨plug, rs, -, -, rfl⟩ := aquire_accepted hnamed howner hrequest
  have hsame := owned_sameListeners s plug owner
  refine ⟨hsame.trans (sameListeners_of_sent _ fun m hm address => ?_), fun callback hmem => ?_⟩
  · rcases List.mem_append.mp hm with hm | hm
    · exact handshakes_content hm address
    · rw [broadcastMessages_content hm]
      exact Content.noConfusion
  · unfold started at hmem
    obtain ⟨m, hm, hcallback⟩ := List.mem_filterMap.mp hmem
    have hdrop : m ∈ handshakes (owned s plug owner) owner rs ++
        broadcastMessages (owned s plug owner).hierarchy (.entityTakeOwnershipRequest
          ((owned s plug owner).hierarchy.entities plug).uri newOwner) := by
      simpa [onHierarchy, owned] using hm
    rcases List.mem_append.mp hdrop with hm | hm
    · obtain ⟨receiver, -, heq, hne⟩ := handshakes_callback hm hcallback
      exact ⟨receiver, heq, hne⟩
    · rw [broadcastMessages_callback hm] at hcallback
      cases hcallback

/-! ## What the handshakes establish instead -/

/-- Every performer with an input connected to the plug is a receiver. -/
theorem mem_receivers {s : ZstSession} {plug receiver : EntityId} {rs : List EntityId}
    (hreceivers : receivers s plug = .ok rs) {c : CableId} (hc : c ∈ s.cables)
    (houtput : (s.cableObjects c).output = plug)
    (hreceiver : findStageProxy s.hierarchy
      (s.hierarchy.entities (s.cableObjects c).input).uri.first = some receiver) :
    receiver ∈ rs := by
  unfold receivers at hreceivers
  have hgrow : ∀ (cables : List CableId) (found : List EntityId),
      (receiver ∈ found ∨ c ∈ cables) → cables.foldlM (fun receivers c => do
        let cable := s.cableObjects c
        let output ← s.hierarchy.deref (some cable.output)
        if (s.hierarchy.entities output).uri = (s.hierarchy.entities plug).uri then
          let input ← s.hierarchy.deref (some cable.input)
          let performer ← firstSegment (s.hierarchy.entities input).uri
          let receiver ← s.hierarchy.deref (findStageProxy s.hierarchy performer)
          return if receiver ∈ receivers then receivers else receivers ++ [receiver]
        return receivers) found = .ok rs → receiver ∈ rs := by
    intro cables
    induction cables with
    | nil =>
      rintro found (hfound | hmem) hfold
      · obtain rfl := Except.ok.inj hfold
        exact hfound
      · cases hmem
    | cons d cables ih =>
      intro found hor hfold
      obtain ⟨next, hstep, hrest⟩ := run_cons_ok.mp hfold
      have hgrows : receiver ∈ found ∨ d = c → receiver ∈ next := by
        intro hor
        dsimp only at hstep
        cases hout : s.hierarchy.deref (some (s.cableObjects d).output) with
        | error fault => simp [hout, bind, Except.bind] at hstep
        | ok output =>
          simp only [hout, bind, Except.bind] at hstep
          obtain rfl : output = (s.cableObjects d).output := (Option.some.inj (deref_ok hout)).symm
          split_ifs at hstep with huri
          · cases hin : s.hierarchy.deref (some (s.cableObjects d).input) with
            | error fault => simp [hin] at hstep
            | ok input =>
              obtain rfl := Option.some.inj (deref_ok hin)
              simp only [hin] at hstep
              cases hfirst : firstSegment
                  (s.hierarchy.entities (s.cableObjects d).input).uri with
              | error fault => simp [hfirst] at hstep
              | ok performer =>
                cases hproxy : s.hierarchy.deref (findStageProxy s.hierarchy performer) with
                | error fault => simp [hfirst, hproxy] at hstep
                | ok receiver' =>
                  simp only [hfirst, hproxy] at hstep
                  obtain rfl := Except.ok.inj hstep
                  have hin' : receiver ∈ found ∨ receiver = receiver' := by
                    rcases hor with hfound | rfl
                    · exact Or.inl hfound
                    · rw [firstSegment_ok hfirst] at hproxy
                      exact Or.inr (Option.some.inj (hreceiver.symm.trans (deref_ok hproxy)))
                  split
                  · rename_i hmem
                    rcases hin' with hfound | rfl
                    · exact hfound
                    · exact hmem
                  · rcases hin' with hfound | rfl <;> simp [*]
          · obtain rfl := Except.ok.inj hstep
            rcases hor with hfound | rfl
            · exact hfound
            · exact absurd (by rw [houtput]) huri
      refine ih next ?_ hrest
      rcases hor with hfound | hmem
      · exact Or.inl (hgrows (Or.inl hfound))
      · rcases List.mem_cons.mp hmem with rfl | hmem
        · exact Or.inl (hgrows (Or.inr rfl))
        · exact Or.inr hmem
  exact hgrow s.cables [] (Or.inr hc) hreceivers

/-- Answers only add subscribers, and the answer to a handshake adds its own. -/
theorem succeed_subscribes {owner receiver : EntityId} {callbacks : List ResponseAction}
    {s t : ZstSession}
    (hcallbacks : ∀ callback ∈ callbacks, ∃ receiver,
      callback = .clientsConnected receiver owner .none ∧
        (s.hierarchy.entities receiver).uri ≠ (s.hierarchy.entities owner).uri)
    (hproxy : (s.hierarchy.entities receiver).stageProxy.isSome = true)
    (hor : (s.hierarchy.entities receiver).hasConnectedSubscriber (s.hierarchy.entities owner) =
        true ∨ .clientsConnected receiver owner .none ∈ callbacks)
    (hrun : succeed s callbacks = .ok t) :
    (t.hierarchy.entities receiver).hasConnectedSubscriber (t.hierarchy.entities owner) = true := by
  unfold succeed at hrun
  induction callbacks generalizing s with
  | nil =>
    obtain rfl : s = t := by simpa [pure, Except.pure] using hrun
    rcases hor with hconnected | hmem
    · exact hconnected
    · cases hmem
  | cons callback callbacks ih =>
    obtain ⟨publisher, rfl, hne⟩ := hcallbacks _ List.mem_cons_self
    obtain ⟨u, hfirst, hrest⟩ := run_cons_ok.mp hrun
    have hsame := answer_sameListeners hne hfirst
    obtain ⟨-, -, hconnected⟩ := clientsConnected_succeeded (by simp) hfirst
    obtain rfl := Except.ok.inj hconnected
    rw [completeClientConnection_eq] at hsame hrest
    refine ih (fun callback hmem => ?_) ?_ ?_ hrest
    · obtain ⟨receiver', rfl, hne'⟩ := hcallbacks _ (List.mem_cons_of_mem _ hmem)
      exact ⟨receiver', rfl, by rwa [hsame.uri, hsame.uri]⟩
    · have hendpoint := congrArg Option.isSome (hsame.endpoint receiver)
      rw [Option.isSome_map, Option.isSome_map] at hendpoint
      exact hendpoint.trans hproxy
    · have hlist : ∀ x : Entity, x.hasConnectedSubscriber
          ((onHierarchy s fun h => subscribe h publisher owner).hierarchy.entities owner) =
            x.hasConnectedSubscriber (s.hierarchy.entities owner) := by
        intro x
        unfold Entity.hasConnectedSubscriber
        rw [show ((onHierarchy s fun h => subscribe h publisher owner).hierarchy.entities
          owner).uri = _ from hsame.uri owner]
      by_cases heq : receiver = publisher
      · subst heq
        refine Or.inl ((hlist _).trans ?_)
        obtain ⟨proxy, hproxy⟩ := Option.isSome_iff_exists.mp hproxy
        simp [onHierarchy, subscribe, Entity.hasConnectedSubscriber, Entity.addSubscriber, hproxy]
      · rcases hor with hconnected | hmem
        · refine Or.inl ((hlist _).trans ?_)
          simp only [onHierarchy, subscribe]
          rw [modify_entities_of_ne _ _ heq]
          exact hconnected
        · rcases List.mem_cons.mp hmem with heq' | hmem
          · exact absurd (ResponseAction.clientsConnected.inj heq').1 heq
          · exact Or.inr hmem

/-- What the request establishes instead: the new owner is a subscriber of every
performer that should receive from it. -/
theorem owner_subscribed {s t u : ZstSession} {path newOwner : ZstURI}
    {owner receiver : EntityId} {callbacks : List ResponseAction}
    (hreceives : Receives s path newOwner owner receiver)
    (hrequest : aquireEntityOwnershipHandler s path newOwner = .ok (t, .ok))
    (hstarted : callbacks.Perm (started s t)) (hsucceed : succeed t callbacks = .ok u) :
    (u.hierarchy.entities receiver).hasConnectedSubscriber (u.hierarchy.entities owner) = true := by
  obtain ⟨hst, hcallbacks⟩ := mem_started hreceives.named hreceives.performer hrequest
  obtain ⟨c, hc, houtput, hcable⟩ := hreceives.cable
  refine succeed_subscribes (fun callback hmem => hcallbacks callback (hstarted.mem_iff.mp hmem))
    ?_ ?_ hsucceed
  · have hendpoint := congrArg Option.isSome (hst.endpoint receiver)
    rw [Option.isSome_map, Option.isSome_map] at hendpoint
    exact hendpoint.trans (findStageProxy_isSome hcable)
  · obtain ⟨plug, rs, hplug, hreceivers, rfl⟩ :=
      aquire_accepted hreceives.named hreceives.performer hrequest
    have hsame := owned_sameListeners s plug owner
    have hmem : receiver ∈ rs := by
      refine mem_receivers hreceivers hc (Option.some.inj (houtput.symm.trans hplug)) ?_
      rw [owned_findStageProxy, hsame.uri]
      exact hcable
    by_cases hconnected : ((owned s plug owner).hierarchy.entities receiver).hasConnectedSubscriber
        ((owned s plug owner).hierarchy.entities owner) = true
    · exact Or.inl hconnected
    · refine Or.inr (hstarted.mem_iff.mpr ?_)
      obtain ⟨proxy, hproxy⟩ := Option.isSome_iff_exists.mp
        (findStageProxy_isSome hreceives.performer)
      rw [← hsame.stageProxy] at hproxy
      have hne := hreceives.other
      rw [← hsame.uri receiver, ← hsame.uri owner] at hne
      obtain ⟨m, hm, hcallback⟩ : ∃ m ∈ handshakeMessages (owned s plug owner).hierarchy
          receiver owner .none, m.onRecvResponse = some (.clientsConnected receiver owner .none) := by
        unfold handshakeMessages
        simp only [if_neg hconnected, if_neg hne]
        exact ⟨_, List.mem_append_left _ (mem_whisperMessages.mpr ⟨proxy, hproxy, rfl⟩), rfl⟩
      have hsent := List.mem_append_left (broadcastMessages (owned s plug owner).hierarchy
        (.entityTakeOwnershipRequest ((owned s plug owner).hierarchy.entities plug).uri newOwner))
        (mem_handshakes.mpr ⟨receiver, hmem, hm⟩)
      refine List.mem_filterMap.mpr ⟨m, ?_, hcallback⟩
      simpa [onHierarchy, owned] using hsent

/-- The handler connects the performers the wrong way round: once all its
handshakes have succeeded, in whatever order, a receiver is subscribed to the
new owner exactly if it was before the request. -/
theorem subscribed_iff {s t u : ZstSession} {path newOwner : ZstURI} {owner receiver : EntityId}
    {callbacks : List ResponseAction} (hreceives : Receives s path newOwner owner receiver)
    (hrequest : aquireEntityOwnershipHandler s path newOwner = .ok (t, .ok))
    (hstarted : callbacks.Perm (started s t)) (hsucceed : succeed t callbacks = .ok u) :
    Subscribed u owner receiver ↔ Subscribed s owner receiver := by
  obtain ⟨hst, hcallbacks⟩ := mem_started hreceives.named hreceives.performer hrequest
  have htu := succeed_sameListeners
    (fun callback hmem => hcallbacks callback (hstarted.mem_iff.mp hmem)) hsucceed
  exact (hst.trans htu).subscribed receiver

/-- Three performers, with a cable from `ada/out` to `cat/in`. The last one may
listen to `bob` already. -/
def trio (listening : Bool) : ZstSession where
  hierarchy :=
    { ZstHierarchy.ofList
        [{ entityType := .performer, uri := ["ada"], registered := true, isProxy := true,
           syncStatus := .activated, children := [["ada", "out"]],
           stageProxy := some
             { originEndpointUUID := 1, connectedSubscriberPeers := [["cat"]] } },
         { entityType := .performer, uri := ["bob"], registered := true, isProxy := true,
           syncStatus := .activated,
           stageProxy := some
             { originEndpointUUID := 2, reliableAddress := "tcp://bob"
               connectedSubscriberPeers := if listening then [["cat"]] else [] } },
         { entityType := .performer, uri := ["cat"], registered := true, isProxy := true,
           syncStatus := .activated, children := [["cat", "in"]],
           stageProxy := some { originEndpointUUID := 3 } },
         { entityType := .plug, uri := ["ada", "out"], parentAddress := ["ada"],
           direction := .outJack, registered := true, sessionAdaptor := true, isProxy := true,
           syncStatus := .activated, cables := [⟨["cat", "in"], ["ada", "out"]⟩] },
         { entityType := .plug, uri := ["cat", "in"], parentAddress := ["cat"],
           direction := .inJack, registered := true, sessionAdaptor := true, isProxy := true,
           syncStatus := .activated, cables := [⟨["cat", "in"], ["ada", "out"]⟩] }] with
      sent := if listening then
          [{ target := 3, content := .clientGraphHandshakeListen ["bob"] "tcp://bob" }]
        else [] }
  cableObjects _ := ⟨⟨["cat", "in"], ["ada", "out"]⟩, 4, 3, .activated, []⟩
  nextCable := 1
  cables := [0]

theorem trio_receives (listening : Bool) :
    Receives (trio listening) ["ada", "out"] ["bob"] 1 2 := by
  cases listening
  · exact ⟨⟨3, by decide, by decide⟩, by decide, by decide, ⟨0, by decide, by decide, by decide⟩,
      by decide⟩
  · exact ⟨⟨3, by decide, by decide⟩, by decide, by decide, ⟨0, by decide, by decide, by decide⟩,
      by decide⟩

/-- The rule at work: who listened to the new owner before still does. -/
theorem subscribed_iff_trio :
    ∃ t u, aquireEntityOwnershipHandler (trio true) ["ada", "out"] ["bob"] = .ok (t, .ok) ∧
      succeed t (started (trio true) t) = .ok u ∧ Subscribed u 1 2 := by
  refine ⟨_, _, rfl, rfl, (subscribed_iff (trio_receives true) rfl (.refl _) rfl).mpr ?_⟩
  decide

/-- The receiver of the cable cannot hear the plug's new owner. -/
theorem handover_not_subscribed :
    Receives (trio false) ["ada", "out"] ["bob"] 1 2 ∧
      ∃ t u, aquireEntityOwnershipHandler (trio false) ["ada", "out"] ["bob"] = .ok (t, .ok) ∧
        started (trio false) t = [.clientsConnected 2 1 .none] ∧
        succeed t (started (trio false) t) = .ok u ∧ ¬ Subscribed u 1 2 := by
  refine ⟨trio_receives false, _, _, rfl, by decide, rfl, ?_⟩
  decide

end Handover
end Showtime
