import Showtime.Handshakes
import Showtime.Tree
/-!
# Runs of peer handshakes

As long as no two handshakes of the same performers overlap, the stage's log holds
at most one of them for every publisher and subscriber. The slots that the clients
keep by the peer's path are then free when they are needed.
-/

namespace Showtime.Handshakes

open ZstHierarchy ZstStageHierarchy ZstStageSession ZstStage
open Naming (endpointOf mem_joined_iff Housed)
open Subscribers (joined)

/-! ## The log of the stage -/

section Log

variable {sent more : List Outgoing} {m : Outgoing} {id : Nat}
  {which : Outgoing → Prop}

theorem at_append : At (sent ++ more) id which ↔
    At sent id which ∨ ∃ j, id = sent.length + j ∧ At more j which := by
  unfold At
  by_cases hid : id < sent.length
  · rw [List.getElem?_append_left hid]
    refine ⟨.inl, fun hat => hat.resolve_right ?_⟩
    rintro ⟨j, hj, -⟩
    omega
  · rw [List.getElem?_append_right (by omega)]
    constructor
    · intro hat
      exact .inr ⟨id - sent.length, by omega, hat⟩
    · rintro (⟨m, hm, -⟩ | ⟨j, rfl, hat⟩)
      · rw [List.getElem?_eq_none (by omega)] at hm
        cases hm
      · rwa [Nat.add_sub_cancel_left]

theorem at_cons : At (m :: more) id which ↔
    id = 0 ∧ which m ∨ ∃ j, id = j + 1 ∧ At more j which := by
  unfold At
  cases id with
  | zero => simp
  | succ j => simp

theorem at_pair {second : Outgoing} : At (sent ++ [m, second]) id which ↔
    At sent id which ∨ id = sent.length ∧ which m ∨ id = sent.length + 1 ∧ which second := by
  have hnil : ∀ j, ¬ At [] j which := by
    rintro j ⟨m, hm, -⟩
    cases hm
  rw [at_append]
  simp only [at_cons, hnil, and_false, exists_false, or_false]
  constructor
  · rintro (hat | ⟨j, rfl, ⟨rfl, hm⟩ | ⟨i, rfl, rfl, hsecond⟩⟩)
    · exact .inl hat
    · exact .inr (.inl ⟨rfl, hm⟩)
    · exact .inr (.inr ⟨rfl, hsecond⟩)
  · rintro (hat | ⟨rfl, hm⟩ | ⟨rfl, hsecond⟩)
    · exact .inl hat
    · exact .inr ⟨0, rfl, .inl ⟨rfl, hm⟩⟩
    · exact .inr ⟨1, rfl, .inr ⟨0, rfl, rfl, hsecond⟩⟩

theorem not_at (hnone : ∀ m ∈ sent, ¬ which m) : ¬ At sent id which := by
  rintro ⟨m, hm, hwhich⟩
  exact hnone m (List.mem_of_getElem? hm) hwhich

theorem At.append (hat : At sent id which) (more : List Outgoing) : At (sent ++ more) id which :=
  at_append.mpr (.inl hat)

theorem At.lt (hat : At sent id which) : id < sent.length := by
  obtain ⟨m, hm, -⟩ := hat
  exact (List.getElem?_eq_some_iff.mp hm).1

theorem At.of_append (hat : At (sent ++ more) id which) (hid : id < sent.length) :
    At sent id which := by
  rcases at_append.mp hat with hat | ⟨j, rfl, -⟩
  · exact hat
  · omega

/-- The performers that the response to the message connects. -/
def Connects (pair : EntityId × EntityId) (m : Outgoing) : Prop :=
  ∃ action, m.onRecvResponse = some (.clientsConnected pair.1 pair.2 action)

theorem connecting_iff {h : ZstHierarchy} {output input : EntityId} :
    connecting h id = some (output, input) ↔ At h.sent id (Connects (output, input)) := by
  rw [connecting_eq_some]
  unfold callback At Connects
  constructor
  · rintro ⟨action, hcallback⟩
    obtain ⟨m, hm, haction⟩ := Option.bind_eq_some_iff.mp hcallback
    exact ⟨m, hm, action, haction⟩
  · rintro ⟨m, hm, action, haction⟩
    exact ⟨action, Option.bind_eq_some_iff.mpr ⟨m, hm, haction⟩⟩

namespace OutsideHandshakes

theorem not_connects (hm : OutsideHandshakes m) (pair : EntityId × EntityId) :
    ¬ Connects pair m := by
  rintro ⟨action, haction⟩
  rw [hm.2] at haction
  cases haction

theorem not_listen (hm : OutsideHandshakes m) (c : Endpoint) (path : ZstURI) :
    ¬ Listen c path m := by
  rintro ⟨-, address, hcontent⟩
  exact hm.1 (by rw [IsHandshake, hcontent]; trivial)

theorem not_start (hm : OutsideHandshakes m) (c : Endpoint) (path : ZstURI) : ¬ Start c path m := by
  rintro ⟨-, address, hcontent⟩
  exact hm.1 (by rw [IsHandshake, hcontent]; trivial)

theorem not_stop (hm : OutsideHandshakes m) (c : Endpoint) (path : ZstURI) : ¬ Stop c path m := by
  rintro ⟨-, hcontent⟩
  exact hm.1 (by rw [IsHandshake, hcontent]; trivial)

end OutsideHandshakes

/-- Every two performers are connected by one handshake at most. Its messages were sent
in order, the stop once the response had come, and from then on they count as connected. -/
structure Logged (h : ZstHierarchy) (sent : List Outgoing) (resolved : List ZstMsgID) : Prop where
  once : ∀ id id' pair, At sent id (Connects pair) → At sent id' (Connects pair) → id = id'
  joins : ∀ id output input, At sent id (Connects (output, input)) →
    output ∈ joined h ∧ input ∈ joined h
  asks : ∀ id output input, At sent id (Connects (output, input)) →
    (∀ c, endpointOf h input = some c → At sent id (Listen c (h.entities output).uri)) ∧
    ∀ c, endpointOf h output = some c → At sent (id + 1) (Start c (h.entities input).uri)
  listen : ∀ id c path, At sent id (Listen c path) → ∃ output input,
    At sent id (Connects (output, input)) ∧ endpointOf h input = some c ∧
      (h.entities output).uri = path
  start : ∀ id c path, At sent id (Start c path) → ∃ first output input,
    At sent first (Connects (output, input)) ∧ endpointOf h output = some c ∧
      (h.entities input).uri = path
  stop : ∀ id c path, At sent id (Stop c path) → ∃ first output input,
    At sent first (Connects (output, input)) ∧ first ∈ resolved ∧
      endpointOf h output = some c ∧ (h.entities input).uri = path
  connected : ∀ id output input, At sent id (Connects (output, input)) → id ∈ resolved →
    (h.entities output).hasConnectedSubscriber (h.entities input) = true

namespace Logged

variable {h k : ZstHierarchy} {resolved : List ZstMsgID}

theorem stays (logged : Logged h sent resolved) (hk : PerformersStay h k) :
    Logged k sent resolved := by
  refine ⟨logged.once, ?_, ?_, ?_, ?_, ?_, ?_⟩
  · intro id output input hconnects
    rw [hk.clients.mem_joined, hk.clients.mem_joined]
    exact logged.joins id output input hconnects
  · simp only [hk.uri, hk.clients.endpoint]
    exact logged.asks
  · simp only [hk.uri, hk.clients.endpoint]
    exact logged.listen
  · simp only [hk.uri, hk.clients.endpoint]
    exact logged.start
  · simp only [hk.uri, hk.clients.endpoint]
    exact logged.stop
  · intro id output input hconnects hresolved
    exact hk.remembers _ _ (logged.connected id output input hconnects hresolved)

/-- A message that is neither waited for nor a request of a handshake changes nothing,
if it is no stop that comes too early. -/
theorem sends (logged : Logged h sent resolved)
    (hconnects : ∀ m ∈ more, ∀ pair, ¬ Connects pair m)
    (hlisten : ∀ m ∈ more, ∀ c path, ¬ Listen c path m)
    (hstart : ∀ m ∈ more, ∀ c path, ¬ Start c path m)
    (hstop : ∀ m ∈ more, ∀ c path, Stop c path m → ∃ first output input,
      At sent first (Connects (output, input)) ∧ first ∈ resolved ∧
        endpointOf h output = some c ∧ (h.entities input).uri = path) :
    Logged h (sent ++ more) resolved := by
  have hold : ∀ {id pair}, At (sent ++ more) id (Connects pair) → At sent id (Connects pair) := by
    intro id pair hat
    refine (at_append.mp hat).resolve_right ?_
    rintro ⟨j, -, hj⟩
    exact not_at (fun m hm => hconnects m hm pair) hj
  refine ⟨fun id id' pair hid hid' => logged.once id id' pair (hold hid) (hold hid'),
    fun id output input hid => logged.joins id output input (hold hid), ?_, ?_, ?_, ?_,
    fun id output input hid => logged.connected id output input (hold hid)⟩
  · intro id output input hid
    obtain ⟨hlistens, hstarts⟩ := logged.asks id output input (hold hid)
    exact ⟨fun c hc => (hlistens c hc).append more, fun c hc => (hstarts c hc).append more⟩
  · intro id c path hat
    rcases at_append.mp hat with hat | ⟨j, -, hj⟩
    · obtain ⟨output, input, hfirst, hplace⟩ := logged.listen id c path hat
      exact ⟨output, input, hfirst.append more, hplace⟩
    · exact absurd hj (not_at fun m hm => hlisten m hm c path)
  · intro id c path hat
    rcases at_append.mp hat with hat | ⟨j, -, hj⟩
    · obtain ⟨first, output, input, hfirst, hplace⟩ := logged.start id c path hat
      exact ⟨first, output, input, hfirst.append more, hplace⟩
    · exact absurd hj (not_at fun m hm => hstart m hm c path)
  · intro id c path hat
    rcases at_append.mp hat with hat | ⟨j, -, m, hm, hstopped⟩
    · obtain ⟨first, output, input, hfirst, hplace⟩ := logged.stop id c path hat
      exact ⟨first, output, input, hfirst.append more, hplace⟩
    · obtain ⟨first, output, input, hfirst, hplace⟩ :=
        hstop m (List.mem_of_getElem? hm) c path hstopped
      exact ⟨first, output, input, hfirst.append more, hplace⟩

theorem plain (logged : Logged h sent resolved) (hplain : ∀ m ∈ more, OutsideHandshakes m) :
    Logged h (sent ++ more) resolved :=
  logged.sends (fun m hm => (hplain m hm).not_connects) (fun m hm => (hplain m hm).not_listen)
    (fun m hm => (hplain m hm).not_start)
    fun m hm c path hstop => absurd hstop ((hplain m hm).not_stop c path)

theorem resolves (logged : Logged h sent resolved) {output input : EntityId}
    (hconnects : At sent id (Connects (output, input)))
    (hconnected : (h.entities output).hasConnectedSubscriber (h.entities input) = true) :
    Logged h sent (id :: resolved) := by
  refine ⟨logged.once, logged.joins, logged.asks, logged.listen, logged.start, ?_, ?_⟩
  · intro j c path hat
    obtain ⟨first, d, e, hfirst, hresolved, hplace⟩ := logged.stop j c path hat
    exact ⟨first, d, e, hfirst, List.mem_cons_of_mem _ hresolved, hplace⟩
  · intro j d e hj hresolved
    rcases List.mem_cons.mp hresolved with rfl | hresolved
    · obtain ⟨m, hm, action, haction⟩ := hj
      obtain ⟨m', hm', action', haction'⟩ := hconnects
      obtain rfl := Option.some.inj (hm.symm.trans hm')
      rw [haction] at haction'
      cases haction'
      exact hconnected
    · exact logged.connected j d e hj hresolved

/-- A handshake of two performers that had none. -/
theorem shakes (logged : Logged h sent resolved) {output input : EntityId}
    {publisher subscriber : Endpoint} {listen start : Outgoing}
    (hout : output ∈ joined h) (hin : input ∈ joined h)
    (hpublisher : endpointOf h output = some publisher)
    (hsubscriber : endpointOf h input = some subscriber)
    (hlisten : Listen subscriber (h.entities output).uri listen)
    (hconnects : ∀ pair, Connects pair listen ↔ pair = (output, input))
    (hstart : Start publisher (h.entities input).uri start)
    (hnone : start.onRecvResponse = none)
    (hfresh : ∀ id, ¬ At sent id (Connects (output, input)))
    (hresolved : ∀ id ∈ resolved, id < sent.length) :
    Logged h (sent ++ [listen, start]) resolved := by
  have hsecond : ∀ pair, ¬ Connects pair start := by
    rintro pair ⟨action, haction⟩
    rw [hnone] at haction
    cases haction
  have hshake : ∀ {id pair}, At (sent ++ [listen, start]) id (Connects pair) →
      At sent id (Connects pair) ∨ id = sent.length ∧ pair = (output, input) := by
    intro id pair hat
    rcases at_pair.mp hat with hat | ⟨hid, hpair⟩ | ⟨-, hpair⟩
    · exact .inl hat
    · exact .inr ⟨hid, (hconnects pair).mp hpair⟩
    · exact absurd hpair (hsecond pair)
  have hnew : At (sent ++ [listen, start]) sent.length (Connects (output, input)) :=
    at_pair.mpr (.inr (.inl ⟨rfl, (hconnects _).mpr rfl⟩))
  refine ⟨?_, ?_, ?_, ?_, ?_, ?_, ?_⟩
  · intro id id' pair hid hid'
    rcases hshake hid with hid | ⟨rfl, rfl⟩
    · rcases hshake hid' with hid' | ⟨rfl, rfl⟩
      · exact logged.once id id' pair hid hid'
      · exact absurd hid (hfresh id)
    · rcases hshake hid' with hid' | ⟨rfl, -⟩
      · exact absurd hid' (hfresh id')
      · rfl
  · intro id d e hid
    rcases hshake hid with hid | ⟨-, hpair⟩
    · exact logged.joins id d e hid
    · cases hpair
      exact ⟨hout, hin⟩
  · intro id d e hid
    rcases hshake hid with hid | ⟨rfl, hpair⟩
    · obtain ⟨hlistens, hstarts⟩ := logged.asks id d e hid
      exact ⟨fun c hc => (hlistens c hc).append _, fun c hc => (hstarts c hc).append _⟩
    · cases hpair
      refine ⟨fun c hc => ?_, fun c hc => ?_⟩
      · obtain rfl := Option.some.inj (hsubscriber.symm.trans hc)
        exact at_pair.mpr (.inr (.inl ⟨rfl, hlisten⟩))
      · obtain rfl := Option.some.inj (hpublisher.symm.trans hc)
        exact at_pair.mpr (.inr (.inr ⟨rfl, hstart⟩))
  · intro id c path hat
    rcases at_pair.mp hat with hat | ⟨rfl, hother⟩ | ⟨-, hother⟩
    · obtain ⟨d, e, hfirst, hplace⟩ := logged.listen id c path hat
      exact ⟨d, e, hfirst.append _, hplace⟩
    · refine ⟨output, input, hnew, ?_⟩
      obtain ⟨rfl, address, haddress⟩ := hlisten
      obtain ⟨rfl, other, hcontent⟩ := hother
      rw [haddress] at hcontent
      obtain ⟨rfl, -⟩ := Content.clientGraphHandshakeListen.inj hcontent
      exact ⟨hsubscriber, rfl⟩
    · obtain ⟨-, address, haddress⟩ := hstart
      obtain ⟨-, other, hcontent⟩ := hother
      rw [haddress] at hcontent
      cases hcontent
  · intro id c path hat
    rcases at_pair.mp hat with hat | ⟨-, hother⟩ | ⟨-, hother⟩
    · obtain ⟨first, d, e, hfirst, hplace⟩ := logged.start id c path hat
      exact ⟨first, d, e, hfirst.append _, hplace⟩
    · obtain ⟨-, address, haddress⟩ := hlisten
      obtain ⟨-, other, hcontent⟩ := hother
      rw [haddress] at hcontent
      cases hcontent
    · refine ⟨sent.length, output, input, hnew, ?_⟩
      obtain ⟨rfl, address, haddress⟩ := hstart
      obtain ⟨rfl, other, hcontent⟩ := hother
      rw [haddress] at hcontent
      obtain ⟨rfl, -⟩ := Content.clientGraphHandshakeStart.inj hcontent
      exact ⟨hpublisher, rfl⟩
  · intro id c path hat
    rcases at_pair.mp hat with hat | ⟨-, -, hcontent⟩ | ⟨-, -, hcontent⟩
    · obtain ⟨first, d, e, hfirst, hplace⟩ := logged.stop id c path hat
      exact ⟨first, d, e, hfirst.append _, hplace⟩
    · obtain ⟨-, address, haddress⟩ := hlisten
      rw [haddress] at hcontent
      cases hcontent
    · obtain ⟨-, address, haddress⟩ := hstart
      rw [haddress] at hcontent
      cases hcontent
  · intro id d e hid hmem
    rcases hshake hid with hid | ⟨rfl, -⟩
    · exact logged.connected id d e hid hmem
    · exact absurd (hresolved _ hmem) (Nat.lt_irrefl _)

/-- The stop comes once the response has come. -/
theorem stops (logged : Logged h sent resolved) {stop : Outgoing} {output input : EntityId}
    {publisher : Endpoint} (hconnects : At sent id (Connects (output, input)))
    (hresolved : id ∈ resolved) (hpublisher : endpointOf h output = some publisher)
    (hstop : Stop publisher (h.entities input).uri stop) (hnone : stop.onRecvResponse = none) :
    Logged h (sent ++ [stop]) resolved := by
  obtain ⟨rfl, hcontent⟩ := hstop
  refine logged.sends ?_ ?_ ?_ ?_
  · rintro m hm pair ⟨action, haction⟩
    rw [List.mem_singleton.mp hm, hnone] at haction
    cases haction
  · rintro m hm c path ⟨-, address, haddress⟩
    rw [List.mem_singleton.mp hm, hcontent] at haddress
    cases haddress
  · rintro m hm c path ⟨-, address, haddress⟩
    rw [List.mem_singleton.mp hm, hcontent] at haddress
    cases haddress
  · rintro m hm c path ⟨htarget, hpath⟩
    obtain rfl := List.mem_singleton.mp hm
    rw [hcontent] at hpath
    obtain rfl := Content.clientGraphHandshakeStop.inj hpath
    exact ⟨id, output, input, hconnects, hresolved, htarget ▸ hpublisher, rfl⟩

end Logged

/-- A client is asked once to listen to a path. -/
theorem listen_unique {h : ZstHierarchy} {resolved : List ZstMsgID} {c : Endpoint} {path : ZstURI}
    {id' : Nat} (logged : Logged h sent resolved) (apart : PerformersApart h)
    (hid : At sent id (Listen c path)) (hid' : At sent id' (Listen c path)) : id = id' := by
  obtain ⟨output, input, hconnects, hinput, houtput⟩ := logged.listen id c path hid
  obtain ⟨output', input', hconnects', hinput', houtput'⟩ := logged.listen id' c path hid'
  obtain ⟨hout, hin⟩ := logged.joins id output input hconnects
  obtain ⟨hout', hin'⟩ := logged.joins id' output' input' hconnects'
  obtain rfl := apart.endpoint input hin input' hin' (hinput.trans hinput'.symm)
  obtain rfl := apart.uri output hout output' hout' (houtput.trans houtput'.symm)
  exact logged.once id id' _ hconnects hconnects'

/-- A publisher is told to stop for the response to its only request to start. -/
theorem stop_resolved {h : ZstHierarchy} {resolved : List ZstMsgID} {c : Endpoint}
    {output input : EntityId} {id' : Nat} (logged : Logged h sent resolved)
    (apart : PerformersApart h)
    (hconnects : At sent id (Connects (output, input))) (houtput : endpointOf h output = some c)
    (hstop : At sent id' (Stop c (h.entities input).uri)) : id ∈ resolved := by
  obtain ⟨first, d, e, hfirst, hresolved, hd, he⟩ := logged.stop id' c _ hstop
  obtain ⟨hout, hin⟩ := logged.joins id output input hconnects
  obtain ⟨hout', hin'⟩ := logged.joins first d e hfirst
  obtain rfl := apart.endpoint d hout' output hout (hd.trans houtput.symm)
  obtain rfl := apart.uri e hin' input hin he
  rw [logged.once id first _ hconnects hfirst]
  exact hresolved

end Log

/-! ## The clients -/

/-- The client has answered what it was asked to listen to, each request once, or keeps
it. It broadcasts to whom it was asked to, until the response has come. -/
structure Attends (h : ZstHierarchy) (sent : List Outgoing) (resolved : List ZstMsgID)
    (c : Endpoint) (p : Peer) : Prop where
  read : p.read ≤ sent.length
  pending : ∀ path id, p.pendingPeerConnections path = some id ↔
    p.Received sent c id path ∧ id ∉ p.signals
  signals : ∀ id ∈ p.signals, ∃ path, p.Received sent c id path
  nodup : p.signals.Nodup
  broadcasting : ∀ id output input, At sent id (Connects (output, input)) →
    endpointOf h output = some c → id + 1 < p.read → id ∉ resolved →
    p.Broadcasting (h.entities input).uri
  knows : ∀ id output input, At sent id (Connects (output, input)) →
    endpointOf h output = some c → (h.entities input).uri ∈ p.performers

namespace Attends

variable {h k : ZstHierarchy} {sent more : List Outgoing} {resolved later : List ZstMsgID}
  {c : Endpoint} {p q : Peer}

/-- What the stage says meanwhile is not received yet. -/
theorem grow (attends : Attends h sent resolved c p) (hk : PerformersStay h k)
    (hresolved : resolved ⊆ later)
    (hknows : ∀ id output input, sent.length ≤ id →
      At (sent ++ more) id (Connects (output, input)) → endpointOf h output = some c →
      (h.entities input).uri ∈ p.performers) :
    Attends k (sent ++ more) later c p := by
  have hreceived : ∀ id path, p.Received (sent ++ more) c id path ↔ p.Received sent c id path := by
    intro id path
    refine and_congr_right fun hid => ⟨fun hat => ?_, fun hat => hat.append more⟩
    exact hat.of_append (Nat.lt_of_lt_of_le hid attends.read)
  refine ⟨?_, ?_, ?_, attends.nodup, ?_, ?_⟩
  · rw [List.length_append]
    exact Nat.le_add_right_of_le attends.read
  · simp only [hreceived]
    exact attends.pending
  · simp only [hreceived]
    exact attends.signals
  · intro id output input hat houtput hid hnew
    rw [hk.clients.endpoint] at houtput
    rw [hk.uri]
    have hlt : id < sent.length :=
      Nat.lt_of_lt_of_le (Nat.lt_of_succ_lt hid) attends.read
    exact attends.broadcasting id output input (hat.of_append hlt) houtput hid
      fun hmem => hnew (hresolved hmem)
  · intro id output input hat houtput
    rw [hk.clients.endpoint] at houtput
    rw [hk.uri]
    by_cases hid : id < sent.length
    · exact attends.knows id output input (hat.of_append hid) houtput
    · exact hknows id output input (Nat.le_of_not_lt hid) hat houtput

/-- One more message is received. -/
theorem reads (attends : Attends h sent resolved c p) (hlt : p.read < sent.length)
    (hread : q.read = p.read + 1) (hsignals : q.signals = p.signals)
    (hperformers : q.performers = p.performers)
    (hpending : ∀ path id, q.pendingPeerConnections path = some id ↔
      p.pendingPeerConnections path = some id ∨ id = p.read ∧ At sent p.read (Listen c path))
    (hbroadcasting : ∀ id output input, At sent id (Connects (output, input)) →
      endpointOf h output = some c → id ∉ resolved →
      p.Broadcasting (h.entities input).uri ∨ id + 1 = p.read →
      q.Broadcasting (h.entities input).uri) :
    Attends h sent resolved c q := by
  have hreceived : ∀ id path, q.Received sent c id path ↔
      p.Received sent c id path ∨ id = p.read ∧ At sent p.read (Listen c path) := by
    intro id path
    unfold Peer.Received
    rw [hread, Nat.lt_succ_iff_lt_or_eq]
    constructor
    · rintro ⟨hid | rfl, hat⟩
      · exact .inl ⟨hid, hat⟩
      · exact .inr ⟨rfl, hat⟩
    · rintro (⟨hid, hat⟩ | ⟨rfl, hat⟩)
      · exact ⟨.inl hid, hat⟩
      · exact ⟨.inr rfl, hat⟩
  have hnew : p.read ∉ p.signals := by
    intro hmem
    obtain ⟨path, hid, -⟩ := attends.signals _ hmem
    exact Nat.lt_irrefl _ hid
  refine ⟨hread ▸ hlt, ?_, ?_, hsignals ▸ attends.nodup, ?_, hperformers ▸ attends.knows⟩
  · intro path id
    rw [hpending, hreceived, hsignals, attends.pending]
    constructor
    · rintro (⟨hold, hunanswered⟩ | ⟨rfl, hat⟩)
      · exact ⟨.inl hold, hunanswered⟩
      · exact ⟨.inr ⟨rfl, hat⟩, hnew⟩
    · rintro ⟨hold | hlast, hunanswered⟩
      · exact .inl ⟨hold, hunanswered⟩
      · exact .inr hlast
  · intro id hid
    rw [hsignals] at hid
    obtain ⟨path, hold⟩ := attends.signals id hid
    exact ⟨path, (hreceived id path).mpr (.inl hold)⟩
  · intro id output input hat houtput hid hunresolved
    refine hbroadcasting id output input hat houtput hunresolved ?_
    rw [hread] at hid
    rcases Nat.lt_succ_iff_lt_or_eq.mp hid with hid | hid
    · exact .inl (attends.broadcasting id output input hat houtput hid hunresolved)
    · exact .inr hid

theorem at_read {m : Outgoing} (hm : sent[p.read]? = some m) {which : Outgoing → Prop} :
    At sent p.read which ↔ which m := by
  unfold At
  rw [hm]
  simp

/-- A message that asks the client for nothing. -/
theorem passes (attends : Attends h sent resolved c p) (logged : Logged h sent resolved)
    {m : Outgoing} (hm : sent[p.read]? = some m) (hlisten : ∀ path, ¬ Listen c path m)
    (hstart : ∀ path, ¬ Start c path m) (hread : q.read = p.read + 1)
    (hsignals : q.signals = p.signals) (hperformers : q.performers = p.performers)
    (hpending : q.pendingPeerConnections = p.pendingPeerConnections)
    (hbroadcasting : ∀ id output input, At sent id (Connects (output, input)) →
      endpointOf h output = some c → id ∉ resolved →
      p.Broadcasting (h.entities input).uri → q.Broadcasting (h.entities input).uri) :
    Attends h sent resolved c q := by
  refine attends.reads (List.getElem?_eq_some_iff.mp hm).1 hread hsignals hperformers
    (fun path id => ?_) fun id output input hat houtput hnew hold => ?_
  · rw [hpending, at_read hm]
    exact (or_iff_left fun hlast => hlisten path hlast.2).symm
  · rcases hold with hold | hlast
    · exact hbroadcasting id output input hat houtput hnew hold
    · have hasked := (logged.asks id output input hat).2 c houtput
      rw [hlast, at_read hm] at hasked
      exact absurd hasked (hstart _)

/-- The client is asked to listen, which it was not before. -/
theorem listens (attends : Attends h sent resolved c p) (logged : Logged h sent resolved)
    (apart : PerformersApart h) {m : Outgoing} (hm : sent[p.read]? = some m) {output : ZstURI}
    {address : String} (htarget : m.target = c)
    (hcontent : m.content = .clientGraphHandshakeListen output address) (published : Nat) :
    Attends h sent resolved c
      ({ p with read := p.read + 1 }.listenToClientHandler output address p.read published) := by
  have hasked : At sent p.read (Listen c output) := (at_read hm).mpr ⟨htarget, address, hcontent⟩
  refine attends.reads (List.getElem?_eq_some_iff.mp hm).1 rfl rfl rfl (fun path id => ?_)
    fun id d e hat houtput hnew hold => ?_
  · dsimp only [Peer.listenToClientHandler]
    by_cases hpath : path = output
    · subst hpath
      rw [Function.update_self, Option.some.injEq, eq_comm]
      refine ⟨fun hid => .inr ⟨hid, hasked⟩, fun hid => hid.elim (fun hold => ?_) And.left⟩
      -- a request that was received before would be the same one
      obtain ⟨⟨hlt, hat⟩, -⟩ := (attends.pending path id).mp hold
      exact listen_unique logged apart hat hasked
    · rw [Function.update_of_ne hpath]
      refine (or_iff_left ?_).symm
      rintro ⟨-, hat⟩
      obtain ⟨-, other, hother⟩ := (at_read hm).mp hat
      rw [hcontent] at hother
      exact hpath (Content.clientGraphHandshakeListen.inj hother).1.symm
  · refine hold.resolve_right fun hlast => ?_
    have hstarted := (logged.asks id d e hat).2 c houtput
    rw [hlast, at_read hm] at hstarted
    obtain ⟨-, other, hother⟩ := hstarted
    rw [hcontent] at hother
    cases hother

/-- The client is asked to broadcast to a performer that it knows. -/
theorem begins (attends : Attends h sent resolved c p) (logged : Logged h sent resolved)
    {m : Outgoing} (hm : sent[p.read]? = some m) {input : ZstURI} {address : String}
    (hcontent : m.content = .clientGraphHandshakeStart input address)
    (hstart : { p with read := p.read + 1 }.startConnectionBroadcastHandler input = .ok q) :
    Attends h sent resolved c q ∧ q.signals = p.signals := by
  unfold Peer.startConnectionBroadcastHandler at hstart
  split at hstart
  case isFalse => cases hstart
  obtain rfl := Except.ok.inj hstart
  refine ⟨attends.reads (List.getElem?_eq_some_iff.mp hm).1 rfl rfl rfl (fun path id => ?_)
    fun id d e hat houtput hnew hold => ?_, rfl⟩
  · refine (or_iff_left ?_).symm
    rintro ⟨-, hlast⟩
    obtain ⟨-, other, hother⟩ := (at_read hm).mp hlast
    rw [hcontent] at hother
    cases hother
  · rcases hold with ⟨htimer, hwait⟩ | hlast
    · exact ⟨List.mem_insert_of_mem htimer, List.mem_cons_of_mem _ hwait⟩
    · have hstarted := (logged.asks id d e hat).2 c houtput
      rw [hlast, at_read hm] at hstarted
      obtain ⟨-, other, hother⟩ := hstarted
      rw [hcontent] at hother
      obtain ⟨rfl, -⟩ := Content.clientGraphHandshakeStart.inj hother
      exact ⟨List.mem_insert_self, List.mem_cons_self⟩

/-- The client stops, which is only asked for once the response has come. -/
theorem stops (attends : Attends h sent resolved c p) (logged : Logged h sent resolved)
    (apart : PerformersApart h) {m : Outgoing} (hm : sent[p.read]? = some m) {input : ZstURI}
    (htarget : m.target = c) (hcontent : m.content = .clientGraphHandshakeStop input)
    (hstop : { p with read := p.read + 1 }.stopConnectionBroadcastHandler input = .ok q) :
    Attends h sent resolved c q ∧ q.signals = p.signals := by
  unfold Peer.stopConnectionBroadcastHandler at hstop
  split at hstop
  case isFalse => cases hstop
  obtain rfl := Except.ok.inj hstop
  refine ⟨attends.passes logged hm ?_ ?_ rfl rfl rfl rfl
    fun id d e hat houtput hnew hold => ⟨?_, hold.2⟩, rfl⟩
  · rintro path ⟨-, other, hother⟩
    rw [hcontent] at hother
    cases hother
  · rintro path ⟨-, other, hother⟩
    rw [hcontent] at hother
    cases hother
  · refine List.mem_filter.mpr ⟨hold.1, decide_eq_true fun hpath => hnew ?_⟩
    have hstopped : At sent p.read (Stop c (h.entities e).uri) :=
      (at_read hm).mpr ⟨htarget, hpath ▸ hcontent⟩
    exact stop_resolved logged apart hat houtput hstopped

/-- The client receives the next message of the stage. -/
theorem take (attends : Attends h sent resolved c p) (logged : Logged h sent resolved)
    (apart : PerformersApart h) {published : String → List ZstURI}
    (htake : p.take c sent published = .ok q) :
    Attends h sent resolved c q ∧ q.signals = p.signals := by
  unfold Peer.take at htake
  cases hm : sent[p.read]? with
  | none =>
    rw [hm] at htake
    obtain rfl := Except.ok.inj htake
    exact ⟨attends, rfl⟩
  | some m =>
    rw [hm] at htake
    dsimp only at htake
    by_cases htarget : m.target = c
    · rw [if_pos htarget] at htake
      unfold Peer.onReceiveMsg at htake
      cases hcontent : m.content with
      | clientGraphHandshakeListen output address =>
        rw [hcontent] at htake
        obtain rfl := Except.ok.inj htake
        exact ⟨attends.listens logged apart hm htarget hcontent _, rfl⟩
      | clientGraphHandshakeStart input address =>
        rw [hcontent] at htake
        exact attends.begins logged hm hcontent htake
      | clientGraphHandshakeStop input =>
        rw [hcontent] at htake
        exact attends.stops logged apart hm htarget hcontent htake
      | _ =>
        rw [hcontent] at htake
        obtain rfl := Except.ok.inj htake
        refine ⟨attends.passes logged hm ?_ ?_ rfl rfl rfl rfl fun _ _ _ _ _ _ hold => hold, rfl⟩
        · rintro path ⟨-, other, hother⟩
          rw [hcontent] at hother
          cases hother
        · rintro path ⟨-, other, hother⟩
          rw [hcontent] at hother
          cases hother
    · rw [if_neg htarget] at htake
      obtain rfl := Except.ok.inj htake
      exact ⟨attends.passes logged hm (fun path hlisten => htarget hlisten.1)
        (fun path hstart => htarget hstart.1) rfl rfl rfl rfl fun _ _ _ _ _ _ hold => hold, rfl⟩

/-- It never fails over that message. -/
theorem takes (attends : Attends h sent resolved c p) (logged : Logged h sent resolved)
    (published : String → List ZstURI) : ∃ q, p.take c sent published = .ok q := by
  unfold Peer.take
  cases hm : sent[p.read]? with
  | none => exact ⟨p, rfl⟩
  | some m =>
    dsimp only
    by_cases htarget : m.target = c
    · rw [if_pos htarget]
      unfold Peer.onReceiveMsg
      cases hcontent : m.content with
      | clientGraphHandshakeStart input address =>
        obtain ⟨first, d, e, hfirst, houtput, hinput⟩ :=
          logged.start p.read c input ((at_read hm).mpr ⟨htarget, address, hcontent⟩)
        refine ⟨_, if_pos ?_⟩
        exact hinput ▸ attends.knows first d e hfirst houtput
      | clientGraphHandshakeStop input =>
        obtain ⟨first, d, e, hfirst, -, houtput, hinput⟩ :=
          logged.stop p.read c input ((at_read hm).mpr ⟨htarget, hcontent⟩)
        refine ⟨_, if_pos ?_⟩
        exact hinput ▸ attends.knows first d e hfirst houtput
      | _ => exact ⟨_, rfl⟩
    · rw [if_neg htarget]
      exact ⟨_, rfl⟩

/-- A wait is over. -/
theorem sendConnectionBroadcast (attends : Attends h sent resolved c p) (receiver : ZstURI) :
    Attends h sent resolved c (p.sendConnectionBroadcast receiver) := by
  refine ⟨attends.read, attends.pending, attends.signals, attends.nodup,
    fun id output input hat houtput hid hnew => ?_, attends.knows⟩
  obtain ⟨htimer, hwait⟩ := attends.broadcasting id output input hat houtput hid hnew
  refine ⟨htimer, ?_⟩
  dsimp only [Peer.sendConnectionBroadcast]
  by_cases hreceiver : (h.entities input).uri = receiver
  · rw [← hreceiver, if_pos htimer]
    exact List.mem_cons_self
  · have hkept := (List.mem_erase_of_ne hreceiver).mpr hwait
    split
    · exact List.mem_cons_of_mem _ hkept
    · exact hkept

theorem skip (attends : Attends h sent resolved c p) (address : String) :
    Attends h sent resolved c (p.skip address) :=
  ⟨attends.read, attends.pending, attends.signals, attends.nodup, attends.broadcasting,
    attends.knows⟩

/-- Whoever hears a publisher answers the request to listen to it. -/
theorem connectionHandshakeHandler (attends : Attends h sent resolved c p)
    (logged : Logged h sent resolved) (apart : PerformersApart h) (path : ZstURI) :
    Attends h sent resolved c (p.connectionHandshakeHandler path) ∧
      p.signals ⊆ (p.connectionHandshakeHandler path).signals ∧
      ∀ id, p.Received sent c id path → id ∈ (p.connectionHandshakeHandler path).signals := by
  unfold Peer.connectionHandshakeHandler
  cases hpath : p.pendingPeerConnections path with
  | none =>
    refine ⟨attends, fun id hid => hid, fun id hreceived => ?_⟩
    by_contra hunanswered
    have hkept := (attends.pending path id).mpr ⟨hreceived, hunanswered⟩
    rw [hpath] at hkept
    cases hkept
  | some id =>
    obtain ⟨hreceived, hunanswered⟩ := (attends.pending path id).mp hpath
    have honly : ∀ other, p.Received sent c other path → other = id := fun other hother =>
      listen_unique logged apart hother.2 hreceived.2
    refine ⟨⟨attends.read, fun other i => ?_, fun i hi => ?_, ?_, attends.broadcasting,
      attends.knows⟩, List.subset_append_left _ _, fun other hother => ?_⟩
    · dsimp only
      rw [List.mem_append, List.mem_singleton, not_or]
      by_cases hother : other = path
      · subst hother
        rw [Function.update_self]
        refine iff_of_false (fun hnone => by cases hnone) ?_
        rintro ⟨hi, -, hne⟩
        exact hne (honly i hi)
      · rw [Function.update_of_ne hother, attends.pending]
        refine and_congr_right fun hi => (and_iff_left ?_).symm
        rintro rfl
        -- one message asks for one path only
        obtain ⟨m, hm, -, address, hcontent⟩ := hi.2
        obtain ⟨m', hm', -, address', hcontent'⟩ := hreceived.2
        obtain rfl := Option.some.inj (hm.symm.trans hm')
        rw [hcontent] at hcontent'
        exact hother (Content.clientGraphHandshakeListen.inj hcontent').1
    · rcases List.mem_append.mp hi with hi | hi
      · exact attends.signals i hi
      · exact ⟨path, List.mem_singleton.mp hi ▸ hreceived⟩
    · refine attends.nodup.append (List.nodup_singleton id) ?_
      rw [List.disjoint_singleton]
      exact hunanswered
    · rw [honly other hother]
      exact List.mem_append_right _ (List.mem_singleton_self id)

/-- The stage receiving a signal is nothing that the client would notice. -/
theorem reported (attends : Attends h sent resolved c p) (reported : Nat) :
    Attends h sent resolved c { p with reported } :=
  ⟨attends.read, attends.pending, attends.signals, attends.nodup, attends.broadcasting,
    attends.knows⟩

end Attends

/-! ## Runs -/

/-- The stage keeps its log, and every client attends to what it is asked. -/
structure Served (n : Network) : Prop where
  sound : FindsOwned n.stage.hierarchy
  housed : Housed n.stage.hierarchy
  apart : PerformersApart n.stage.hierarchy
  logged : Logged n.stage.hierarchy n.sent n.resolved
  attends : ∀ c, Attends n.stage.hierarchy n.sent n.resolved c (n.clients c)
  answered : ∀ id ∈ n.resolved, ∃ c, id ∈ (n.clients c).signals

namespace Served

variable {n m : Network}

theorem resolved_lt (served : Served n) {id : ZstMsgID} (hid : id ∈ n.resolved) :
    id < n.sent.length := by
  obtain ⟨c, hsignal⟩ := served.answered id hid
  obtain ⟨path, -, hat⟩ := (served.attends c).signals id hsignal
  exact hat.lt

/-- A step of one client. -/
theorem setClient (served : Served n) {client : Endpoint} {p : Peer}
    (hp : Attends n.stage.hierarchy n.sent n.resolved client p)
    (hsignals : (n.clients client).signals ⊆ p.signals) :
    Served (n.setClient client p) ∧
      ∀ c, (n.clients c).signals ⊆ ((n.setClient client p).clients c).signals := by
  have hkept : ∀ c, (n.clients c).signals ⊆ ((n.setClient client p).clients c).signals := by
    intro c
    dsimp only [Network.setClient]
    by_cases hc : c = client
    · subst hc
      rw [Function.update_self]
      exact hsignals
    · rw [Function.update_of_ne hc]
      exact List.Subset.refl _
  refine ⟨⟨served.sound, served.housed, served.apart, served.logged, fun c => ?_,
    fun id hid => ?_⟩, hkept⟩
  · by_cases hc : c = client
    · subst hc
      dsimp only [Network.setClient]
      rw [Function.update_self]
      exact hp
    · dsimp only [Network.setClient]
      rw [Function.update_of_ne hc]
      exact served.attends c
  · obtain ⟨c, hsignal⟩ := served.answered id hid
    exact ⟨c, hkept c hsignal⟩

/-- A step of the stage. -/
theorem setStage (served : Served n) {t : ZstSession} {more : List Outgoing}
    {resolved : List ZstMsgID} (sound : FindsOwned t.hierarchy)
    (hstays : PerformersStay n.stage.hierarchy t.hierarchy)
    (hsent : t.hierarchy.sent = n.sent ++ more) (hresolved : n.resolved ⊆ resolved)
    (logged : Logged t.hierarchy (n.sent ++ more) resolved)
    (hknows : ∀ id output input c, n.sent.length ≤ id →
      At (n.sent ++ more) id (Connects (output, input)) →
      endpointOf n.stage.hierarchy output = some c →
      (n.stage.hierarchy.entities input).uri ∈ (n.clients c).performers)
    (hanswered : ∀ id ∈ resolved, ∃ c, id ∈ (n.clients c).signals) :
    Served { n with stage := t, resolved } := by
  have hjoined : ∀ e, e ∈ joined t.hierarchy ↔ e ∈ joined n.stage.hierarchy := fun e =>
    hstays.clients.mem_joined
  refine ⟨sound, fun path e hfind => ?_, ⟨fun d hd e he heq => ?_, fun d hd e he heq => ?_⟩, ?_,
    fun c => ?_, hanswered⟩
  · rw [hstays.findEntity] at hfind
    exact hstays.clients.proxies ▸ served.housed path e hfind
  · rw [hstays.clients.endpoint, hstays.clients.endpoint] at heq
    exact served.apart.endpoint d ((hjoined d).mp hd) e ((hjoined e).mp he) heq
  · rw [hstays.uri, hstays.uri] at heq
    exact served.apart.uri d ((hjoined d).mp hd) e ((hjoined e).mp he) heq
  · dsimp only [Network.sent]
    rw [hsent]
    exact logged
  · dsimp only [Network.sent]
    rw [hsent]
    exact (served.attends c).grow hstays hresolved fun id output input hid hat houtput =>
      hknows id output input c hid hat houtput

/-- The stage receives a request. -/
theorem receiveRequest (served : Served n) {msg : ZstStageMessage}
    (hrequest : ConnectReplies.IsConnectRequest msg.content)
    (hclear : ∀ pair ∈ starts n.stage msg,
      ¬ n.UnderWay pair.1 pair.2 ∧ n.KnowsSubscriber pair.1 pair.2)
    (hrun : n.receiveRequest msg = .ok m) :
    Served m ∧ ∀ c, (n.clients c).signals ⊆ (m.clients c).signals := by
  obtain ⟨t, hreceive, hrun⟩ := Library.bind_ok.mp hrun
  obtain rfl := Except.ok.inj hrun
  refine ⟨?_, fun c => List.Subset.refl _⟩
  have hsound : FindsOwned t.hierarchy := served.sound.step (settled_request hrequest) hreceive
  obtain ⟨hstays, hsent⟩ := receive_speaks served.sound served.housed hrequest hreceive
  rcases hsent with
    ⟨-, more, hplain, hsent⟩ | ⟨output, input, action, first, hstarts, hout, hin, hnew, hplain, hsent⟩
  · refine served.setStage hsound hstays hsent (List.Subset.refl _)
      ((served.logged.plain hplain).stays hstays) (fun id output input c hid hat _ => ?_)
      served.answered
    rcases at_append.mp hat with hat | ⟨j, -, hj⟩
    · exact absurd hat.lt (Nat.not_lt.mpr hid)
    · exact absurd hj (not_at fun m hm => (hplain m hm).not_connects _)
  · obtain ⟨hunder, hknows⟩ := hclear (output, input) hstarts
    obtain ⟨publisher, hpublisher⟩ := (mem_joined_iff.mp hout).2
    obtain ⟨subscriber, hsubscriber⟩ := (mem_joined_iff.mp hin).2
    obtain ⟨listen, start, hpair, hlisten, hwaits, hstart, hnone⟩ :=
      handshakeMessages_pair hpublisher hsubscriber hnew
    rw [hpair] at hsent
    have hconnects : ∀ pair, Connects pair listen ↔ pair = (output, input) := by
      intro pair
      constructor
      · rintro ⟨follow, hfollow⟩
        rw [hwaits] at hfollow
        cases hfollow
        rfl
      · rintro rfl
        exact ⟨action, hwaits⟩
    have hfresh : ∀ id, ¬ At (n.sent ++ first) id (Connects (output, input)) := by
      intro id hat
      rcases at_append.mp hat with hat | ⟨j, -, hj⟩
      · by_cases hresolved : id ∈ n.resolved
        · have hconnected := served.logged.connected id output input hat hresolved
          exact hnew (handshakeMessages_connected hconnected action)
        · exact hunder ⟨id, List.mem_range.mpr hat.lt, hresolved, connecting_iff.mpr hat⟩
      · exact absurd hj (not_at fun m hm => (hplain m hm).not_connects _)
    have hlogged : Logged n.stage.hierarchy (n.sent ++ first ++ [listen, start]) n.resolved := by
      refine (served.logged.plain hplain).shakes hout hin hpublisher hsubscriber hlisten hconnects
        hstart hnone hfresh fun id hid => ?_
      rw [List.length_append]
      exact Nat.lt_add_right _ (served.resolved_lt hid)
    rw [List.append_assoc] at hsent hlogged
    refine served.setStage hsound hstays hsent (List.Subset.refl _) (hlogged.stays hstays)
      (fun id d e c hid hat hd => ?_) served.answered
    rw [← List.append_assoc] at hat
    rcases at_pair.mp hat with hat | ⟨-, hother⟩ | ⟨-, follow, hfollow⟩
    · rcases at_append.mp hat with hat | ⟨j, -, hj⟩
      · exact absurd hat.lt (Nat.not_lt.mpr hid)
      · exact absurd hj (not_at fun m hm => (hplain m hm).not_connects _)
    · cases (hconnects _).mp hother
      exact hknows c hd
    · rw [hnone] at hfollow
      cases hfollow

/-- The stage receives a signal that a client has sent. -/
theorem receiveSignal (served : Served n) {id : ZstMsgID} {client : Endpoint}
    (hsignal : id ∈ (n.clients client).signals) (hrun : n.receiveSignal id = .ok m) :
    Served m ∧ ∀ c, (n.clients c).signals ⊆ (m.clients c).signals := by
  unfold Network.receiveSignal at hrun
  split at hrun
  · obtain rfl := Except.ok.inj hrun
    exact ⟨served, fun c => List.Subset.refl _⟩
  obtain ⟨t, hrespond, hrun⟩ := Library.bind_ok.mp hrun
  obtain rfl := Except.ok.inj hrun
  refine ⟨?_, fun c => List.Subset.refl _⟩
  obtain ⟨path, -, hlisten⟩ := (served.attends client).signals id hsignal
  obtain ⟨output, input, hconnects, -, -⟩ := served.logged.listen id client path hlisten
  obtain ⟨hout, -⟩ := served.logged.joins id output input hconnects
  obtain ⟨publisher, hpublisher⟩ := (mem_joined_iff.mp hout).2
  obtain ⟨hstays, hconnected, stop, last, hsent, hstop, hnone, hplain⟩ :=
    respond_stops (connecting_iff.mpr hconnects) hpublisher hrespond
  have hresolves : Logged t.hierarchy n.sent (id :: n.resolved) :=
    (served.logged.stays hstays).resolves hconnects hconnected
  have hstops : Logged t.hierarchy (n.sent ++ [stop]) (id :: n.resolved) :=
    hresolves.stops hconnects List.mem_cons_self
      ((hstays.clients.endpoint output).trans hpublisher) (by rw [hstays.uri]; exact hstop) hnone
  have hlogged := hstops.plain hplain
  rw [List.append_assoc, List.singleton_append] at hlogged
  have hsettled : KeepsPlaces n.stage (.respond id (some (.signalMessage .ok))) := trivial
  refine served.setStage (served.sound.step hsettled hrespond) hstays hsent (List.subset_cons_self _ _)
    hlogged (fun j d e c hj hat _ => ?_) fun j hj => ?_
  · rcases at_append.mp hat with hat | ⟨i, -, hi⟩
    · exact absurd hat.lt (Nat.not_lt.mpr hj)
    · refine absurd hi (not_at fun m hm => ?_)
      rcases List.mem_cons.mp hm with rfl | hm
      · rintro ⟨action, haction⟩
        rw [hnone] at haction
        cases haction
      · exact (hplain m hm).not_connects _
  · rcases List.mem_cons.mp hj with rfl | hj
    · exact ⟨client, hsignal⟩
    · exact served.answered j hj

theorem step (served : Served n) {event : HandshakeEvent} (hclear : n.FreshHandshake event)
    (hstep : n.step event = .ok m) :
    Served m ∧ ∀ c, (n.clients c).signals ⊆ (m.clients c).signals := by
  cases event with
  | createCable path id origin =>
    have hrequest : ConnectReplies.IsConnectRequest (.cableCreateRequest path) := trivial
    exact served.receiveRequest hrequest (hclear _ rfl) hstep
  | observe path id origin =>
    have hrequest : ConnectReplies.IsConnectRequest (.entityObserveRequest path) := trivial
    exact served.receiveRequest hrequest (hclear _ rfl) hstep
  | deliver client =>
    obtain ⟨p, htake, hstep⟩ := Library.bind_ok.mp hstep
    obtain rfl := Except.ok.inj hstep
    obtain ⟨hp, hsignals⟩ := (served.attends client).take served.logged served.apart htake
    exact served.setClient hp (hsignals ▸ List.Subset.refl _)
  | timer client receiver =>
    obtain rfl := Except.ok.inj hstep
    split
    · have hp := (served.attends client).sendConnectionBroadcast receiver
      obtain ⟨hserved, hkept⟩ := served.setClient hp (List.Subset.refl _)
      exact ⟨⟨hserved.sound, hserved.housed, hserved.apart, hserved.logged, hserved.attends,
        hserved.answered⟩, hkept⟩
    · exact ⟨served, fun c => List.Subset.refl _⟩
  | hear client address =>
    obtain rfl := Except.ok.inj hstep
    split
    · rename_i path _
      obtain ⟨hp, hsignals, -⟩ := ((served.attends client).skip address).connectionHandshakeHandler
        served.logged served.apart path
      exact served.setClient hp hsignals
    · exact ⟨served, fun c => List.Subset.refl _⟩
  | miss client address =>
    obtain rfl := Except.ok.inj hstep
    split
    · exact served.setClient ((served.attends client).skip address) (List.Subset.refl _)
    · exact ⟨served, fun c => List.Subset.refl _⟩
  | respond client =>
    dsimp only [Network.step] at hstep
    split at hstep
    · rename_i id hid
      have hmem := List.mem_of_getElem? hid
      obtain ⟨hserved, hkept⟩ := served.setClient
        ((served.attends client).reported ((n.clients client).reported + 1)) (List.Subset.refl _)
      obtain ⟨hm, hlater⟩ := hserved.receiveSignal (hkept client hmem) hstep
      exact ⟨hm, fun c => List.Subset.trans (hkept c) (hlater c)⟩
    · obtain rfl := Except.ok.inj hstep
      exact ⟨served, fun c => List.Subset.refl _⟩

theorem run {events : List HandshakeEvent} (served : Served n)
    (hclear : Library.Along Network.step Network.FreshHandshake n events)
    (hrun : Library.run Network.step n events = .ok m) :
    Served m ∧ ∀ c, (n.clients c).signals ⊆ (m.clients c).signals := by
  have hstep : ∀ (s : Network) (event : HandshakeEvent) (t : Network),
      (Served s ∧ ∀ c, (n.clients c).signals ⊆ (s.clients c).signals) → s.FreshHandshake event →
      s.step event = .ok t → Served t ∧ ∀ c, (n.clients c).signals ⊆ (t.clients c).signals := by
    intro s event t hs hevent hstep
    obtain ⟨ht, hkept⟩ := hs.1.step hevent hstep
    exact ⟨ht, fun c => List.Subset.trans (hs.2 c) (hkept c)⟩
  exact Library.run_invariant hstep ⟨served, fun c => List.Subset.refl _⟩ hclear hrun

/-- Before any handshake there is nothing to attend to. -/
theorem of_quiet (quiet : n.NoHandshakeYet) : Served n := by
  have hconnects : ∀ id pair, ¬ At n.sent id (Connects pair) := by
    intro id pair hat
    have hcallback := quiet.callbacks id
    rw [connecting_iff.mpr hat] at hcallback
    cases hcallback
  have hlisten : ∀ id c path, ¬ At n.sent id (Listen c path) := by
    rintro id c path ⟨m, hm, -, address, hcontent⟩
    exact quiet.sent m (List.mem_of_getElem? hm) (by rw [IsHandshake, hcontent]; trivial)
  have hstart : ∀ id c path, ¬ At n.sent id (Start c path) := by
    rintro id c path ⟨m, hm, -, address, hcontent⟩
    exact quiet.sent m (List.mem_of_getElem? hm) (by rw [IsHandshake, hcontent]; trivial)
  have hstop : ∀ id c path, ¬ At n.sent id (Stop c path) := by
    rintro id c path ⟨m, hm, -, hcontent⟩
    exact quiet.sent m (List.mem_of_getElem? hm) (by rw [IsHandshake, hcontent]; trivial)
  refine ⟨quiet.sound, quiet.housed, quiet.apart, ?_, fun c => ?_, ?_⟩
  · exact ⟨fun id _ pair hat => absurd hat (hconnects id pair),
      fun id _ _ hat => absurd hat (hconnects id _), fun id _ _ hat => absurd hat (hconnects id _),
      fun id c path hat => absurd hat (hlisten id c path),
      fun id c path hat => absurd hat (hstart id c path),
      fun id c path hat => absurd hat (hstop id c path),
      fun id _ _ hat => absurd hat (hconnects id _)⟩
  · refine ⟨Nat.le_of_eq (quiet.read c), fun path id => ?_, ?_, ?_,
      fun id _ _ hat => absurd hat (hconnects id _), fun id _ _ hat => absurd hat (hconnects id _)⟩
    · rw [quiet.pending]
      exact iff_of_false (fun hnone => by cases hnone) fun hreceived =>
        hlisten id c path hreceived.1.2
    · rw [quiet.signals]
      exact fun id hid => absurd hid List.not_mem_nil
    · rw [quiet.signals]
      exact List.nodup_nil
  · rw [quiet.resolved]
    exact fun id hid => absurd hid List.not_mem_nil

/-- The publisher of a request that is not answered broadcasts to its subscriber. -/
theorem broadcasts (served : Served n) {id : ZstMsgID} {output input : EntityId}
    {client publisher : Endpoint} {path : ZstURI}
    (hconnecting : connecting n.stage.hierarchy id = some (output, input))
    (hreceived : (n.clients client).Received n.sent client id path)
    (hunanswered : id ∉ (n.clients client).signals)
    (hpublisher : endpointOf n.stage.hierarchy output = some publisher) :
    n.BroadcastsTo publisher (n.stage.hierarchy.entities input).uri := by
  have hconnects := connecting_iff.mp hconnecting
  by_cases hread : id + 1 < (n.clients publisher).read
  · refine .inl ((served.attends publisher).broadcasting id output input hconnects hpublisher hread
      fun hresolved => ?_)
    -- whoever has answered was asked, and one message asks one client
    obtain ⟨c, hsignal⟩ := served.answered id hresolved
    obtain ⟨other, -, m, hm, htarget, -⟩ := (served.attends c).signals id hsignal
    obtain ⟨m', hm', htarget', -⟩ := hreceived.2
    obtain rfl := Option.some.inj (hm.symm.trans hm')
    rw [← htarget', htarget] at hunanswered
    exact hunanswered hsignal
  · exact .inr ⟨id + 1, Nat.le_of_not_lt hread,
      (served.logged.asks id output input hconnects).2 publisher hpublisher⟩

/-- Whoever hears the publisher of a request has answered it. -/
theorem hears (served : Served n) {client : Endpoint} {address : String} {path : ZstURI}
    {id : ZstMsgID} (hnext : (n.clients client).next address n.published = some path)
    (hreceived : (n.clients client).Received n.sent client id path)
    (hstep : n.step (.hear client address) = .ok m) : id ∈ (m.clients client).signals := by
  dsimp only [Network.step] at hstep
  rw [hnext] at hstep
  obtain rfl := Except.ok.inj hstep
  obtain ⟨-, -, hanswers⟩ := ((served.attends client).skip address).connectionHandshakeHandler
    served.logged served.apart path
  dsimp only [Network.setClient]
  rw [Function.update_self]
  exact hanswers id hreceived

end Served

/-- As long as handshakes of the same performers do not overlap, and the publishers know
their subscribers, every request to listen is answered once, and the publishers broadcast
until then. -/
theorem answers_of_clear {start n : Network} {events : List HandshakeEvent}
    (quiet : start.NoHandshakeYet)
    (hclear : Library.Along Network.step Network.FreshHandshake start events)
    (hrun : Library.run Network.step start events = .ok n) :
    Network.AnswersHandshakes start events n := by
  have hstart := Served.of_quiet quiet
  obtain ⟨served, -⟩ := hstart.run hclear hrun
  refine ⟨?_, fun id output input client path publisher hconnecting hreceived hunanswered
    hpublisher => served.broadcasts hconnecting hreceived hunanswered hpublisher,
    fun client => (served.attends client).takes served.logged n.published⟩
  rintro first client address last s path id rfl hfirst hnext hreceived
  obtain ⟨hbefore, hafter⟩ := Library.along_append.mp hclear
  obtain ⟨hs, -⟩ := hstart.run hbefore hfirst
  obtain ⟨u, hu, hlater⟩ := Library.run_append_ok.mp hrun
  obtain rfl := Except.ok.inj (hu.symm.trans hfirst)
  obtain ⟨v, hstep, hlast⟩ := Library.run_cons_ok.mp hlater
  obtain ⟨hevent, hrest⟩ := hafter u hfirst
  obtain ⟨hv, -⟩ := hs.step hevent hstep
  obtain ⟨-, hkept⟩ := hv.run (hrest v hstep) hlast
  have hanswered := hkept client (hs.hears hnext hreceived hstep)
  exact List.count_eq_one_of_mem (served.attends client).nodup hanswered

/-! ## Two clients -/

theorem sound_ofList {entities : List Entity} (hproxy : ∀ x ∈ entities, x.isProxy = true)
    (hnamed : ∀ x ∈ entities, x.uri ≠ []) :
    FindsOwned (ofList entities) ∧ Housed (ofList entities) := by
  have hproxies : ∀ e, e ∈ (ofList entities).proxies ↔ e < entities.length := by
    intro e
    refine List.mem_filter.trans ⟨fun he => List.mem_range.mp he.1, fun he => ?_⟩
    refine ⟨List.mem_range.mpr he, ?_⟩
    rw [List.getElem?_eq_getElem he]
    exact hproxy _ (List.getElem_mem he)
  have hfind : ∀ q e, (ofList entities).findEntity q = some e →
      e < entities.length ∧ ((ofList entities).entities e).uri = q := fun q e hq =>
    ZstHierarchy.ofList_lookup hq
  have hlisted : ∀ e (he : e < entities.length), (ofList entities).entities e = entities[e] :=
    fun e he => ZstHierarchy.ofList_entities (List.getElem?_eq_getElem he)
  refine ⟨⟨rfl, ⟨fun q e hq => (hfind q e hq).2, fun q e hq => (hfind q e hq).1, ?_⟩,
    ⟨List.Nodup.filter _ List.nodup_range, fun e he => (hproxies e).mp he, fun e he => ?_⟩,
    fun e => ?_⟩, fun q e hq => (hproxies e).mpr (hfind q e hq).1⟩
  · by_contra hsome
    obtain ⟨e, he⟩ := Option.ne_none_iff_exists'.mp hsome
    obtain ⟨hlt, huri⟩ := hfind [] e he
    rw [hlisted e hlt] at huri
    exact hnamed _ (List.getElem_mem hlt) huri
  · have hlt := (hproxies e).mp he
    rw [hlisted e hlt]
    exact hproxy _ (List.getElem_mem hlt)
  · rw [hproxies]
    exact decide_eq_true_iff

/-- The clients `ada` at 1 and `bob` at 2, who know each other. -/
def acquainted : Network where
  stage := ConnectReplies.twoClients []
  clients c :=
    if c = 1 then { path := ["ada"], address := "", performers := [["bob"]] }
    else { path := ["bob"], address := "bob", performers := [["ada"]] }

theorem acquainted_quiet : acquainted.NoHandshakeYet := by
  obtain ⟨hsound, housed⟩ :
      FindsOwned acquainted.stage.hierarchy ∧ Housed acquainted.stage.hierarchy :=
    sound_ofList (by decide) (by decide)
  refine ⟨hsound, housed, ⟨by decide, by decide⟩, fun m hm => absurd hm List.not_mem_nil,
    fun id => rfl, rfl, fun c => ?_, fun c => ?_, fun c path => ?_⟩
  · dsimp only [acquainted]
    split <;> rfl
  · dsimp only [acquainted]
    split <;> rfl
  · dsimp only [acquainted]
    split <;> rfl

/-- `bob` observes `ada`. She broadcasts, he answers, and she is told to stop. -/
def observing : List HandshakeEvent :=
  [.observe ["ada"] 5 2, .deliver 2, .deliver 2, .deliver 1, .deliver 1, .timer 1 ["bob"],
    .hear 2 "", .respond 2, .deliver 1, .timer 1 ["bob"]]

theorem answers_of_clear_observing : ∃ n, Library.run Network.step acquainted observing = .ok n ∧
    (n.clients 2).signals = [0] ∧ (n.clients 1).waits = [] ∧
    Network.AnswersHandshakes acquainted observing n :=
  ⟨_, rfl, by decide, by decide, answers_of_clear acquainted_quiet (by decide) rfl⟩

/-- `bob` asks for a cable from `ada` while the handshake for his first request is under
way. -/
def overlapping : List HandshakeEvent :=
  [.observe ["ada"] 5 2, .createCable ⟨["bob", "in"], ["ada", "out"]⟩ 6 2, .deliver 2,
    .deliver 2, .deliver 2, .deliver 2, .deliver 1, .deliver 1, .timer 1 ["bob"], .hear 2 ""]

/-- The second request to listen takes the place of the first one, which is never answered. -/
theorem overlapping_not_answers : acquainted.NoHandshakeYet ∧
    ∃ n, Library.run Network.step acquainted overlapping = .ok n ∧
      ¬ Network.AnswersHandshakes acquainted overlapping n := by
  refine ⟨acquainted_quiet, _, rfl, fun hanswers => ?_⟩
  have hcount := hanswers.answered overlapping.dropLast 2 "" [] _ ["ada"] 0 rfl rfl rfl
    ⟨by decide, _, rfl, rfl, "", rfl⟩
  exact absurd hcount (by decide)

end Showtime.Handshakes
