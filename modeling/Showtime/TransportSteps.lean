import Showtime.Transport
/-!
# What the steps of a transport keep

The tables agree with the points at which the requests' threads are, a step moves
a request only the way `blocking_send` goes, and every message has its own number.
-/

namespace Showtime.TransportSteps

open Library Transport

/-! ## What a request says about the tables -/

/-- The calls of the request's `on_recv_response`. -/
def responsesTo (s : Transport) (id : ZstMsgID) : List (Option ZstMessage) :=
  (s.responses.filter (·.1 == id)).map (·.2)

/-- The calls that the thread has made when it is at this point. -/
def calls (r : Request) : List (Option ZstMessage) :=
  if r.phase = .registered ∨ r.phase = .waiting ∨ r.phase = .received then [] else [r.msg]

/-- What holds of a request and of the entries of the tables under its id. -/
structure RequestConsistent (s : Transport) (id : ZstMsgID) (r : Request) : Prop where
  promised : r.phase ≠ .finished → id ∈ s.responsePromises
  dead : id ∈ s.deadPromises → r.phase = .finished
  broken : r.future = .brokenPromise → r.phase = .finished
  matching : ∀ m, r.future = .value m → m.id = id
  held : ∀ m, r.msg = some m → r.future = .value m
  early : r.phase = .registered ∨ r.phase = .waiting → r.msg = none
  responses : responsesTo s id = calls r

structure RequestsConsistent (s : Transport) : Prop where
  request : ∀ id r, s.requests id = some r → RequestConsistent s id r
  fresh : ∀ id, s.requests id = none → responsesTo s id = [] ∧ id ∉ s.deadPromises

theorem sound_opened : RequestsConsistent {} where
  request _ _ h := by cases h
  fresh _ _ := ⟨rfl, List.not_mem_nil⟩

/-! ## Frames -/

/-- The step is about no request. -/
structure SameRequests (s t : Transport) : Prop where
  requests : t.requests = s.requests
  responses : t.responses = s.responses
  responsePromises : t.responsePromises = s.responsePromises
  deadPromises : t.deadPromises = s.deadPromises

/-- The step is about no message. -/
structure SameMessages (s t : Transport) : Prop where
  received : t.received = s.received
  dispatchEvents : t.dispatchEvents = s.dispatchEvents
  processing : t.processing = s.processing
  hasPromise : t.hasPromise = s.hasPromise
  ownedMessages : t.ownedMessages = s.ownedMessages
  cleanups : t.cleanups = s.cleanups

/-- The steps of the application, and of `join_on_beacon` before it releases. -/
def isOutside : TransportEvent → Bool
  | .autoJoin _ | .joinTimeout _ | .eraseJoin _ | .setConnected _ | .serverLost _ => true
  | _ => false

section Frames

variable {s t u : Transport}

/-- The thread that has a beacon's message keeps it while another join moves on. -/
theorem satisfied_update {joins : String → Option JoinPhase} {name other : String}
    {phase : Option JoinPhase} {m : ZstMessage} (hname : joins name ≠ some (.satisfied m))
    (h : joins other = some (.satisfied m)) :
    Function.update joins name phase other = some (.satisfied m) := by
  rw [Function.update_of_ne, h]
  rintro rfl
  exact hname h

theorem same_of_outside {event : TransportEvent} (hevent : isOutside event)
    (hstep : s.step event = .ok t) : SameRequests s t ∧ SameMessages s t ∧
      ∀ name m, s.joinRequests name = some (.satisfied m) →
        t.joinRequests name = some (.satisfied m) := by
  cases event with
  | autoJoin name =>
    simp only [Transport.step, autoJoin] at hstep
    split at hstep
    case h_2 => cases hstep
    rename_i hname
    obtain rfl := Except.ok.inj hstep
    refine ⟨⟨rfl, rfl, rfl, rfl⟩, ⟨rfl, rfl, rfl, rfl, rfl, rfl⟩, fun other m => satisfied_update ?_⟩
    rw [hname]
    exact fun h => (by cases h)
  | joinTimeout name =>
    simp only [Transport.step, joinTimeout] at hstep
    split at hstep
    case h_2 => cases hstep
    rename_i hname
    obtain rfl := Except.ok.inj hstep
    refine ⟨⟨rfl, rfl, rfl, rfl⟩, ⟨rfl, rfl, rfl, rfl, rfl, rfl⟩, fun other m => satisfied_update ?_⟩
    rw [hname]
    exact fun h => (by cases h)
  | eraseJoin name =>
    simp only [Transport.step, eraseJoin] at hstep
    split at hstep
    case h_2 => cases hstep
    rename_i hname
    obtain rfl := Except.ok.inj hstep
    refine ⟨⟨rfl, rfl, rfl, rfl⟩, ⟨rfl, rfl, rfl, rfl, rfl, rfl⟩, fun other m => satisfied_update ?_⟩
    rw [hname]
    exact fun h => (by cases h)
  | setConnected value =>
    obtain rfl := Except.ok.inj hstep
    exact ⟨⟨rfl, rfl, rfl, rfl⟩, ⟨rfl, rfl, rfl, rfl, rfl, rfl⟩, fun _ _ h => h⟩
  | serverLost server =>
    obtain rfl := Except.ok.inj hstep
    exact ⟨⟨rfl, rfl, rfl, rfl⟩, ⟨rfl, rfl, rfl, rfl, rfl, rfl⟩, fun _ _ h => h⟩
  | registerResponse id | sendMessage id | receive id | beacon id | dispatch | setValue | get id
  | timeout id | respond id | release id | enqueueResolved id | cleanup | joinOnBeacon id =>
    cases hevent

theorem SameRequests.trans (hst : SameRequests s t) (htu : SameRequests t u) :
    SameRequests s u where
  requests := htu.requests.trans hst.requests
  responses := htu.responses.trans hst.responses
  responsePromises := htu.responsePromises.trans hst.responsePromises
  deadPromises := htu.deadPromises.trans hst.deadPromises

theorem SameRequests.responsesTo (h : SameRequests s t) (id : ZstMsgID) :
    TransportSteps.responsesTo t id = TransportSteps.responsesTo s id := by
  unfold TransportSteps.responsesTo
  rw [h.responses]

theorem sound_of_same (hs : RequestsConsistent s) (h : SameRequests s t) :
    RequestsConsistent t where
  request id r hr := by
    rw [h.requests] at hr
    obtain ⟨hpromised, hdead, hbroken, hmatching, hheld, hearly, hresponses⟩ := hs.request id r hr
    refine ⟨?_, ?_, hbroken, hmatching, hheld, hearly, (h.responsesTo id).trans hresponses⟩
    · rwa [h.responsePromises]
    · rwa [h.deadPromises]
  fresh id hid := by
    rw [h.requests] at hid
    rw [h.responsesTo id, h.deadPromises]
    exact hs.fresh id hid

theorem sameRequests_releaseOwnedMessage (s : Transport) (msg : ZstMessage) :
    SameRequests s (s.releaseOwnedMessage msg) := by
  unfold releaseOwnedMessage
  split
  · exact ⟨rfl, rfl, rfl, rfl⟩
  · exact ⟨rfl, rfl, rfl, rfl⟩

theorem sameRequests_serverDiscoveryHandler (s : Transport) (msg : ZstMessage)
    (server : ZstServerAddress) : SameRequests s (s.serverDiscoveryHandler msg server) := by
  unfold serverDiscoveryHandler
  split
  · exact ⟨rfl, rfl, rfl, rfl⟩
  · dsimp only
    split
    · exact ⟨rfl, rfl, rfl, rfl⟩
    · exact ⟨rfl, rfl, rfl, rfl⟩

theorem sameRequests_completeReceiveEvent (s : Transport) (msg : ZstMessage) :
    SameRequests s (s.completeReceiveEvent msg) := by
  have hadaptors : SameRequests s
      (msg.server.elim s fun server => s.serverDiscoveryHandler msg server) := by
    cases msg.server with
    | none => exact ⟨rfl, rfl, rfl, rfl⟩
    | some server => exact sameRequests_serverDiscoveryHandler s msg server
  unfold completeReceiveEvent
  dsimp only
  split
  · exact hadaptors
  · refine hadaptors.trans ?_
    unfold processMessageResponse
    split
    · exact ⟨rfl, rfl, rfl, rfl⟩
    · exact ⟨rfl, rfl, rfl, rfl⟩

/-- A step about one request leaves the entries of the others alone. -/
theorem sound_update (hs : RequestsConsistent s) {id : ZstMsgID} {r : Request}
    (hrequests : t.requests = Function.update s.requests id (some r))
    (hresponses : ∀ i, i ≠ id → responsesTo t i = responsesTo s i)
    (hpromises : ∀ i, i ≠ id → i ∈ s.responsePromises → i ∈ t.responsePromises)
    (hdead : ∀ i, i ≠ id → i ∈ t.deadPromises → i ∈ s.deadPromises)
    (hr : RequestConsistent t id r) : RequestsConsistent t where
  request i q hq := by
    by_cases hi : i = id
    · subst hi
      rw [hrequests, Function.update_self] at hq
      obtain rfl := Option.some.inj hq
      exact hr
    · rw [hrequests, Function.update_of_ne hi] at hq
      have h := hs.request i q hq
      exact ⟨fun hphase => hpromises i hi (h.promised hphase), fun hmem => h.dead (hdead i hi hmem),
        h.broken, h.matching, h.held, h.early, (hresponses i hi).trans h.responses⟩
  fresh i hnone := by
    by_cases hi : i = id
    · subst hi
      rw [hrequests, Function.update_self] at hnone
      cases hnone
    · rw [hrequests, Function.update_of_ne hi] at hnone
      rw [hresponses i hi]
      exact ⟨(hs.fresh i hnone).1, fun hmem => (hs.fresh i hnone).2 (hdead i hi hmem)⟩

/-- A step that moves a request on and changes nothing else. -/
theorem sound_setRequest (hs : RequestsConsistent s) {id : ZstMsgID} {r : Request}
    (hr : RequestConsistent (s.setRequest id r) id r) : RequestsConsistent (s.setRequest id r) :=
  sound_update hs rfl (fun _ _ => rfl) (fun _ _ h => h) (fun _ _ h => h) hr

theorem responsesTo_append {id : ZstMsgID} {msg : Option ZstMessage}
    (hresponses : t.responses = s.responses ++ [(id, msg)]) (i : ZstMsgID) :
    responsesTo t i = responsesTo s i ++ if i = id then [msg] else [] := by
  unfold responsesTo
  rw [hresponses, List.filter_append, List.map_append]
  by_cases hi : i = id
  · subst hi
    simp
  · have hne : id ≠ i := fun h => hi h.symm
    simp [hi, hne]

end Frames

/-! ## The steps of a request -/

section Steps

variable {s t : Transport} {id : ZstMsgID}

theorem sound_registerResponse (hs : RequestsConsistent s) (hstep : s.registerResponse id = .ok t) :
    RequestsConsistent t := by
  unfold registerResponse at hstep
  split at hstep
  case h_2 => cases hstep
  rename_i hnone
  obtain rfl := Except.ok.inj hstep
  obtain ⟨hresponses, hdead⟩ := hs.fresh id hnone
  refine sound_update hs rfl (fun _ _ => rfl) (fun _ _ h => List.mem_cons_of_mem _ h)
    (fun _ _ h => h) ?_
  exact ⟨fun _ => List.mem_cons_self, fun hmem => absurd hmem hdead, fun h => (by cases h),
    fun _ h => (by cases h), fun _ h => (by cases h), fun _ => rfl, hresponses⟩

theorem sound_sendMessage (hs : RequestsConsistent s) (hstep : s.sendMessage id = .ok t) :
    RequestsConsistent t := by
  unfold sendMessage at hstep
  split at hstep
  case h_2 => cases hstep
  rename_i future msg hrequest
  obtain rfl := Except.ok.inj hstep
  have h := hs.request id _ hrequest
  refine sound_setRequest hs ⟨fun _ => h.promised SendPhase.noConfusion, fun hmem => ?_, fun hb => ?_,
    h.matching, h.held, fun _ => h.early (Or.inl rfl), h.responses⟩
  · cases h.dead hmem
  · cases h.broken hb

theorem sound_get (hs : RequestsConsistent s) (hstep : s.get id = .ok t) :
    RequestsConsistent t := by
  unfold Transport.get at hstep
  split at hstep
  case h_2 => cases hstep
  rename_i m msg hrequest
  obtain rfl := Except.ok.inj hstep
  have h := hs.request id _ hrequest
  refine sound_setRequest hs ⟨fun _ => h.promised SendPhase.noConfusion, fun hmem => ?_,
    fun hb => (by cases hb), h.matching, fun _ hm => ?_, fun hphase => ?_, h.responses⟩
  · cases h.dead hmem
  · rw [Option.some.inj hm]
  · rcases hphase with hphase | hphase <;> cases hphase

theorem sound_timeout (hs : RequestsConsistent s) (hstep : s.timeout id = .ok t) :
    RequestsConsistent t := by
  unfold timeout at hstep
  split at hstep
  case h_2 => cases hstep
  rename_i msg hrequest
  obtain rfl := Except.ok.inj hstep
  have h := hs.request id _ hrequest
  refine sound_setRequest hs ⟨fun _ => h.promised SendPhase.noConfusion, fun hmem => ?_,
    fun hb => (by cases hb), h.matching, fun _ hm => (by cases hm), fun hphase => ?_, h.responses⟩
  · cases h.dead hmem
  · rcases hphase with hphase | hphase <;> cases hphase

theorem sound_respond (hs : RequestsConsistent s) (hstep : s.respond id = .ok t) :
    RequestsConsistent t := by
  unfold respond at hstep
  split at hstep
  case h_2 => cases hstep
  rename_i future msg hrequest
  obtain rfl := Except.ok.inj hstep
  have h := hs.request id _ hrequest
  have hresponses : ∀ i, responsesTo ({ s with responses := s.responses ++ [(id, msg)] }.setRequest id
      ⟨future, .responded, msg⟩) i = responsesTo s i ++ if i = id then [msg] else [] :=
    fun i => responsesTo_append rfl i
  refine sound_update hs rfl (fun i hi => ?_) (fun _ _ h => h) (fun _ _ h => h) ⟨fun _ =>
    h.promised SendPhase.noConfusion, fun hmem => ?_, fun hb => ?_, h.matching, h.held,
    fun hphase => ?_, ?_⟩
  · rw [hresponses i, if_neg hi, List.append_nil]
  · cases h.dead hmem
  · cases h.broken hb
  · rcases hphase with hphase | hphase <;> cases hphase
  · rw [hresponses id, if_pos rfl, h.responses]
    rfl

theorem sound_released (hs : RequestsConsistent s) {future : SharedState} {msg : Option ZstMessage}
    (hrequest : s.requests id = some ⟨future, .responded, msg⟩) :
    RequestsConsistent (s.setRequest id ⟨future, .released, msg⟩) := by
  have h := hs.request id _ hrequest
  refine sound_setRequest hs ⟨fun _ => h.promised SendPhase.noConfusion, fun hmem => ?_, fun hb => ?_,
    h.matching, h.held, fun hphase => ?_, h.responses⟩
  · cases h.dead hmem
  · cases h.broken hb
  · rcases hphase with hphase | hphase <;> cases hphase

theorem sound_release (hs : RequestsConsistent s) (hstep : s.release id = .ok t) :
    RequestsConsistent t := by
  unfold release at hstep
  split at hstep
  case h_3 => cases hstep
  · rename_i hrequest
    obtain rfl := Except.ok.inj hstep
    exact sound_released hs hrequest
  · rename_i future msg hrequest
    obtain rfl := Except.ok.inj hstep
    split
    · exact sound_of_same (sound_released hs hrequest) (sameRequests_releaseOwnedMessage _ msg)
    · exact sound_released hs hrequest

theorem sound_enqueueResolved (hs : RequestsConsistent s) (hstep : s.enqueueResolved id = .ok t) :
    RequestsConsistent t := by
  unfold enqueueResolved at hstep
  split at hstep
  case h_2 => cases hstep
  rename_i future msg hrequest
  obtain rfl := Except.ok.inj hstep
  have h := hs.request id _ hrequest
  refine sound_update hs rfl (fun _ _ => rfl) (fun _ _ h => h) (fun i hi hmem => ?_)
    ⟨fun hne => absurd rfl hne, fun _ => rfl, fun _ => rfl, h.matching, h.held, fun hphase => ?_,
      h.responses⟩
  · rcases List.mem_append.mp hmem with hmem | hmem
    · exact hmem
    · exact absurd (List.mem_singleton.mp hmem) hi
  · rcases hphase with hphase | hphase <;> cases hphase

/-! ## The steps of the dispatching thread -/

theorem sound_setValue (hs : RequestsConsistent s) (hstep : s.setValue = .ok t) :
    RequestsConsistent t := by
  unfold setValue at hstep
  split at hstep
  case h_2 => cases hstep
  rename_i m hprocessing
  obtain rfl := Except.ok.inj hstep
  cases hrequest : s.requests m.id with
  | none =>
    have hsame : Function.update s.requests m.id (Option.map (satisfy m) none) = s.requests := by
      rw [Option.map_none, ← hrequest, Function.update_eq_self]
    exact sound_of_same hs ⟨hsame, rfl, rfl, rfl⟩
  | some r =>
    have h := hs.request m.id r hrequest
    refine sound_update hs rfl (fun _ _ => rfl) (fun _ _ h => h) (fun _ _ h => h) ?_
    unfold satisfy
    split
    · rename_i hpending
      refine ⟨h.promised, h.dead, fun hb => (by cases hb), fun m' hm => ?_, fun m' hm => ?_, h.early,
        h.responses⟩
      · rw [SharedState.value.inj hm]
      · cases hpending.symm.trans (h.held m' hm)
    · exact ⟨h.promised, h.dead, h.broken, h.matching, h.held, h.early, h.responses⟩

theorem sound_removeResponsePromise (hs : RequestsConsistent s)
    (hfinished : ∀ r, s.requests id = some r → r.phase = .finished) :
    RequestsConsistent (s.removeResponsePromise id) := by
  unfold removeResponsePromise
  split
  case isFalse => exact hs
  cases hrequest : s.requests id with
  | none =>
    have hsame : Function.update s.requests id (Option.map breakPromise none) = s.requests := by
      rw [Option.map_none, ← hrequest, Function.update_eq_self]
    refine ⟨fun i r hr => ?_, fun i hi => ?_⟩
    · rw [hsame] at hr
      obtain ⟨hpromised, hdead, hbroken, hmatching, hheld, hearly, hresponses⟩ := hs.request i r hr
      refine ⟨fun hphase => ?_, hdead, hbroken, hmatching, hheld, hearly, hresponses⟩
      refine List.mem_filter.mpr ⟨hpromised hphase, decide_eq_true ?_⟩
      rintro rfl
      rw [hrequest] at hr
      cases hr
    · rw [hsame] at hi
      exact hs.fresh i hi
  | some r =>
    have h := hs.request id r hrequest
    have hphase := hfinished r hrequest
    refine sound_update hs rfl (fun _ _ => rfl) (fun i hi hmem => ?_) (fun _ _ h => h) ?_
    · exact List.mem_filter.mpr ⟨hmem, decide_eq_true hi⟩
    · unfold breakPromise
      split
      · rename_i hpending
        refine ⟨fun hne => absurd hphase hne, h.dead, fun _ => hphase, fun m hm => (by cases hm),
          fun m hm => ?_, h.early, h.responses⟩
        cases hpending.symm.trans (h.held m hm)
      · exact ⟨fun hne => absurd hphase hne, h.dead, h.broken, h.matching, h.held, h.early, h.responses⟩

theorem sound_cleanup (hs : RequestsConsistent s) (hstep : s.cleanupResponseMessages = .ok t) :
    RequestsConsistent t := by
  unfold cleanupResponseMessages at hstep
  split at hstep
  case h_2 => cases hstep
  rename_i id dead hprocessing hdead
  obtain rfl := Except.ok.inj hstep
  have hrest : RequestsConsistent { s with deadPromises := dead } := by
    refine ⟨fun i r hr => ?_, fun i hi => ⟨(hs.fresh i hi).1, fun hmem => (hs.fresh i hi).2 ?_⟩⟩
    · have h := hs.request i r hr
      refine ⟨h.promised, fun hmem => h.dead ?_, h.broken, h.matching, h.held, h.early, h.responses⟩
      rw [hdead]
      exact List.mem_cons_of_mem _ hmem
    · rw [hdead]
      exact List.mem_cons_of_mem _ hmem
  refine sound_removeResponsePromise hrest fun r hr => (hs.request id r hr).dead ?_
  rw [hdead]
  exact List.mem_cons_self

theorem sound_step (hs : RequestsConsistent s) {event : TransportEvent}
    (hstep : s.step event = .ok t) :
    RequestsConsistent t := by
  cases event with
  | registerResponse id => exact sound_registerResponse hs hstep
  | sendMessage id => exact sound_sendMessage hs hstep
  | receive id =>
    obtain rfl := Except.ok.inj hstep
    exact sound_of_same hs ⟨rfl, rfl, rfl, rfl⟩
  | beacon server =>
    obtain rfl := Except.ok.inj hstep
    exact sound_of_same hs ⟨rfl, rfl, rfl, rfl⟩
  | dispatch =>
    simp only [Transport.step, dispatch] at hstep
    split at hstep
    case h_2 => cases hstep
    rename_i msg events hprocessing hqueue
    obtain rfl := Except.ok.inj hstep
    have hdequeued : SameRequests s { s with dispatchEvents := events } := ⟨rfl, rfl, rfl, rfl⟩
    exact sound_of_same hs (hdequeued.trans (sameRequests_completeReceiveEvent _ msg))
  | setValue => exact sound_setValue hs hstep
  | get id => exact sound_get hs hstep
  | timeout id => exact sound_timeout hs hstep
  | respond id => exact sound_respond hs hstep
  | release id => exact sound_release hs hstep
  | enqueueResolved id => exact sound_enqueueResolved hs hstep
  | cleanup => exact sound_cleanup hs hstep
  | joinOnBeacon name =>
    simp only [Transport.step, joinOnBeacon] at hstep
    split at hstep
    case h_2 => cases hstep
    rename_i msg hjoin
    obtain rfl := Except.ok.inj hstep
    have herased : SameRequests s
        { s with joinRequests := Function.update s.joinRequests name none } := ⟨rfl, rfl, rfl, rfl⟩
    exact sound_of_same hs (herased.trans (sameRequests_releaseOwnedMessage _ msg))
  | autoJoin _ | joinTimeout _ | eraseJoin _ | setConnected _ | serverLost _ =>
    exact sound_of_same hs (same_of_outside rfl hstep).1

end Steps

theorem sound_run {events : List TransportEvent} {s : Transport}
    (hrun : run Transport.step {} events = .ok s) : RequestsConsistent s :=
  run_invariant (fun _ _ _ hs _ hstep => sound_step hs hstep) sound_opened
    (along_of_forall fun _ _ _ _ _ _ => trivial) hrun

/-! ## What a step can make of a request -/

inductive PhaseMoves : Request → Request → Prop
  | sendMessage (future msg) : PhaseMoves ⟨future, .registered, msg⟩ ⟨future, .waiting, msg⟩
  | get (m msg) : PhaseMoves ⟨.value m, .waiting, msg⟩ ⟨.value m, .received, some m⟩
  | timeout (msg) : PhaseMoves ⟨.pending, .waiting, msg⟩ ⟨.pending, .received, none⟩
  | respond (future msg) : PhaseMoves ⟨future, .received, msg⟩ ⟨future, .responded, msg⟩
  | release (future msg) : PhaseMoves ⟨future, .responded, msg⟩ ⟨future, .released, msg⟩
  | enqueueResolved (future msg) : PhaseMoves ⟨future, .released, msg⟩ ⟨future, .finished, msg⟩
  | satisfy (m r) : PhaseMoves r (satisfy m r)
  | breakPromise (r) : PhaseMoves r (breakPromise r)
  | stay (r) : PhaseMoves r r

section PhaseMoves

variable {s t : Transport} {id : ZstMsgID} {r : Request}

/-- A step moves at most the request with its own id. -/
theorem moves_update {i : ZstMsgID} {q q' : Request} (hq : s.requests i = some q)
    (hmoves : PhaseMoves q q') (hrequests : t.requests = Function.update s.requests i (some q'))
    (hr : s.requests id = some r) : ∃ r', t.requests id = some r' ∧ PhaseMoves r r' := by
  rw [hrequests]
  by_cases hi : id = i
  · subst hi
    obtain rfl : r = q := Option.some.inj (hr.symm.trans hq)
    exact ⟨q', Function.update_self .., hmoves⟩
  · exact ⟨r, (Function.update_of_ne hi ..).trans hr, .stay r⟩

theorem moves_map {i : ZstMsgID} {f : Request → Request} (hmoves : ∀ q, PhaseMoves q (f q))
    (hrequests : t.requests = Function.update s.requests i ((s.requests i).map f))
    (hr : s.requests id = some r) : ∃ r', t.requests id = some r' ∧ PhaseMoves r r' := by
  cases hi : s.requests i with
  | none =>
    rw [hi, Option.map_none, ← hi, Function.update_eq_self] at hrequests
    exact ⟨r, hrequests ▸ hr, .stay r⟩
  | some q =>
    rw [hi, Option.map_some] at hrequests
    exact moves_update hi (hmoves q) hrequests hr

theorem moves_same (h : SameRequests s t) (hr : s.requests id = some r) :
    ∃ r', t.requests id = some r' ∧ PhaseMoves r r' :=
  ⟨r, h.requests ▸ hr, .stay r⟩

/-- The steps by which a thread in `blocking_send` only moves its request on. -/
def moved : TransportEvent → Option ZstMsgID
  | .sendMessage id | .get id | .timeout id | .respond id | .enqueueResolved id => some id
  | _ => none

theorem moves_of_moved {event : TransportEvent} {i : ZstMsgID} (hevent : moved event = some i)
    (hstep : s.step event = .ok t) : SameMessages s t ∧ t.joinRequests = s.joinRequests ∧
      ∃ q q', s.requests i = some q ∧ PhaseMoves q q' ∧ q.phase ≠ .responded ∧
        t.requests = Function.update s.requests i (some q') := by
  cases event with
  | sendMessage id =>
    obtain rfl := Option.some.inj hevent
    simp only [Transport.step, sendMessage] at hstep
    split at hstep
    case h_2 => cases hstep
    rename_i hrequest
    obtain rfl := Except.ok.inj hstep
    exact ⟨⟨rfl, rfl, rfl, rfl, rfl, rfl⟩, rfl, _, _, hrequest, .sendMessage .., SendPhase.noConfusion,
      rfl⟩
  | get id =>
    obtain rfl := Option.some.inj hevent
    simp only [Transport.step, Transport.get] at hstep
    split at hstep
    case h_2 => cases hstep
    rename_i hrequest
    obtain rfl := Except.ok.inj hstep
    exact ⟨⟨rfl, rfl, rfl, rfl, rfl, rfl⟩, rfl, _, _, hrequest, .get .., SendPhase.noConfusion,
      rfl⟩
  | timeout id =>
    obtain rfl := Option.some.inj hevent
    simp only [Transport.step, timeout] at hstep
    split at hstep
    case h_2 => cases hstep
    rename_i hrequest
    obtain rfl := Except.ok.inj hstep
    exact ⟨⟨rfl, rfl, rfl, rfl, rfl, rfl⟩, rfl, _, _, hrequest, .timeout .., SendPhase.noConfusion,
      rfl⟩
  | respond id =>
    obtain rfl := Option.some.inj hevent
    simp only [Transport.step, respond] at hstep
    split at hstep
    case h_2 => cases hstep
    rename_i hrequest
    obtain rfl := Except.ok.inj hstep
    exact ⟨⟨rfl, rfl, rfl, rfl, rfl, rfl⟩, rfl, _, _, hrequest, .respond .., SendPhase.noConfusion,
      rfl⟩
  | enqueueResolved id =>
    obtain rfl := Option.some.inj hevent
    simp only [Transport.step, enqueueResolved] at hstep
    split at hstep
    case h_2 => cases hstep
    rename_i hrequest
    obtain rfl := Except.ok.inj hstep
    exact ⟨⟨rfl, rfl, rfl, rfl, rfl, rfl⟩, rfl, _, _, hrequest, .enqueueResolved ..,
      SendPhase.noConfusion, rfl⟩
  | registerResponse _ | receive _ | beacon _ | dispatch | setValue | release _ | cleanup
  | joinOnBeacon _ | autoJoin _ | joinTimeout _ | eraseJoin _ | setConnected _ | serverLost _ =>
    cases hevent

theorem moves_own {event : TransportEvent} {i : ZstMsgID} (hevent : moved event = some i)
    (hstep : s.step event = .ok t) (hr : s.requests id = some r) :
    ∃ r', t.requests id = some r' ∧ PhaseMoves r r' := by
  obtain ⟨-, -, q, q', hq, hmoves, -, hrequests⟩ := moves_of_moved hevent hstep
  exact moves_update hq hmoves hrequests hr

theorem moves_step {event : TransportEvent} (hstep : s.step event = .ok t)
    (hr : s.requests id = some r) : ∃ r', t.requests id = some r' ∧ PhaseMoves r r' := by
  cases event with
  | registerResponse i =>
    simp only [Transport.step, registerResponse] at hstep
    split at hstep
    case h_2 => cases hstep
    rename_i hnone
    obtain rfl := Except.ok.inj hstep
    refine ⟨r, ?_, .stay r⟩
    have hi : id ≠ i := by
      rintro rfl
      rw [hnone] at hr
      cases hr
    exact (Function.update_of_ne hi ..).trans hr
  | sendMessage _ | get _ | timeout _ | respond _ | enqueueResolved _ => exact moves_own rfl hstep hr
  | release i =>
    simp only [Transport.step, release] at hstep
    split at hstep
    case h_3 => cases hstep
    · rename_i hrequest
      obtain rfl := Except.ok.inj hstep
      exact moves_update hrequest (.release ..) rfl hr
    · rename_i future msg hrequest
      obtain rfl := Except.ok.inj hstep
      refine moves_update hrequest (.release ..) ?_ hr
      split
      · exact (sameRequests_releaseOwnedMessage _ msg).requests
      · rfl
  | setValue =>
    simp only [Transport.step, setValue] at hstep
    split at hstep
    case h_2 => cases hstep
    rename_i m hprocessing
    obtain rfl := Except.ok.inj hstep
    exact moves_map (.satisfy m) rfl hr
  | cleanup =>
    simp only [Transport.step, cleanupResponseMessages, removeResponsePromise] at hstep
    split at hstep
    case h_2 => cases hstep
    obtain rfl := Except.ok.inj hstep
    split
    · exact moves_map .breakPromise rfl hr
    · exact ⟨r, hr, .stay r⟩
  | receive i =>
    obtain rfl := Except.ok.inj hstep
    exact ⟨r, hr, .stay r⟩
  | beacon server =>
    obtain rfl := Except.ok.inj hstep
    exact ⟨r, hr, .stay r⟩
  | dispatch =>
    simp only [Transport.step, dispatch] at hstep
    split at hstep
    case h_2 => cases hstep
    obtain rfl := Except.ok.inj hstep
    exact moves_same (sameRequests_completeReceiveEvent _ _) hr
  | joinOnBeacon name =>
    simp only [Transport.step, joinOnBeacon] at hstep
    split at hstep
    case h_2 => cases hstep
    obtain rfl := Except.ok.inj hstep
    exact moves_same (sameRequests_releaseOwnedMessage _ _) hr
  | autoJoin _ | joinTimeout _ | eraseJoin _ | setConnected _ | serverLost _ =>
    exact moves_same (same_of_outside rfl hstep).1 hr

end PhaseMoves

/-- The thread has not stopped waiting. -/
def Awaits (s : Transport) (id : ZstMsgID) (r : Request) : Prop :=
  s.requests id = some r ∧ (r.phase = .registered ∨ r.phase = .waiting)

/-- The future has the message, and the thread will take it or has it already. -/
def HoldsMessage (m : ZstMessage) (r : Request) : Prop :=
  r.future = .value m ∧ (r.phase = .registered ∨ r.phase = .waiting ∨ r.msg = some m)

theorem holds_moves {m : ZstMessage} {r r' : Request} (hr : HoldsMessage m r)
    (hmoves : PhaseMoves r r') :
    HoldsMessage m r' := by
  obtain ⟨hvalue, hphase⟩ := hr
  cases hmoves with
  | sendMessage future msg => exact ⟨hvalue, Or.inr (Or.inl rfl)⟩
  | get m' msg => exact ⟨hvalue, Or.inr (Or.inr (congrArg some (SharedState.value.inj hvalue)))⟩
  | timeout msg => cases hvalue
  | respond future msg => exact ⟨hvalue, by simpa using hphase⟩
  | release future msg => exact ⟨hvalue, by simpa using hphase⟩
  | enqueueResolved future msg => exact ⟨hvalue, by simpa using hphase⟩
  | satisfy m' _ =>
    unfold satisfy
    rw [if_neg (by rw [hvalue]; exact SharedState.noConfusion)]
    exact ⟨hvalue, hphase⟩
  | breakPromise _ =>
    unfold breakPromise
    rw [if_neg (by rw [hvalue]; exact SharedState.noConfusion)]
    exact ⟨hvalue, hphase⟩
  | stay _ => exact ⟨hvalue, hphase⟩

/-! ## Messages -/

/-- The messages in the queue are different ones, and only a beacon is promised
before it is dispatched. -/
structure Numbered (s : Transport) : Prop where
  number_lt : ∀ m ∈ s.received, m.number < s.received.length
  queued : ∀ m ∈ s.dispatchEvents, m ∈ s.received
  nodup : s.dispatchEvents.Nodup
  promised : ∀ m ∈ s.hasPromise, m ∈ s.received
  unpromised : ∀ m ∈ s.dispatchEvents, m.server = none → m ∉ s.hasPromise
  beacon : ∀ m ∈ s.dispatchEvents, m.server.isSome → m ∈ s.hasPromise

theorem numbered_opened : Numbered {} where
  number_lt _ hm := absurd hm List.not_mem_nil
  queued _ hm := absurd hm List.not_mem_nil
  nodup := List.nodup_nil
  promised _ hm := absurd hm List.not_mem_nil
  unpromised _ hm := absurd hm List.not_mem_nil
  beacon _ hm := absurd hm List.not_mem_nil

section Messages

variable {s t : Transport}

theorem fresh_not_mem (hs : Numbered s) {m : ZstMessage} (hm : m.number = s.received.length) :
    m ∉ s.received := fun hmem => by
  have := hs.number_lt m hmem
  omega

theorem numbered_same (hs : Numbered s) (hreceived : t.received = s.received)
    (hqueue : t.dispatchEvents = s.dispatchEvents) (hpromise : t.hasPromise = s.hasPromise) :
    Numbered t := by
  obtain ⟨hnumber, hqueued, hnodup, hpromised, hunpromised, hbeacon⟩ := hs
  refine ⟨?_, ?_, ?_, ?_, ?_, ?_⟩
  · rwa [hreceived]
  · rwa [hqueue, hreceived]
  · rwa [hqueue]
  · rwa [hpromise, hreceived]
  · rwa [hqueue, hpromise]
  · rwa [hqueue, hpromise]

/-- A new message at the end of the queue. -/
theorem numbered_arrive (hs : Numbered s) {m : ZstMessage} (hm : m.number = s.received.length)
    (hreceived : t.received = s.received ++ [m]) (hqueue : t.dispatchEvents = s.dispatchEvents ++ [m])
    (hpromise : t.hasPromise = if m.server = none then s.hasPromise else m :: s.hasPromise) :
    Numbered t := by
  have hfresh := fresh_not_mem hs hm
  have hold : ∀ x ∈ t.dispatchEvents, x = m ∨ (x ∈ s.dispatchEvents ∧ x ≠ m) := fun x hx => by
    rw [hqueue] at hx
    rcases List.mem_append.mp hx with hbefore | hlast
    · refine Or.inr ⟨hbefore, ?_⟩
      rintro rfl
      exact hfresh (hs.queued x hbefore)
    · exact Or.inl (List.mem_singleton.mp hlast)
  have hpromised : ∀ x, x ≠ m → (x ∈ t.hasPromise ↔ x ∈ s.hasPromise) := fun x hx => by
    rw [hpromise]
    split
    · exact Iff.rfl
    · exact ⟨fun h => (List.mem_cons.mp h).resolve_left hx, List.mem_cons_of_mem m⟩
  refine ⟨fun x hx => ?_, fun x hx => ?_, ?_, fun x hx => ?_, fun x hx hserver => ?_,
    fun x hx hserver => ?_⟩
  · rw [hreceived] at hx ⊢
    rw [List.length_append, List.length_singleton]
    rcases List.mem_append.mp hx with hx | hx
    · exact Nat.lt_succ_of_lt (hs.number_lt x hx)
    · rw [List.mem_singleton.mp hx, hm]
      exact Nat.lt_succ_self _
  · rw [hreceived]
    rcases hold x hx with rfl | ⟨hx, -⟩
    · exact List.mem_append_right _ List.mem_cons_self
    · exact List.mem_append_left _ (hs.queued x hx)
  · rw [hqueue]
    exact List.nodup_append.mpr ⟨hs.nodup, List.nodup_singleton m, fun x hx y hy => by
      rw [List.mem_singleton.mp hy]
      rintro rfl
      exact hfresh (hs.queued x hx)⟩
  · rw [hreceived]
    by_cases heq : x = m
    · rw [heq]
      exact List.mem_append_right _ List.mem_cons_self
    · exact List.mem_append_left _ (hs.promised x ((hpromised x heq).mp hx))
  · rcases hold x hx with rfl | ⟨hx, hne⟩
    · rw [hpromise, if_pos hserver]
      exact fun hmem => hfresh (hs.promised x hmem)
    · exact fun hmem => hs.unpromised x hx hserver ((hpromised x hne).mp hmem)
  · rcases hold x hx with rfl | ⟨hx, hne⟩
    · rw [hpromise, if_neg (by rw [Option.isSome_iff_ne_none] at hserver; exact hserver)]
      exact List.mem_cons_self
    · exact (hpromised x hne).mpr (hs.beacon x hx hserver)

/-- The first message leaves the queue, and may be promised then. -/
theorem numbered_dequeue (hs : Numbered s) {m : ZstMessage} {rest : List ZstMessage}
    (hqueue : s.dispatchEvents = m :: rest) (hreceived : t.received = s.received)
    (hrest : t.dispatchEvents = rest)
    (hpromise : t.hasPromise = s.hasPromise ∨ t.hasPromise = m :: s.hasPromise) : Numbered t := by
  have hnodup := hs.nodup
  rw [hqueue, List.nodup_cons] at hnodup
  have hold : ∀ x ∈ t.dispatchEvents, x ∈ s.dispatchEvents ∧ x ≠ m := fun x hx => by
    rw [hrest] at hx
    rw [hqueue]
    refine ⟨List.mem_cons_of_mem m hx, ?_⟩
    rintro rfl
    exact hnodup.1 hx
  have hpromised : ∀ x, x ≠ m → (x ∈ t.hasPromise ↔ x ∈ s.hasPromise) := fun x hx => by
    rcases hpromise with h | h
    · rw [h]
    · rw [h]
      exact ⟨fun h => (List.mem_cons.mp h).resolve_left hx, List.mem_cons_of_mem m⟩
  refine ⟨?_, fun x hx => ?_, hrest ▸ hnodup.2, fun x hx => ?_, fun x hx hserver hmem => ?_,
    fun x hx hserver => ?_⟩
  · rw [hreceived]
    exact hs.number_lt
  · rw [hreceived]
    exact hs.queued x (hold x hx).1
  · rw [hreceived]
    by_cases heq : x = m
    · refine heq ▸ hs.queued m ?_
      rw [hqueue]
      exact List.mem_cons_self
    · exact hs.promised x ((hpromised x heq).mp hx)
  · exact hs.unpromised x (hold x hx).1 hserver ((hpromised x (hold x hx).2).mp hmem)
  · exact (hpromised x (hold x hx).2).mpr (hs.beacon x (hold x hx).1 hserver)

/-- What the message's fields say of the state after its dispatch. -/
theorem completeReceiveEvent_messages (s : Transport) (m : ZstMessage) :
    (s.completeReceiveEvent m).received = s.received ∧
      (s.completeReceiveEvent m).dispatchEvents = s.dispatchEvents ∧
      ((s.completeReceiveEvent m).hasPromise = s.hasPromise ∨
        (s.completeReceiveEvent m).hasPromise = m :: s.hasPromise) := by
  have hhandler : ∀ server, (s.serverDiscoveryHandler m server).received = s.received ∧
      (s.serverDiscoveryHandler m server).dispatchEvents = s.dispatchEvents ∧
      (s.serverDiscoveryHandler m server).hasPromise = s.hasPromise := fun server => by
    unfold serverDiscoveryHandler
    split
    · exact ⟨rfl, rfl, rfl⟩
    · dsimp only
      split
      · exact ⟨rfl, rfl, rfl⟩
      · exact ⟨rfl, rfl, rfl⟩
  have hadaptors : (m.server.elim s fun server => s.serverDiscoveryHandler m server).received =
        s.received ∧
      (m.server.elim s fun server => s.serverDiscoveryHandler m server).dispatchEvents =
        s.dispatchEvents ∧
      (m.server.elim s fun server => s.serverDiscoveryHandler m server).hasPromise =
        s.hasPromise := by
    cases m.server with
    | none => exact ⟨rfl, rfl, rfl⟩
    | some server => exact hhandler server
  obtain ⟨hreceived, hqueue, hpromise⟩ := hadaptors
  unfold completeReceiveEvent
  dsimp only
  split
  · exact ⟨hreceived, hqueue, Or.inl hpromise⟩
  · unfold processMessageResponse
    split
    · exact ⟨hreceived, hqueue, Or.inr (congrArg (List.cons m) hpromise)⟩
    · exact ⟨hreceived, hqueue, Or.inl hpromise⟩

theorem releaseOwnedMessage_messages (s : Transport) (m : ZstMessage) :
    (s.releaseOwnedMessage m).received = s.received ∧
      (s.releaseOwnedMessage m).dispatchEvents = s.dispatchEvents ∧
      (s.releaseOwnedMessage m).hasPromise = s.hasPromise := by
  unfold releaseOwnedMessage
  split
  · exact ⟨rfl, rfl, rfl⟩
  · exact ⟨rfl, rfl, rfl⟩

theorem numbered_step (hs : Numbered s) {event : TransportEvent} (hstep : s.step event = .ok t) :
    Numbered t := by
  cases event with
  | receive id =>
    obtain rfl := Except.ok.inj hstep
    exact numbered_arrive hs (m := { number := s.received.length, id }) rfl rfl rfl rfl
  | beacon server =>
    obtain rfl := Except.ok.inj hstep
    exact numbered_arrive hs (m := { number := s.received.length, id := 0, server := some server })
      rfl rfl rfl rfl
  | dispatch =>
    simp only [Transport.step, dispatch] at hstep
    split at hstep
    case h_2 => cases hstep
    rename_i msg events hprocessing hqueue
    obtain rfl := Except.ok.inj hstep
    obtain ⟨hreceived, hrest, hpromise⟩ :=
      completeReceiveEvent_messages { s with dispatchEvents := events } msg
    exact numbered_dequeue hs hqueue hreceived hrest hpromise
  | release id =>
    simp only [Transport.step, release] at hstep
    split at hstep
    case h_3 => cases hstep
    · obtain rfl := Except.ok.inj hstep
      exact numbered_same hs rfl rfl rfl
    · rename_i future msg hrequest
      obtain rfl := Except.ok.inj hstep
      split
      · obtain ⟨hreceived, hqueue, hpromise⟩ :=
          releaseOwnedMessage_messages (s.setRequest id ⟨future, .released, some msg⟩) msg
        exact numbered_same hs hreceived hqueue hpromise
      · exact numbered_same hs rfl rfl rfl
  | joinOnBeacon name =>
    simp only [Transport.step, joinOnBeacon] at hstep
    split at hstep
    case h_2 => cases hstep
    rename_i msg hjoin
    obtain rfl := Except.ok.inj hstep
    obtain ⟨hreceived, hqueue, hpromise⟩ := releaseOwnedMessage_messages
      { s with joinRequests := Function.update s.joinRequests name none } msg
    exact numbered_same hs hreceived hqueue hpromise
  | cleanup =>
    simp only [Transport.step, cleanupResponseMessages, removeResponsePromise] at hstep
    split at hstep
    case h_2 => cases hstep
    obtain rfl := Except.ok.inj hstep
    split
    · exact numbered_same hs rfl rfl rfl
    · exact numbered_same hs rfl rfl rfl
  | registerResponse id =>
    simp only [Transport.step, registerResponse] at hstep
    split at hstep
    case h_2 => cases hstep
    obtain rfl := Except.ok.inj hstep
    exact numbered_same hs rfl rfl rfl
  | setValue =>
    simp only [Transport.step, setValue] at hstep
    split at hstep
    case h_2 => cases hstep
    obtain rfl := Except.ok.inj hstep
    exact numbered_same hs rfl rfl rfl
  | sendMessage _ | get _ | timeout _ | respond _ | enqueueResolved _ =>
    obtain ⟨hsame, -⟩ := moves_of_moved rfl hstep
    exact numbered_same hs hsame.received hsame.dispatchEvents hsame.hasPromise
  | autoJoin _ | joinTimeout _ | eraseJoin _ | setConnected _ | serverLost _ =>
    obtain ⟨-, hsame, -⟩ := same_of_outside rfl hstep
    exact numbered_same hs hsame.received hsame.dispatchEvents hsame.hasPromise

end Messages

theorem numbered_run {events : List TransportEvent} {s : Transport}
    (hrun : run Transport.step {} events = .ok s) : Numbered s :=
  run_invariant (fun _ _ _ hs _ hstep => numbered_step hs hstep) numbered_opened
    (along_of_forall fun _ _ _ _ _ _ => trivial) hrun

end Showtime.TransportSteps
