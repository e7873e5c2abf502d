import Showtime.TransportSteps
/-!
# Every request gets one response

Each request's `on_recv_response` runs once, with a message of the request's id or
with none, and with a message if one was processed while the request waited.
-/

namespace Showtime.Responses

open Library Transport TransportSteps

/-! ## A message in time -/

theorem holds_run {events : List TransportEvent} {s t : Transport} {id : ZstMsgID} {m : ZstMessage}
    (hrun : run Transport.step s events = .ok t)
    (hs : ∃ r, s.requests id = some r ∧ HoldsMessage m r) :
    ∃ r, t.requests id = some r ∧ HoldsMessage m r := by
  have hkeep : ∀ (s : Transport) (event : TransportEvent) (t : Transport),
      (∃ r, s.requests id = some r ∧ HoldsMessage m r) → True → s.step event = .ok t →
      ∃ r, t.requests id = some r ∧ HoldsMessage m r := fun s event t ⟨r, hr, hholds⟩ _ hstep => by
    obtain ⟨r', hr', hmoves⟩ := moves_step hstep hr
    exact ⟨r', hr', holds_moves hholds hmoves⟩
  exact run_invariant hkeep hs (along_of_forall fun _ _ _ _ _ _ => trivial) hrun

/-- A message that is processed while the thread waits gives the future a value,
unless it has one. -/
theorem holds_setValue {s t : Transport} {id : ZstMsgID} {m : ZstMessage} {r : Request}
    (hs : RequestsConsistent s) (hprocessing : s.processing = some m) (hid : m.id = id)
    (hawaits : Awaits s id r)
    (hstep : s.setValue = .ok t) :
    ∃ m', (r.future = .pending → m' = m) ∧ ∃ r', t.requests id = some r' ∧ HoldsMessage m' r' := by
  obtain ⟨hr, hphase⟩ := hawaits
  subst hid
  unfold setValue at hstep
  rw [hprocessing] at hstep
  obtain rfl := Except.ok.inj hstep
  have hmap : Function.update s.requests m.id ((s.requests m.id).map (satisfy m)) m.id =
      some (satisfy m r) := by
    rw [Function.update_self, hr]
    rfl
  have hwaits : r.phase = .registered ∨ r.phase = .waiting ∨ r.msg = some m :=
    hphase.imp_right Or.inl
  cases hfuture : r.future with
  | pending =>
    refine ⟨m, fun _ => rfl, satisfy m r, hmap, ?_⟩
    unfold satisfy
    rw [if_pos hfuture]
    exact ⟨rfl, hwaits⟩
  | value m' =>
    refine ⟨m', fun h => SharedState.noConfusion h, satisfy m r, hmap, ?_⟩
    unfold satisfy
    rw [if_neg (by rw [hfuture]; exact SharedState.noConfusion)]
    exact ⟨hfuture, hphase.imp_right Or.inl⟩
  | brokenPromise =>
    have hfinished := (hs.request m.id r hr).broken hfuture
    rw [hfinished] at hphase
    rcases hphase with hphase | hphase <;> cases hphase

/-- The thread finds its message's promise in the table as long as it waits. -/
theorem processing_of_dispatch {s t : Transport} {m : ZstMessage} {events : List ZstMessage}
    {r : Request} (hs : RequestsConsistent s) (hqueue : s.dispatchEvents = m :: events)
    (hawaits : Awaits s m.id r) (hserver : m.server = none) (hpromise : m ∉ s.hasPromise)
    (hstep : s.dispatch = .ok t) : t.processing = some m := by
  have hmem : m.id ∈ s.responsePromises := by
    refine (hs.request m.id r hawaits.1).promised fun hphase => ?_
    rcases hawaits.2 with h | h <;> rw [hphase] at h <;> cases h
  unfold dispatch at hstep
  split at hstep
  case h_2 => cases hstep
  rename_i msg rest hprocessing hdequeued
  obtain ⟨rfl, rfl⟩ := List.cons.inj (hqueue.symm.trans hdequeued)
  obtain rfl := Except.ok.inj hstep
  unfold completeReceiveEvent processMessageResponse
  rw [hserver, Option.elim_none, if_neg hpromise, if_pos hmem]
  rfl

/-! ## The thread returns -/

/-- What the thread of a request does. -/
def ownSteps (id : ZstMsgID) : List TransportEvent :=
  [.sendMessage id, .get id, .timeout id, .respond id, .release id, .enqueueResolved id]

/-- The thread can go on to its end by its own steps. -/
def Finishes (s : Transport) (id : ZstMsgID) : Prop :=
  ∃ own t, (∀ event ∈ own, event ∈ ownSteps id) ∧ run Transport.step s own = .ok t ∧
    ∃ r, t.requests id = some r ∧ r.phase = .finished

section Finishing

variable {s t : Transport} {id : ZstMsgID}

theorem finishes_step {event : TransportEvent} (hown : event ∈ ownSteps id)
    (hstep : s.step event = .ok t) (ht : Finishes t id) : Finishes s id := by
  obtain ⟨own, u, hall, hrun, hu⟩ := ht
  refine ⟨event :: own, u, fun e he => ?_, run_cons_ok.mpr ⟨t, hstep, hrun⟩, hu⟩
  rcases List.mem_cons.mp he with rfl | he
  · exact hown
  · exact hall e he

theorem finishes_of_released {future : SharedState} {msg : Option ZstMessage}
    (hr : s.requests id = some ⟨future, .released, msg⟩) : Finishes s id := by
  have hstep : s.step (.enqueueResolved id) =
      .ok ({ s with deadPromises := s.deadPromises ++ [id] }.setRequest id
        ⟨future, .finished, msg⟩) := by
    simp only [Transport.step, enqueueResolved]
    rw [hr]
  exact finishes_step (by simp [ownSteps]) hstep
    ⟨[], _, by simp, rfl, _, Function.update_self .., rfl⟩

theorem finishes_of_responded {future : SharedState} {msg : Option ZstMessage}
    (hr : s.requests id = some ⟨future, .responded, msg⟩) : Finishes s id := by
  cases msg with
  | none =>
    have hstep : s.step (.release id) = .ok (s.setRequest id ⟨future, .released, none⟩) := by
      simp only [Transport.step, release]
      rw [hr]
    exact finishes_step (by simp [ownSteps]) hstep (finishes_of_released (Function.update_self ..))
  | some m =>
    have hstep : s.step (.release id) =
        .ok (if m ∈ (s.setRequest id ⟨future, .released, some m⟩).hasPromise then
          (s.setRequest id ⟨future, .released, some m⟩).releaseOwnedMessage m
        else s.setRequest id ⟨future, .released, some m⟩) := by
      simp only [Transport.step, release]
      rw [hr]
    have hreleased : (s.setRequest id ⟨future, .released, some m⟩).requests id =
        some ⟨future, .released, some m⟩ := Function.update_self ..
    refine finishes_step (by simp [ownSteps]) hstep ?_
    split
    · have hsame := sameRequests_releaseOwnedMessage
        (s.setRequest id ⟨future, .released, some m⟩) m
      exact finishes_of_released (hsame.requests ▸ hreleased)
    · exact finishes_of_released hreleased

theorem finishes_of_received {future : SharedState} {msg : Option ZstMessage}
    (hr : s.requests id = some ⟨future, .received, msg⟩) : Finishes s id := by
  have hstep : s.step (.respond id) =
      .ok ({ s with responses := s.responses ++ [(id, msg)] }.setRequest id
        ⟨future, .responded, msg⟩) := by
    simp only [Transport.step, respond]
    rw [hr]
  exact finishes_step (by simp [ownSteps]) hstep (finishes_of_responded (Function.update_self ..))

theorem finishes_of_waiting (hs : RequestsConsistent s) {future : SharedState}
    {msg : Option ZstMessage}
    (hr : s.requests id = some ⟨future, .waiting, msg⟩) : Finishes s id := by
  cases future with
  | pending =>
    have hstep : s.step (.timeout id) = .ok (s.setRequest id ⟨.pending, .received, none⟩) := by
      simp only [Transport.step, timeout]
      rw [hr]
    exact finishes_step (by simp [ownSteps]) hstep (finishes_of_received (Function.update_self ..))
  | value m =>
    have hstep : s.step (.get id) = .ok (s.setRequest id ⟨.value m, .received, some m⟩) := by
      simp only [Transport.step, Transport.get]
      rw [hr]
    exact finishes_step (by simp [ownSteps]) hstep (finishes_of_received (Function.update_self ..))
  | brokenPromise => cases (hs.request id _ hr).broken rfl

theorem finishes_of_sound (hs : RequestsConsistent s) {r : Request} (hr : s.requests id = some r) :
    Finishes s id := by
  obtain ⟨future, phase, msg⟩ := r
  cases phase with
  | registered =>
    have hstep : s.step (.sendMessage id) = .ok (s.setRequest id ⟨future, .waiting, msg⟩) := by
      simp only [Transport.step, sendMessage]
      rw [hr]
    exact finishes_step (by simp [ownSteps]) hstep
      (finishes_of_waiting (sound_step hs hstep) (Function.update_self ..))
  | waiting => exact finishes_of_waiting hs hr
  | received => exact finishes_of_received hr
  | responded => exact finishes_of_responded hr
  | released => exact finishes_of_released hr
  | finished => exact ⟨[], s, by simp, rfl, _, hr, rfl⟩

end Finishing

/-! ## The result -/

/-- In the state that the run has come to, the request has had at most one
response, one when its thread has returned, and only of its id. The thread can
always go on to return. A message with the id that is dispatched while the thread
waits is taken for its response, and once it is processed while the thread waits
the response is a message, the first one that was processed. -/
structure RespondsOnce (events : List TransportEvent) (s : Transport) (id : ZstMsgID) : Prop where
  atMostOnce : (responsesTo s id).length ≤ 1
  returned : ∀ r, s.requests id = some r → r.phase = .finished → (responsesTo s id).length = 1
  matching : ∀ m, some m ∈ responsesTo s id → m.id = id
  finishes : Finishes s id
  dispatched : ∀ first last u v r m rest, events = first ++ .dispatch :: last →
    run Transport.step {} first = .ok u → u.step .dispatch = .ok v →
    u.dispatchEvents = m :: rest → m.id = id → m.server = none → Awaits u id r →
    v.processing = some m
  inTime : ∀ first last u r m, events = first ++ .setValue :: last →
    run Transport.step {} first = .ok u → u.processing = some m → m.id = id → Awaits u id r →
    ∃ m', (r.future = .pending → m' = m) ∧ ∀ response ∈ responsesTo s id, response = some m'

theorem length_calls_le (r : Request) : (calls r).length ≤ 1 := by
  unfold calls
  split
  · exact Nat.zero_le 1
  · exact Nat.le_refl 1

theorem mem_calls {r : Request} {response : Option ZstMessage} (h : response ∈ calls r) :
    response = r.msg := by
  unfold calls at h
  split at h
  · cases h
  · exact List.mem_singleton.mp h

/-- For every run, whichever messages arrive and when. -/
theorem respondsOnce_of_run (events : List TransportEvent) {s : Transport}
    (hrun : run Transport.step {} events = .ok s) {id : ZstMsgID}
    (hsent : (s.requests id).isSome) : RespondsOnce events s id := by
  have hs := sound_run hrun
  obtain ⟨r, hr⟩ := Option.isSome_iff_exists.mp hsent
  have h := hs.request id r hr
  refine ⟨?_, fun q hq hfinished => ?_, fun m hm => ?_, finishes_of_sound hs hr, ?_, ?_⟩
  · rw [h.responses]
    exact length_calls_le r
  · obtain rfl : q = r := Option.some.inj (hq.symm.trans hr)
    rw [h.responses]
    unfold calls
    simp [hfinished]
  · rw [h.responses] at hm
    exact h.matching m (h.held m (mem_calls hm).symm)
  · intro first last u v q m rest hsplit hfirst hstep hqueue hid hserver hawaits
    subst hid
    have hpromise : m ∉ u.hasPromise := by
      refine (numbered_run hfirst).unpromised m ?_ hserver
      rw [hqueue]
      exact List.mem_cons_self
    exact processing_of_dispatch (sound_run hfirst) hqueue hawaits hserver hpromise hstep
  · intro first last u q m hsplit hfirst hprocessing hid hawaits
    subst hsplit
    obtain ⟨w, hu, hrest⟩ := run_append_ok.mp hrun
    obtain rfl : u = w := Except.ok.inj (hfirst.symm.trans hu)
    obtain ⟨v, hstep, hlast⟩ := run_cons_ok.mp hrest
    obtain ⟨m', hfirstMessage, hholds⟩ :=
      holds_setValue (sound_run hfirst) hprocessing hid hawaits hstep
    obtain ⟨r', hr', hvalue, hphase⟩ := holds_run hlast hholds
    obtain rfl : r = r' := Option.some.inj (hr.symm.trans hr')
    refine ⟨m', hfirstMessage, fun response hresponse => ?_⟩
    rw [h.responses] at hresponse
    unfold calls at hresponse
    split at hresponse
    · cases hresponse
    · rename_i hlate
      rw [List.mem_singleton.mp hresponse]
      rcases hphase with hphase | hphase | hmsg
      · exact absurd (Or.inl hphase) hlate
      · exact absurd (Or.inr (Or.inl hphase)) hlate
      · exact hmsg

/-- Two requests: the response to the first one comes twice, the second one's
comes too late. -/
def twoRequests : List TransportEvent :=
  [.registerResponse 5, .registerResponse 6, .sendMessage 5, .sendMessage 6, .receive 5, .receive 5,
    .receive 9, .dispatch, .setValue, .dispatch, .timeout 6, .setValue, .get 5, .respond 5,
    .receive 6, .respond 6, .dispatch, .dispatch, .setValue, .release 5, .release 6,
    .enqueueResolved 5, .enqueueResolved 6, .cleanup, .cleanup]

theorem respondsOnce_of_run_twoRequests : ∃ s, run Transport.step {} twoRequests = .ok s ∧
    s.responses = [(5, some { number := 0, id := 5 }), (6, none)] ∧
      RespondsOnce twoRequests s 5 ∧ RespondsOnce twoRequests s 6 :=
  ⟨_, rfl, rfl, respondsOnce_of_run twoRequests rfl rfl, respondsOnce_of_run twoRequests rfl rfl⟩

end Showtime.Responses
