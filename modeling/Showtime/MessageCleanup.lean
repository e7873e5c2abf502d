import Showtime.TransportSteps
/-!
# Every message is cleaned up once

A received message is released by the dispatching thread, if nobody waits for it,
and otherwise by the thread that takes it as its response, or by the one that joins
the stage on a beacon. This module tells when each cleanup callback runs once.
-/

namespace Showtime.MessageCleanup

open Library Transport TransportSteps

/-! ## Who is to release a message -/

/-- The thread still comes to `release_owned_message`. -/
def Early (r : Request) : Prop :=
  r.phase = .registered ∨ r.phase = .waiting ∨ r.phase = .received ∨ r.phase = .responded

/-- Somebody is going to release the message. -/
inductive Kept (s : Transport) (m : ZstMessage) : Prop
  | processed (h : s.processing = some m)
  | requested (r : Request) (hr : s.requests m.id = some r) (hholds : HoldsMessage m r)
    (hearly : Early r)
  | announced (hserver : m.server.isSome) (hqueue : m ∈ s.dispatchEvents)
  | joined (name : String) (h : s.joinRequests name = some (.satisfied m))

/-- The cleanup callback is still to run: nobody has looked at the message yet, or
it is owned. -/
def Outstanding (s : Transport) (m : ZstMessage) : Prop :=
  (m.server = none ∧ m ∈ s.dispatchEvents) ∨ s.ownedMessages m.id = some m

instance (s : Transport) (m : ZstMessage) : Decidable (Outstanding s m) :=
  inferInstanceAs (Decidable (_ ∨ _))

/-- The request still waits, and nothing has been processed for it. -/
def awaitsValue (s : Transport) (id : ZstMsgID) : Bool :=
  (s.requests id).any fun r =>
    (r.phase == .registered || r.phase == .waiting) && r.future == .pending

/-- A message with a promise comes in time and is the first one, a beacon is that
of a server that a thread waits for, and neither takes the place of a message
that is owned under the same id. -/
def Claimed (s : Transport) : TransportEvent → Prop
  | .dispatch => ∀ m ∈ s.dispatchEvents.head?,
    (m.server = none → m.id ∈ s.responsePromises →
      awaitsValue s m.id ∧ s.ownedMessages m.id = none) ∧
    ∀ server ∈ m.server, server ∉ s.serverBeacons ∧ s.connectedToStage = false ∧
      s.joinRequests server.name = some .waiting
  | .setValue => ∀ m ∈ s.processing, awaitsValue s m.id
  | .beacon _ => s.ownedMessages 0 = none
  | _ => True

instance (s : Transport) : ∀ event, Decidable (Claimed s event)
  | .dispatch => inferInstanceAs (Decidable (∀ m ∈ s.dispatchEvents.head?,
    (m.server = none → m.id ∈ s.responsePromises →
      awaitsValue s m.id ∧ s.ownedMessages m.id = none) ∧
    ∀ server ∈ m.server, server ∉ s.serverBeacons ∧ s.connectedToStage = false ∧
      s.joinRequests server.name = some .waiting))
  | .setValue => inferInstanceAs (Decidable (∀ m ∈ s.processing, awaitsValue s m.id))
  | .beacon _ => inferInstanceAs (Decidable (s.ownedMessages 0 = none))
  | .registerResponse _ | .sendMessage _ | .receive _ | .get _ | .timeout _ | .respond _
  | .release _ | .enqueueResolved _ | .cleanup | .autoJoin _ | .joinOnBeacon _ | .joinTimeout _
  | .eraseJoin _ | .setConnected _ | .serverLost _ => inferInstanceAs (Decidable True)

/-- No thread has anything left to do. -/
structure Quiescent (s : Transport) : Prop where
  dispatchEvents : s.dispatchEvents = []
  processing : s.processing = none
  deadPromises : s.deadPromises = []
  requests : ∀ id r, s.requests id = some r → r.phase = .finished
  joinRequests : ∀ name, s.joinRequests name = none

theorem awaitsValue_iff {s : Transport} {id : ZstMsgID} :
    awaitsValue s id ↔ ∃ r, Awaits s id r ∧ r.future = .pending := by
  unfold awaitsValue Awaits
  rw [Option.any_eq_true]
  simp only [Bool.and_eq_true, Bool.or_eq_true, beq_iff_eq, and_assoc]

/-! ## Counting -/

/-- The callback of every message has run once, or not at all and is outstanding. -/
structure Counted (s : Transport) : Prop where
  numbered : Numbered s
  counted : ∀ m ∈ s.received, s.cleanups.count m = if Outstanding s m then 0 else 1
  cleaned : ∀ m ∈ s.cleanups, m ∈ s.received
  apart : ∀ m ∈ s.dispatchEvents, m.server = none → s.ownedMessages m.id ≠ some m
  owned : ∀ id m, s.ownedMessages id = some m → m ∈ s.received ∧ m.id = id ∧ m ∈ s.hasPromise

theorem counted_opened : Counted {} where
  numbered := numbered_opened
  counted _ hm := absurd hm List.not_mem_nil
  cleaned _ hm := absurd hm List.not_mem_nil
  apart _ hm := absurd hm List.not_mem_nil
  owned _ _ h := by cases h

section Counting

variable {s t : Transport}

theorem counted_same (hs : Counted s) (h : SameMessages s t) : Counted t := by
  obtain ⟨hnumbered, hcounted, hcleaned, hapart, howned⟩ := hs
  have houtstanding : ∀ m, Outstanding t m ↔ Outstanding s m := fun m => by
    unfold Outstanding
    rw [h.dispatchEvents, h.ownedMessages]
  refine ⟨numbered_same hnumbered h.received h.dispatchEvents h.hasPromise, fun m hm => ?_, ?_, ?_, ?_⟩
  · rw [h.received] at hm
    rw [h.cleanups, hcounted m hm]
    exact if_congr (houtstanding m).symm rfl rfl
  · rwa [h.cleanups, h.received]
  · rwa [h.dispatchEvents, h.ownedMessages]
  · rwa [h.ownedMessages, h.received, h.hasPromise]

/-- The message under the id, if there is one, is cleaned up. -/
theorem counted_releaseOwnedMessage (hs : Counted s) (msg : ZstMessage) :
    Counted (s.releaseOwnedMessage msg) := by
  unfold releaseOwnedMessage
  split
  case h_2 => exact hs
  rename_i m hm
  obtain ⟨hreceived, hid, hpromise⟩ := hs.owned msg.id m hm
  have hothers : ∀ x : ZstMessage, x ≠ m →
      (Function.update s.ownedMessages msg.id none x.id = some x ↔ s.ownedMessages x.id = some x) := by
    intro x hx
    by_cases hxid : x.id = msg.id
    · rw [hxid, Function.update_self, hm]
      exact ⟨fun h => (by cases h), fun h => absurd (Option.some.inj h).symm hx⟩
    · rw [Function.update_of_ne hxid]
  have hself : Function.update s.ownedMessages msg.id none m.id ≠ some m := by
    rw [hid, Function.update_self]
    exact fun h => (by cases h)
  refine ⟨numbered_same hs.numbered rfl rfl rfl, fun x hx => ?_, fun x hx => ?_, fun x hx hserver => ?_,
    fun id x hx => ?_⟩
  · rw [List.count_append, hs.counted x hx]
    by_cases hxm : x = m
    · subst hxm
      have hbefore : Outstanding s x := Or.inr (hid ▸ hm)
      have hafter : ¬ Outstanding
          { s with
            cleanups := s.cleanups ++ [x]
            ownedMessages := Function.update s.ownedMessages msg.id none } x := by
        rintro (⟨hserver, hqueue⟩ | h)
        · exact hs.apart x hqueue hserver (hid ▸ hm)
        · exact hself h
      rw [if_pos hbefore, if_neg hafter, List.count_singleton_self]
    · have hsame : Outstanding
          { s with
            cleanups := s.cleanups ++ [m]
            ownedMessages := Function.update s.ownedMessages msg.id none } x ↔ Outstanding s x :=
        or_congr Iff.rfl (hothers x hxm)
      rw [List.count_eq_zero_of_not_mem (fun h => hxm (List.mem_singleton.mp h)), Nat.add_zero]
      exact if_congr hsame.symm rfl rfl
  · rcases List.mem_append.mp hx with hx | hx
    · exact hs.cleaned x hx
    · rw [List.mem_singleton.mp hx]
      exact hreceived
  · by_cases hxm : x = m
    · exact hxm ▸ hself
    · exact fun h => hs.apart x hx hserver ((hothers x hxm).mp h)
  · dsimp only at hx
    by_cases heq : id = msg.id
    · rw [heq, Function.update_self] at hx
      cases hx
    · rw [Function.update_of_ne heq] at hx
      exact hs.owned id x hx

/-- A message that nobody has looked at yet. -/
theorem counted_receive (hs : Counted s) (id : ZstMsgID) : Counted (s.receive id) := by
  have hnumbered : Numbered (s.receive id) :=
    numbered_arrive hs.numbered (m := { number := s.received.length, id }) rfl rfl rfl rfl
  have hfresh : ({ number := s.received.length, id } : ZstMessage) ∉ s.received :=
    fresh_not_mem hs.numbered rfl
  refine ⟨hnumbered, fun x hx => ?_, fun x hx => ?_, fun x hx hserver => ?_, fun i x hx => ?_⟩
  · rcases List.mem_append.mp hx with hx | hx
    · have hsame : Outstanding (s.receive id) x ↔ Outstanding s x := by
        refine or_congr (and_congr_right fun _ => ⟨fun h => ?_, List.mem_append_left _⟩) Iff.rfl
        refine (List.mem_append.mp h).resolve_right fun h => hfresh ?_
        rw [← List.mem_singleton.mp h]
        exact hx
      have hcount := hs.counted x hx
      exact hcount.trans (if_congr hsame.symm rfl rfl)
    · have hnew : Outstanding (s.receive id) x := by
        refine Or.inl ⟨?_, List.mem_append_right _ hx⟩
        rw [List.mem_singleton.mp hx]
      rw [if_pos hnew]
      refine List.count_eq_zero_of_not_mem fun h => hfresh ?_
      rw [← List.mem_singleton.mp hx]
      exact hs.cleaned x h
  · exact List.mem_append_left _ (hs.cleaned x hx)
  · rcases List.mem_append.mp hx with hx | hx
    · exact hs.apart x hx hserver
    · intro h
      refine hfresh ?_
      rw [← List.mem_singleton.mp hx]
      exact (hs.owned x.id x h).1
  · obtain ⟨hreceived, hid, hpromise⟩ := hs.owned i x hx
    exact ⟨List.mem_append_left _ hreceived, hid, hpromise⟩

/-- A beacon that takes no other one's place. -/
theorem counted_handleBeacon (hs : Counted s) (server : ZstServerAddress)
    (hfree : s.ownedMessages 0 = none) : Counted (s.handleBeacon server) := by
  have hnumbered : Numbered (s.handleBeacon server) :=
    numbered_arrive hs.numbered (m := { number := s.received.length, id := 0, server := some server })
      rfl rfl rfl rfl
  have hfresh : ({ number := s.received.length, id := 0, server := some server } : ZstMessage) ∉
      s.received := fresh_not_mem hs.numbered rfl
  have howned : ∀ i, i ≠ 0 → (s.handleBeacon server).ownedMessages i = s.ownedMessages i :=
    fun i hi => Function.update_of_ne hi ..
  have hbeacon : (s.handleBeacon server).ownedMessages 0 =
      some { number := s.received.length, id := 0, server := some server } := by
    unfold handleBeacon takeMessageOwnership
    exact Function.update_self (0 : ZstMsgID) _ s.ownedMessages
  have hold : ∀ x ∈ s.received,
      ((s.handleBeacon server).ownedMessages x.id = some x ↔ s.ownedMessages x.id = some x) := by
    intro x hx
    by_cases hid : x.id = 0
    · rw [hid, hbeacon, hfree]
      refine ⟨fun h => absurd hx ?_, fun h => (by cases h)⟩
      rw [← Option.some.inj h]
      exact hfresh
    · rw [howned x.id hid]
  refine ⟨hnumbered, fun x hx => ?_, fun x hx => ?_, fun x hx hserver => ?_, fun i x hx => ?_⟩
  · rcases List.mem_append.mp hx with hx | hx
    · have hsame : Outstanding (s.handleBeacon server) x ↔ Outstanding s x := by
        refine or_congr (and_congr_right fun _ => ⟨fun h => ?_, List.mem_append_left _⟩) (hold x hx)
        refine (List.mem_append.mp h).resolve_right fun h => hfresh ?_
        rw [← List.mem_singleton.mp h]
        exact hx
      have hcount := hs.counted x hx
      exact hcount.trans (if_congr hsame.symm rfl rfl)
    · obtain rfl := List.mem_singleton.mp hx
      have hnew : Outstanding (s.handleBeacon server)
          { number := s.received.length, id := 0, server := some server } := Or.inr hbeacon
      rw [if_pos hnew]
      exact List.count_eq_zero_of_not_mem fun h => hfresh (hs.cleaned _ h)
  · exact List.mem_append_left _ (hs.cleaned x hx)
  · rcases List.mem_append.mp hx with hx | hx
    · exact fun h => hs.apart x hx hserver ((hold x (hs.numbered.queued x hx)).mp h)
    · rw [List.mem_singleton.mp hx] at hserver
      cases hserver
  · by_cases hi : i = 0
    · subst hi
      obtain rfl := Option.some.inj (hbeacon.symm.trans hx)
      exact ⟨List.mem_append_right _ List.mem_cons_self, rfl, List.mem_cons_self⟩
    · rw [howned i hi] at hx
      obtain ⟨hreceived, hid, hpromise⟩ := hs.owned i x hx
      exact ⟨List.mem_append_left _ hreceived, hid, List.mem_cons_of_mem _ hpromise⟩

section Dequeued

variable {m : ZstMessage} {rest : List ZstMessage}

theorem mem_rest (hs : Counted s) (hqueue : s.dispatchEvents = m :: rest) {x : ZstMessage} :
    x ∈ rest ↔ x ∈ s.dispatchEvents ∧ x ≠ m := by
  have hnodup := hs.numbered.nodup
  rw [hqueue, List.nodup_cons] at hnodup
  rw [hqueue, List.mem_cons]
  constructor
  · intro hx
    refine ⟨Or.inr hx, ?_⟩
    rintro rfl
    exact hnodup.1 hx
  · rintro ⟨hx, hne⟩
    exact hx.resolve_left hne

/-- A beacon leaves the queue; it is owned or has been cleaned up. -/
theorem counted_announce (hs : Counted s) (hqueue : s.dispatchEvents = m :: rest)
    (hserver : m.server ≠ none) : Counted { s with dispatchEvents := rest } := by
  have hsame : ∀ x, Outstanding { s with dispatchEvents := rest } x ↔ Outstanding s x := fun x => by
    refine or_congr (and_congr_right fun hx => ?_) Iff.rfl
    refine (mem_rest hs hqueue).trans ⟨And.left, fun h => ⟨h, ?_⟩⟩
    rintro rfl
    exact hserver hx
  refine ⟨numbered_dequeue hs.numbered hqueue rfl rfl (Or.inl rfl), fun x hx => ?_, hs.cleaned,
    fun x hx => hs.apart x ((mem_rest hs hqueue).mp hx).1, hs.owned⟩
  exact (hs.counted x hx).trans (if_congr (hsame x).symm rfl rfl)

/-- A message that is taken for a response comes into the table of owned ones. -/
theorem counted_take (hs : Counted s) (hqueue : s.dispatchEvents = m :: rest)
    (hserver : m.server = none) (hfree : s.ownedMessages m.id = none) :
    Counted
      { s with
        dispatchEvents := rest
        hasPromise := m :: s.hasPromise
        processing := some m
        ownedMessages := Function.update s.ownedMessages m.id (some m) } := by
  have hmem : m ∈ s.dispatchEvents := by
    rw [hqueue]
    exact List.mem_cons_self
  have hold : ∀ x : ZstMessage, x ≠ m →
      (Function.update s.ownedMessages m.id (some m) x.id = some x ↔ s.ownedMessages x.id = some x) := by
    intro x hx
    by_cases hid : x.id = m.id
    · rw [hid, Function.update_self, hfree]
      exact ⟨fun h => absurd (Option.some.inj h).symm hx, fun h => (by cases h)⟩
    · rw [Function.update_of_ne hid]
  refine ⟨numbered_dequeue hs.numbered hqueue rfl rfl (Or.inr rfl), fun x hx => ?_, hs.cleaned,
    fun x hx hxserver => ?_, fun id x hx => ?_⟩
  · refine (hs.counted x hx).trans (if_congr ?_ rfl rfl)
    by_cases hxm : x = m
    · subst hxm
      exact ⟨fun _ => Or.inr (Function.update_self ..), fun _ => Or.inl ⟨hserver, hmem⟩⟩
    · refine or_congr (and_congr_right fun _ => ?_) (hold x hxm).symm
      exact ⟨fun h => (mem_rest hs hqueue).mpr ⟨h, hxm⟩, fun h => ((mem_rest hs hqueue).mp h).1⟩
  · obtain ⟨hxqueue, hxm⟩ := (mem_rest hs hqueue).mp hx
    exact fun h => hs.apart x hxqueue hxserver ((hold x hxm).mp h)
  · dsimp only at hx
    by_cases hid : id = m.id
    · subst hid
      rw [Function.update_self] at hx
      obtain rfl := Option.some.inj hx
      exact ⟨hs.numbered.queued m hmem, rfl, List.mem_cons_self⟩
    · rw [Function.update_of_ne hid] at hx
      obtain ⟨hreceived, hxid, hpromise⟩ := hs.owned id x hx
      exact ⟨hreceived, hxid, List.mem_cons_of_mem _ hpromise⟩

/-- A message that nobody waits for is cleaned up at once. -/
theorem counted_drop (hs : Counted s) (hqueue : s.dispatchEvents = m :: rest)
    (hserver : m.server = none) :
    Counted { s with dispatchEvents := rest, cleanups := s.cleanups ++ [m] } := by
  have hmem : m ∈ s.dispatchEvents := by
    rw [hqueue]
    exact List.mem_cons_self
  refine ⟨numbered_dequeue hs.numbered hqueue rfl rfl (Or.inl rfl), fun x hx => ?_, fun x hx => ?_,
    fun x hx => hs.apart x ((mem_rest hs hqueue).mp hx).1, hs.owned⟩
  · rw [List.count_append, hs.counted x hx]
    by_cases hxm : x = m
    · subst hxm
      have hbefore : Outstanding s x := Or.inl ⟨hserver, hmem⟩
      have hafter : ¬ Outstanding
          { s with dispatchEvents := rest, cleanups := s.cleanups ++ [x] } x := by
        rintro (⟨-, h⟩ | h)
        · exact ((mem_rest hs hqueue).mp h).2 rfl
        · exact hs.apart x hmem hserver h
      rw [if_pos hbefore, if_neg hafter, List.count_singleton_self]
    · rw [List.count_eq_zero_of_not_mem (fun h => hxm (List.mem_singleton.mp h)), Nat.add_zero]
      refine if_congr (or_congr (and_congr_right fun _ => ?_) Iff.rfl) rfl rfl
      exact ⟨fun h => (mem_rest hs hqueue).mpr ⟨h, hxm⟩, fun h => ((mem_rest hs hqueue).mp h).1⟩
  · rcases List.mem_append.mp hx with hx | hx
    · exact hs.cleaned x hx
    · rw [List.mem_singleton.mp hx]
      exact hs.numbered.queued m hmem

end Dequeued

end Counting

/-! ## Keeping -/

/-- The tables are in order, and every owned message is going to be released. -/
structure Tracked (s : Transport) : Prop where
  sound : RequestsConsistent s
  counted : Counted s
  kept : ∀ id m, s.ownedMessages id = some m → Kept s m

theorem tracked_opened : Tracked {} where
  sound := sound_opened
  counted := counted_opened
  kept _ _ h := by cases h

section Keeping

variable {s t : Transport} {m : ZstMessage}

/-- The thread of the request with the message's id is going to release it. -/
def ToBeReleased (s : Transport) (m : ZstMessage) : Prop :=
  ∃ r, s.requests m.id = some r ∧ HoldsMessage m r ∧ Early r

theorem kept_mono (h : Kept s m) (hprocessing : s.processing = some m → t.processing = some m)
    (hrequested : ToBeReleased s m → ToBeReleased t m)
    (hqueue : m.server.isSome → m ∈ s.dispatchEvents → m ∈ t.dispatchEvents)
    (hjoined : ∀ name, s.joinRequests name = some (.satisfied m) →
      t.joinRequests name = some (.satisfied m)) : Kept t m := by
  cases h with
  | processed h => exact .processed (hprocessing h)
  | requested r hr hholds hearly =>
    obtain ⟨r', hr', hholds', hearly'⟩ := hrequested ⟨r, hr, hholds, hearly⟩
    exact .requested r' hr' hholds' hearly'
  | announced hserver h => exact .announced hserver (hqueue hserver h)
  | joined name h => exact .joined name (hjoined name h)

theorem early_moves {r r' : Request} (hr : Early r) (hne : r.phase ≠ .responded)
    (hmoves : PhaseMoves r r') : Early r' := by
  cases hmoves with
  | sendMessage future msg => exact Or.inr (Or.inl rfl)
  | get m' msg => exact Or.inr (Or.inr (Or.inl rfl))
  | timeout msg => exact Or.inr (Or.inr (Or.inl rfl))
  | respond future msg => exact Or.inr (Or.inr (Or.inr rfl))
  | release future msg => exact absurd rfl hne
  | enqueueResolved future msg => simp [Early] at hr
  | satisfy m' _ =>
    unfold satisfy
    split
    · exact hr
    · exact hr
  | breakPromise _ =>
    unfold breakPromise
    split
    · exact hr
    · exact hr
  | stay _ => exact hr

theorem requested_update {id : ZstMsgID} {q q' : Request} (hq : s.requests id = some q)
    (hmoves : PhaseMoves q q') (hne : q.phase ≠ .responded)
    (hrequests : t.requests = Function.update s.requests id (some q')) (h : ToBeReleased s m) :
    ToBeReleased t m := by
  obtain ⟨r, hr, hholds, hearly⟩ := h
  by_cases hid : m.id = id
  · subst hid
    obtain rfl : r = q := Option.some.inj (hr.symm.trans hq)
    refine ⟨q', ?_, holds_moves hholds hmoves, early_moves hearly hne hmoves⟩
    rw [hrequests, Function.update_self]
  · refine ⟨r, ?_, hholds, hearly⟩
    rw [hrequests, Function.update_of_ne hid]
    exact hr

/-- A promise that is destroyed has its value already, if it is to be released. -/
theorem requested_map {id : ZstMsgID} {f : Request → Request}
    (hf : ∀ m r, HoldsMessage m r → f r = r)
    (hrequests : t.requests = Function.update s.requests id ((s.requests id).map f))
    (h : ToBeReleased s m) : ToBeReleased t m := by
  obtain ⟨r, hr, hholds, hearly⟩ := h
  refine ⟨r, ?_, hholds, hearly⟩
  rw [hrequests]
  by_cases hid : m.id = id
  · subst hid
    rw [Function.update_self, hr, Option.map_some, hf m r hholds]
  · rw [Function.update_of_ne hid, hr]

theorem satisfy_of_holds (m' : ZstMessage) {r : Request} (h : HoldsMessage m r) :
    satisfy m' r = r := by
  unfold satisfy
  rw [if_neg (by rw [h.1]; exact SharedState.noConfusion)]

theorem breakPromise_of_holds {r : Request} (h : HoldsMessage m r) : breakPromise r = r := by
  unfold breakPromise
  rw [if_neg (by rw [h.1]; exact SharedState.noConfusion)]

/-- A step that touches no message and keeps those who hold one. -/
theorem tracked_same (hs : Tracked s) (hsound : RequestsConsistent t) (hsame : SameMessages s t)
    (hrequested : ∀ m, ToBeReleased s m → ToBeReleased t m)
    (hjoined : ∀ name m, s.joinRequests name = some (.satisfied m) →
      t.joinRequests name = some (.satisfied m)) : Tracked t where
  sound := hsound
  counted := counted_same hs.counted hsame
  kept id m h := by
    rw [hsame.ownedMessages] at h
    refine kept_mono (hs.kept id m h) (fun h => ?_) (hrequested m) (fun _ h => ?_) fun name =>
      hjoined name m
    · rwa [hsame.processing]
    · rwa [hsame.dispatchEvents]

theorem tracked_registerResponse (hs : Tracked s) {id : ZstMsgID}
    (hstep : s.registerResponse id = .ok t) : Tracked t := by
  have hsound := sound_registerResponse hs.sound hstep
  unfold registerResponse at hstep
  split at hstep
  case h_2 => cases hstep
  rename_i hnone
  obtain rfl := Except.ok.inj hstep
  refine tracked_same hs hsound ⟨rfl, rfl, rfl, rfl, rfl, rfl⟩ (fun m h => ?_) fun _ _ h => h
  obtain ⟨r, hr, hholds, hearly⟩ := h
  refine ⟨r, ?_, hholds, hearly⟩
  have hid : m.id ≠ id := by
    rintro rfl
    rw [hnone] at hr
    cases hr
  exact (Function.update_of_ne hid ..).trans hr

theorem tracked_moved (hs : Tracked s) {event : TransportEvent} {id : ZstMsgID}
    (hevent : moved event = some id) (hstep : s.step event = .ok t) : Tracked t := by
  obtain ⟨hsame, hjoins, q, q', hq, hmoves, hne, hrequests⟩ := moves_of_moved hevent hstep
  refine tracked_same hs (sound_step hs.sound hstep) hsame
    (fun m => requested_update hq hmoves hne hrequests) fun name m h => ?_
  rwa [hjoins]

theorem tracked_setValue (hs : Tracked s) (hclaimed : Claimed s .setValue)
    (hstep : s.setValue = .ok t) : Tracked t := by
  have hsound := sound_setValue hs.sound hstep
  unfold setValue at hstep
  split at hstep
  case h_2 => cases hstep
  rename_i m hprocessing
  obtain rfl := Except.ok.inj hstep
  obtain ⟨r, ⟨hr, hphase⟩, hpending⟩ := awaitsValue_iff.mp (hclaimed m hprocessing)
  refine ⟨hsound, ⟨numbered_same hs.counted.numbered rfl rfl rfl, hs.counted.counted,
    hs.counted.cleaned, hs.counted.apart, hs.counted.owned⟩, fun id x hx => ?_⟩
  cases hs.kept id x hx with
  | processed h =>
    -- the message goes from the dispatching thread to the one that waits
    obtain rfl : m = x := Option.some.inj (hprocessing.symm.trans h)
    refine .requested { r with future := .value m } ?_ ⟨rfl, hphase.imp_right Or.inl⟩
      (hphase.imp_right Or.inl)
    dsimp only
    rw [Function.update_self, hr, Option.map_some, satisfy, if_pos hpending]
  | requested q hq hholds hearly =>
    obtain ⟨q', hq', hholds', hearly'⟩ := requested_map (m := x)
      (t := { s with
              processing := none
              requests := Function.update s.requests m.id ((s.requests m.id).map (satisfy m)) })
      (fun _ _ h => satisfy_of_holds m h) rfl ⟨q, hq, hholds, hearly⟩
    exact .requested q' hq' hholds' hearly'
  | announced hserver h => exact .announced hserver h
  | joined name h => exact .joined name h

theorem tracked_cleanup (hs : Tracked s) (hstep : s.cleanupResponseMessages = .ok t) : Tracked t := by
  have hsound := sound_cleanup hs.sound hstep
  unfold cleanupResponseMessages removeResponsePromise at hstep
  split at hstep
  case h_2 => cases hstep
  split at hstep
  · obtain rfl := Except.ok.inj hstep
    exact tracked_same hs hsound ⟨rfl, rfl, rfl, rfl, rfl, rfl⟩
      (fun m => requested_map (fun _ _ h => breakPromise_of_holds h) rfl) fun _ _ h => h
  · obtain rfl := Except.ok.inj hstep
    exact tracked_same hs hsound ⟨rfl, rfl, rfl, rfl, rfl, rfl⟩ (fun _ h => h) fun _ _ h => h

/-! ### Releasing -/

theorem owned_releaseOwnedMessage {msg x : ZstMessage} {id : ZstMsgID}
    (h : (s.releaseOwnedMessage msg).ownedMessages id = some x) :
    id ≠ msg.id ∧ s.ownedMessages id = some x := by
  unfold releaseOwnedMessage at h
  split at h
  · dsimp only at h
    by_cases hid : id = msg.id
    · rw [hid, Function.update_self] at h
      cases h
    · rw [Function.update_of_ne hid] at h
      exact ⟨hid, h⟩
  · rename_i hnone
    refine ⟨?_, h⟩
    rintro rfl
    rw [hnone] at h
    cases h

theorem kept_releaseOwnedMessage (msg : ZstMessage) (h : Kept s m) :
    Kept (s.releaseOwnedMessage msg) m := by
  unfold releaseOwnedMessage
  split
  · exact kept_mono h (fun h => h) (fun h => h) (fun _ h => h) fun _ h => h
  · exact h

/-- What is released, and what is kept by others, has a keeper afterwards. -/
theorem tracked_releaseOwnedMessage (hsound : RequestsConsistent s) (hcounted : Counted s)
    (msg : ZstMessage)
    (hkept : ∀ id x, id ≠ msg.id → s.ownedMessages id = some x → Kept s x) :
    Tracked (s.releaseOwnedMessage msg) where
  sound := sound_of_same hsound (sameRequests_releaseOwnedMessage s msg)
  counted := counted_releaseOwnedMessage hcounted msg
  kept id x hx := by
    obtain ⟨hid, hx⟩ := owned_releaseOwnedMessage hx
    exact kept_releaseOwnedMessage msg (hkept id x hid hx)

/-- The thread that goes on without the message did not have it. -/
theorem kept_released {id : ZstMsgID} {future : SharedState} {msg : Option ZstMessage}
    (hrequest : s.requests id = some ⟨future, .responded, msg⟩) (hm : m.id = id → msg ≠ some m)
    (h : Kept s m) : Kept (s.setRequest id ⟨future, .released, msg⟩) m := by
  refine kept_mono h (fun h => h) (fun ⟨r, hr, hholds, hearly⟩ => ?_) (fun _ h => h) fun _ h => h
  have hid : m.id ≠ id := by
    intro hid
    rw [hid, hrequest] at hr
    obtain rfl := Option.some.inj hr
    rcases hholds.2 with hphase | hphase | hmsg
    · cases hphase
    · cases hphase
    · exact hm hid hmsg
  exact ⟨r, (Function.update_of_ne hid ..).trans hr, hholds, hearly⟩

theorem tracked_release (hs : Tracked s) {id : ZstMsgID} (hstep : s.release id = .ok t) :
    Tracked t := by
  unfold release at hstep
  split at hstep
  case h_3 => cases hstep
  · rename_i future hrequest
    obtain rfl := Except.ok.inj hstep
    refine ⟨sound_released hs.sound hrequest,
      counted_same hs.counted ⟨rfl, rfl, rfl, rfl, rfl, rfl⟩, fun i x hx => ?_⟩
    exact kept_released hrequest (fun _ h => by cases h) (hs.kept i x hx)
  · rename_i future msg hrequest
    obtain rfl := Except.ok.inj hstep
    have hreleased := sound_released hs.sound hrequest
    have hcounted : Counted (s.setRequest id ⟨future, .released, some msg⟩) :=
      counted_same hs.counted ⟨rfl, rfl, rfl, rfl, rfl, rfl⟩
    have h := hs.sound.request id _ hrequest
    have hid : msg.id = id := h.matching msg (h.held msg rfl)
    split
    · refine tracked_releaseOwnedMessage hreleased hcounted msg fun i x hi hx => ?_
      refine kept_released hrequest (fun hxid => ?_) (hs.kept i x hx)
      exact absurd ((hs.counted.owned i x hx).2.1.symm.trans (hxid.trans hid.symm)) hi
    · rename_i hpromise
      refine ⟨hreleased, hcounted, fun i x hx => ?_⟩
      refine kept_released hrequest (fun _ hmsg => hpromise ?_) (hs.kept i x hx)
      rw [Option.some.inj hmsg]
      exact (hs.counted.owned i x hx).2.2

theorem tracked_joinOnBeacon (hs : Tracked s) {name : String} (hstep : s.joinOnBeacon name = .ok t) :
    Tracked t := by
  unfold joinOnBeacon at hstep
  split at hstep
  case h_2 => cases hstep
  rename_i msg hjoin
  obtain rfl := Except.ok.inj hstep
  have hsound : RequestsConsistent
      { s with joinRequests := Function.update s.joinRequests name none } :=
    sound_of_same hs.sound ⟨rfl, rfl, rfl, rfl⟩
  refine tracked_releaseOwnedMessage hsound
    (counted_same hs.counted ⟨rfl, rfl, rfl, rfl, rfl, rfl⟩) msg fun id x hid hx => ?_
  have hne : msg ≠ x := by
    rintro rfl
    exact hid (hs.counted.owned id msg hx).2.1.symm
  refine kept_mono (hs.kept id x hx) (fun h => h) (fun h => h) (fun _ h => h) fun other =>
    satisfied_update ?_
  rw [hjoin]
  exact fun h => hne (JoinPhase.satisfied.inj (Option.some.inj h))

/-! ### Receiving -/

theorem tracked_receive (hs : Tracked s) (id : ZstMsgID) : Tracked (s.receive id) where
  sound := sound_of_same hs.sound ⟨rfl, rfl, rfl, rfl⟩
  counted := counted_receive hs.counted id
  kept i x hx := kept_mono (hs.kept i x hx) (fun h => h) (fun h => h)
    (fun _ h => List.mem_append_left _ h) fun _ h => h

theorem tracked_handleBeacon (hs : Tracked s) (server : ZstServerAddress)
    (hfree : s.ownedMessages 0 = none) : Tracked (s.handleBeacon server) where
  sound := sound_of_same hs.sound ⟨rfl, rfl, rfl, rfl⟩
  counted := counted_handleBeacon hs.counted server hfree
  kept i x hx := by
    by_cases hi : i = 0
    · subst hi
      have hbeacon : (s.handleBeacon server).ownedMessages 0 =
          some { number := s.received.length, id := 0, server := some server } := by
        unfold handleBeacon takeMessageOwnership
        exact Function.update_self (0 : ZstMsgID) _ s.ownedMessages
      obtain rfl := Option.some.inj (hbeacon.symm.trans hx)
      exact .announced rfl (List.mem_append_right _ List.mem_cons_self)
    · have hold : s.ownedMessages i = some x := (Function.update_of_ne hi ..).symm.trans hx
      exact kept_mono (hs.kept i x hold) (fun h => h) (fun h => h)
        (fun _ h => List.mem_append_left _ h) fun _ h => h

/-- The beacon that a thread waits for goes to this thread. -/
theorem completeReceiveEvent_claimed {server : ZstServerAddress} (hserver : m.server = some server)
    (hpromise : m ∈ s.hasPromise) (hnew : server ∉ s.serverBeacons)
    (hconnected : s.connectedToStage = false)
    (hjoin : s.joinRequests server.name = some .waiting) :
    s.completeReceiveEvent m =
      { s with
        serverBeacons := server :: s.serverBeacons
        joinRequests := Function.update s.joinRequests server.name (some (.satisfied m)) } := by
  have hhandler : s.serverDiscoveryHandler m server =
      { s with
        serverBeacons := server :: s.serverBeacons
        joinRequests := Function.update s.joinRequests server.name (some (.satisfied m)) } := by
    unfold serverDiscoveryHandler
    rw [if_neg hnew, if_pos ⟨hconnected, hjoin⟩]
  unfold completeReceiveEvent
  rw [hserver, Option.elim_some, hhandler]
  exact if_pos hpromise

theorem completeReceiveEvent_stage (hserver : m.server = none) (hpromise : m ∉ s.hasPromise) :
    s.completeReceiveEvent m = s.processMessageResponse m := by
  unfold completeReceiveEvent
  rw [hserver, Option.elim_none, if_neg hpromise]

theorem tracked_dispatch (hs : Tracked s) (hclaimed : Claimed s .dispatch)
    (hstep : s.dispatch = .ok t) : Tracked t := by
  have hdispatched : s.step .dispatch = .ok t := hstep
  have hsound := sound_step hs.sound hdispatched
  unfold dispatch at hstep
  split at hstep
  case h_2 => cases hstep
  rename_i m rest hprocessing hqueue
  obtain rfl := Except.ok.inj hstep
  have hmem : m ∈ s.dispatchEvents := by
    rw [hqueue]
    exact List.mem_cons_self
  have hrest : ∀ x, x ≠ m → x ∈ s.dispatchEvents → x ∈ rest := fun x hne hx =>
    (mem_rest hs.counted hqueue).mpr ⟨hx, hne⟩
  obtain ⟨hresponse, hbeacon⟩ := hclaimed m (by rw [hqueue]; rfl)
  have hnobody : ∀ x, s.processing ≠ some x := fun x h => by
    rw [hprocessing] at h
    cases h
  cases hserver : m.server with
  | some server =>
    obtain ⟨hnew, hconnected, hjoin⟩ := hbeacon server hserver
    have hpromise : m ∈ s.hasPromise := hs.counted.numbered.beacon m hmem (by rw [hserver]; rfl)
    have heq := completeReceiveEvent_claimed (s := { s with dispatchEvents := rest }) hserver hpromise
      hnew hconnected hjoin
    rw [heq] at hsound ⊢
    have hcounted := counted_announce hs.counted hqueue (by rw [hserver]; exact fun h => (by cases h))
    refine ⟨hsound, counted_same hcounted ⟨rfl, rfl, rfl, rfl, rfl, rfl⟩, fun id x hx => ?_⟩
    by_cases hxm : x = m
    · subst hxm
      exact .joined server.name (Function.update_self ..)
    · refine kept_mono (hs.kept id x hx) (fun h => h) (fun h => h) (fun _ h => hrest x hxm h)
        fun other => satisfied_update ?_
      rw [hjoin]
      exact fun h => (by cases h)
  | none =>
    have hpromise : m ∉ s.hasPromise := hs.counted.numbered.unpromised m hmem hserver
    have heq := completeReceiveEvent_stage (s := { s with dispatchEvents := rest }) hserver hpromise
    rw [heq] at hsound ⊢
    unfold processMessageResponse at hsound ⊢
    by_cases hpromised : m.id ∈ s.responsePromises
    · obtain ⟨-, hfree⟩ := hresponse hserver hpromised
      rw [if_pos hpromised] at hsound ⊢
      refine ⟨hsound, counted_take hs.counted hqueue hserver hfree, fun id x hx => ?_⟩
      have howned : Function.update s.ownedMessages m.id (some m) id = some x := hx
      by_cases hid : id = m.id
      · rw [hid, Function.update_self] at howned
        obtain rfl := Option.some.inj howned
        exact .processed rfl
      · rw [Function.update_of_ne hid] at howned
        have hold : s.ownedMessages id = some x := howned
        have hxm : x ≠ m := by
          rintro rfl
          exact hid (hs.counted.owned id x hold).2.1.symm
        exact kept_mono (hs.kept id x hold) (fun h => absurd h (hnobody x)) (fun h => h)
          (fun _ h => hrest x hxm h) fun _ h => h
    · rw [if_neg hpromised] at hsound ⊢
      have hcounted := counted_drop hs.counted hqueue hserver
      refine ⟨hsound, hcounted, fun id x hx => ?_⟩
      have hxm : x ≠ m := by
        rintro rfl
        obtain ⟨-, hid, -⟩ := hs.counted.owned id x hx
        exact hs.counted.apart x hmem hserver (hid ▸ hx)
      exact kept_mono (hs.kept id x hx) (fun h => h) (fun h => h) (fun _ h => hrest x hxm h)
        fun _ h => h

theorem tracked_step (hs : Tracked s) {event : TransportEvent} (hclaimed : Claimed s event)
    (hstep : s.step event = .ok t) : Tracked t := by
  cases event with
  | registerResponse id => exact tracked_registerResponse hs hstep
  | sendMessage _ | get _ | timeout _ | respond _ | enqueueResolved _ => exact tracked_moved hs rfl hstep
  | receive id =>
    obtain rfl := Except.ok.inj hstep
    exact tracked_receive hs id
  | beacon server =>
    obtain rfl := Except.ok.inj hstep
    exact tracked_handleBeacon hs server hclaimed
  | dispatch => exact tracked_dispatch hs hclaimed hstep
  | setValue => exact tracked_setValue hs hclaimed hstep
  | release id => exact tracked_release hs hstep
  | cleanup => exact tracked_cleanup hs hstep
  | joinOnBeacon name => exact tracked_joinOnBeacon hs hstep
  | autoJoin _ | joinTimeout _ | eraseJoin _ | setConnected _ | serverLost _ =>
    have hsound := sound_step hs.sound hstep
    obtain ⟨hrequests, hmessages, hjoined⟩ := same_of_outside rfl hstep
    refine tracked_same hs hsound hmessages (fun m ⟨r, hr, hholds, hearly⟩ => ?_) hjoined
    exact ⟨r, hrequests.requests ▸ hr, hholds, hearly⟩

end Keeping

/-! ## The result -/

theorem not_kept_of_quiescent {s : Transport} (hquiet : Quiescent s) (m : ZstMessage) :
    ¬ Kept s m := by
  intro hkept
  cases hkept with
  | processed h =>
    rw [hquiet.processing] at h
    cases h
  | requested r hr hholds hearly =>
    have hphase := hquiet.requests m.id r hr
    simp [Early, hphase] at hearly
  | announced hserver hqueue =>
    rw [hquiet.dispatchEvents] at hqueue
    cases hqueue
  | joined name h =>
    rw [hquiet.joinRequests name] at h
    cases h

/-- Where every response comes while its request waits and is the first one, and
every beacon is one that a thread waits for, the cleanup callback of each message
has run once when no thread has anything left to do. -/
theorem cleanedOnce_of_claimed (events : List TransportEvent) {s : Transport}
    (hclaimed : Along Transport.step Claimed {} events)
    (hrun : run Transport.step {} events = .ok s) (hquiet : Quiescent s) :
    ∀ m ∈ s.received, s.cleanups.count m = 1 := by
  have hs : Tracked s := run_invariant (fun _ _ _ hs hcondition hstep =>
    tracked_step hs hcondition hstep) tracked_opened hclaimed hrun
  intro m hm
  rw [hs.counted.counted m hm, if_neg]
  rintro (⟨-, hqueue⟩ | howned)
  · rw [hquiet.dispatchEvents] at hqueue
    cases hqueue
  · exact not_kept_of_quiescent hquiet m (hs.kept m.id m howned)

/-- A response in time, a message that nobody waits for, and the beacon of the
server that a thread waits for. -/
def claimedMessages : List TransportEvent :=
  [.registerResponse 1, .sendMessage 1, .receive 1, .receive 2, .autoJoin "stage",
    .beacon { name := "stage", address := "localhost:40000" }, .dispatch, .setValue, .dispatch,
    .dispatch, .get 1, .respond 1, .joinOnBeacon "stage", .release 1, .enqueueResolved 1, .cleanup]

theorem cleanedOnce_of_claimed_claimedMessages : ∃ s,
    run Transport.step {} claimedMessages = .ok s ∧ s.received.length = 3 ∧
      ∀ m ∈ s.received, s.cleanups.count m = 1 := by
  refine ⟨_, rfl, rfl, cleanedOnce_of_claimed claimedMessages (by decide) rfl
    ⟨rfl, rfl, rfl, fun id r h => ?_, fun name => ?_⟩⟩
  · cases id with
    | zero => cases h
    | succ n => cases n with
      | zero =>
        obtain rfl := Option.some.inj h
        rfl
      | succ n => cases h
  · by_cases hname : name = "stage"
    · subst hname
      rfl
    · have hnone : ∀ (joins : String → Option JoinPhase) phase phase', joins name = none →
          Function.update (Function.update (Function.update joins "stage" phase) "stage" phase')
            "stage" none name = none := fun joins phase phase' h => by
        rw [Function.update_of_ne hname, Function.update_of_ne hname, Function.update_of_ne hname, h]
      exact hnone (fun _ => none) (some .waiting) (some (.satisfied _)) rfl

/-- The response comes after its request has given up, and nobody releases it. -/
def lateResponse : List TransportEvent :=
  [.registerResponse 1, .sendMessage 1, .timeout 1, .receive 1, .dispatch, .setValue, .respond 1,
    .release 1, .enqueueResolved 1, .cleanup]

theorem lateResponse_not_cleaned : ∃ s, run Transport.step {} lateResponse = .ok s ∧ Quiescent s ∧
    ¬ ∀ m ∈ s.received, s.cleanups.count m = 1 := by
  refine ⟨_, rfl, ⟨rfl, rfl, rfl, fun id r h => ?_, fun _ => rfl⟩, by decide⟩
  cases id with
  | zero => cases h
  | succ n => cases n with
    | zero =>
      obtain rfl := Option.some.inj h
      rfl
    | succ n => cases h

end Showtime.MessageCleanup
