import Showtime.ServerDiscovery
/-!
# Joining a stage by its name

`auto_join_stage` looks for the server in the list of those that are known, and
only then puts down a promise for its beacon, on which `join_on_beacon` waits.
The beacons come in on another thread.
-/

namespace Showtime.AutoJoin

open Library
open JoinAttempts (ZstServerAddress)
open ServerDiscovery (Discovery ServerBeacon serverBeaconToAddress stageTimeout)

structure AutoJoinCall where
  name : String
  sendtype : SendBehaviour
  deriving DecidableEq, Repr

/-- Where the thread of the call is. -/
inductive Place
  | called | scanning | installing | posted
  | waiting (deadline : Nat)
  | ready (msg : ServerBeacon)
  | joined | expired | finished
  deriving DecidableEq, Repr

namespace Place

/-- The call goes on, and its wait has not expired. -/
def pending : Place → Bool
  | .expired | .finished => false
  | _ => true

end Place

/-- A promise with the beacon that satisfies it. -/
abbrev Promise := Option ServerBeacon

abbrev requestName (request : String × Promise) : String :=
  request.1

structure JoiningClient where
  discovery : Discovery
  connectedToStage : Bool := false
  autoJoinStage : Bool
  autoJoinStageRequests : KeyedSet requestName := .empty
  place : Place := .called
  /-- The calls of `join_stage`. -/
  joins : List ZstServerAddress := []

inductive AutoJoinStep
  | beacon (msg : ServerBeacon) (now : Nat)
  | check (now : Nat)
  /-- The thread of the call takes a step, ... -/
  | caller (now : Nat)
  /-- ... or the stage accepts a join. -/
  | accepted
  deriving DecidableEq, Repr

namespace JoiningClient

def serverDiscoveryHandler (s : JoiningClient) (msg : ServerBeacon) (now : Nat) :
    Except Fault JoiningClient :=
  let after := { s with discovery := s.discovery.serverDiscoveryHandler msg now }
  if (s.discovery.serverBeacons.find msg.name).isSome then .ok after
  else if s.autoJoinStage && !s.connectedToStage then
    match s.autoJoinStageRequests.find msg.name with
    | none => .ok after
    | some (_, none) =>
      .ok { after with autoJoinStageRequests := s.autoJoinStageRequests.put (msg.name, some msg) }
    -- `set_value` throws on a promise that is satisfied already
    | some (_, some _) => .error .exception
  else .ok after

def joinStage (s : JoiningClient) (server : ZstServerAddress) : JoiningClient :=
  { s with joins := s.joins ++ [server] }

/-- `auto_join_stage` up to its wait, and `join_on_beacon`. -/
def stepCaller (ticks : Nat) (call : AutoJoinCall) (s : JoiningClient) (now : Nat) :
    JoiningClient :=
  match s.place with
  | .called => { s with autoJoinStage := true, place := .scanning }
  | .scanning =>
    match s.discovery.serverBeacons.find call.name with
    | some server => { s.joinStage server with place := .finished }
    | none => { s with place := .installing }
  | .installing =>
    { s with
      autoJoinStageRequests := s.autoJoinStageRequests.put (call.name, none)
      -- a published request is not waited for
      place := if call.sendtype = .publish then .finished else .posted }
  | .posted => { s with place := .waiting (now + stageTimeout * ticks) }
  | .waiting deadline =>
    match s.autoJoinStageRequests.find call.name with
    | some (_, some msg) => { s with place := .ready msg }
    | _ => if deadline ≤ now then { s with place := .expired } else s
  | .ready msg => { s.joinStage (serverBeaconToAddress msg) with place := .joined }
  | .joined | .expired =>
    { s with
      autoJoinStageRequests := s.autoJoinStageRequests.erase call.name
      place := .finished }
  | .finished => s

def step (ticks : Nat) (call : AutoJoinCall) (s : JoiningClient) :
    AutoJoinStep → Except Fault JoiningClient
  | .beacon msg now => s.serverDiscoveryHandler msg now
  | .check now => .ok { s with discovery := s.discovery.beaconcheckTimer ticks now }
  | .caller now => .ok (s.stepCaller ticks call now)
  -- only a join that was called for is accepted
  | .accepted => .ok { s with connectedToStage := s.connectedToStage || !s.joins.isEmpty }

end JoiningClient

/-- The call starts on a client that is not connected. -/
def autoJoinStage (discovery : Discovery) (autoJoinStage : Bool) : JoiningClient :=
  { discovery := discovery, autoJoinStage := autoJoinStage }

open JoiningClient

section Runs

variable (ticks : Nat) (call : AutoJoinCall)

/-- A beacon of the server comes before the wait has expired. -/
def BeaconHeard (start : JoiningClient) (history : List AutoJoinStep) : Prop :=
  ∃ before msg now after u, history = before ++ .beacon msg now :: after ∧
    Library.run (step ticks call) start before = .ok u ∧ msg.name = call.name ∧
      u.place.pending = true

/-- The server is known when the call starts, or it is heard of. -/
def Called (start : JoiningClient) (history : List AutoJoinStep) : Prop :=
  (start.discovery.serverBeacons.find call.name).isSome = true ∨
    BeaconHeard ticks call start history

/-- An address that was known at the start or came with a beacon. -/
def AddressHeard (start : JoiningClient) (history : List AutoJoinStep) (server : ZstServerAddress) :
    Prop :=
  server ∈ start.discovery.serverBeacons ∨
    ∃ msg now, .beacon msg now ∈ history ∧ server = serverBeaconToAddress msg

/-- The promise of the call is satisfied. -/
def Satisfied (s : JoiningClient) : Prop :=
  ∃ msg, s.autoJoinStageRequests.find call.name = some (call.name, some msg)

/-- What else happens does not fall between two steps of the call: no beacon of the
server comes after the scan and before the promise is there, none of a server that was
lost after the promise was satisfied, and the server is not lost before the scan. -/
def NoInterference (s : JoiningClient) : AutoJoinStep → Prop
  | .beacon msg _ => msg.name = call.name → s.place ≠ .installing ∧
      (s.discovery.serverBeacons.find call.name = none → s.connectedToStage = false →
        ¬ Satisfied call s)
  | .check now => s.place = .called ∨ s.place = .scanning →
      (s.discovery.serverBeacons.find call.name).isSome = true →
        ((s.discovery.beaconcheckTimer ticks now).serverBeacons.find call.name).isSome = true
  | .caller _ | .accepted => True

end Runs

/-! ## What each place tells -/

/-- The request of the call is there, and its promise. -/
def HasPromise (call : AutoJoinCall) (s : JoiningClient) (promise : Promise) : Prop :=
  s.autoJoinStageRequests.find call.name = some (call.name, promise)

/-- The beacon of the server has not come in. -/
structure Unheard (call : AutoJoinCall) (s : JoiningClient) (isCalled : Prop) : Prop where
  unlisted : s.discovery.serverBeacons.find call.name = none
  uncalled : ¬ isCalled

structure Scans (call : AutoJoinCall) (s : JoiningClient) (isCalled : Prop) : Prop where
  unjoined : s.joins = []
  unasked : s.autoJoinStageRequests.find call.name = none
  listed : isCalled ↔ (s.discovery.serverBeacons.find call.name).isSome = true

structure CallWaits (call : AutoJoinCall) (s : JoiningClient) (isCalled : Prop) : Prop where
  unjoined : s.joins = []
  requested : ∃ promise, HasPromise call s promise ∧ (promise = none → Unheard call s isCalled)

def Stands (call : AutoJoinCall) (s : JoiningClient) (isCalled : Prop) : Place → Prop
  | .called | .scanning => Scans call s isCalled
  | .installing => s.joins = [] ∧ s.autoJoinStageRequests.find call.name = none ∧
      Unheard call s isCalled
  | .posted | .waiting _ => CallWaits call s isCalled
  | .ready msg => s.joins = [] ∧ HasPromise call s (some msg)
  | .joined => ∃ server, s.joins = [server]
  | .expired => s.joins = [] ∧ ¬ isCalled
  | .finished => s.joins = [] ∧ ¬ isCalled ∨ ∃ server, s.joins = [server]

structure CallInvariant (ticks : Nat) (call : AutoJoinCall) (start s : JoiningClient)
    (history : List AutoJoinStep) :
    Prop where
  stands : Stands call s (Called ticks call start history) s.place
  flagged : s.place ≠ .called → s.autoJoinStage = true
  others : ∀ other, other ≠ call.name → s.autoJoinStageRequests.find other = none
  quiet : s.joins = [] → s.connectedToStage = false
  known : ∀ server ∈ s.discovery.serverBeacons, AddressHeard start history server
  satisfied : ∀ msg, HasPromise call s (some msg) →
    msg.name = call.name ∧ ∃ now, .beacon msg now ∈ history
  announced : ∀ server ∈ s.joins, server.name = call.name ∧ AddressHeard start history server

section Steps

variable {ticks : Nat} {call : AutoJoinCall} {start s t : JoiningClient}
  {history : List AutoJoinStep}
  {event : AutoJoinStep} {msg : ServerBeacon} {now : Nat}

theorem called_concat (hrun : Library.run (step ticks call) start history = .ok s) :
    Called ticks call start (history ++ [event]) ↔ Called ticks call start history ∨
      ∃ msg now, event = .beacon msg now ∧ msg.name = call.name ∧ s.place.pending = true := by
  unfold Called
  rw [or_assoc]
  refine or_congr_right ⟨?_, ?_⟩
  · rintro ⟨before, msg, now, after, u, hsplit, hu, hname, hpending⟩
    cases after using List.reverseRecOn with
    | nil =>
      obtain ⟨rfl, hevent⟩ := List.append_inj' hsplit rfl
      obtain rfl : s = u := Except.ok.inj (hrun.symm.trans hu)
      exact Or.inr ⟨msg, now, List.head_eq_of_cons_eq hevent, hname, hpending⟩
    | append_singleton after last =>
      rw [← List.cons_append, ← List.append_assoc] at hsplit
      obtain ⟨rfl, -⟩ := List.append_inj' hsplit rfl
      exact Or.inl ⟨before, msg, now, after, u, rfl, hu, hname, hpending⟩
  · rintro (⟨before, msg, now, after, u, rfl, hu, hname, hpending⟩ | ⟨msg, now, rfl, hname, hpending⟩)
    · exact ⟨before, msg, now, after ++ [event], u, by simp, hu, hname, hpending⟩
    · exact ⟨history, msg, now, [], s, rfl, hrun, hname, hpending⟩

theorem AddressHeard.concat {server : ZstServerAddress}
    (hknown : AddressHeard start history server) :
    AddressHeard start (history ++ [event]) server :=
  hknown.imp_right fun ⟨msg, now, hmem, heq⟩ => ⟨msg, now, List.mem_append_left _ hmem, heq⟩

/-- The beacon is listed, and satisfies at most the promise for its server. -/
theorem serverDiscoveryHandler_ok (hstep : s.serverDiscoveryHandler msg now = .ok t) :
    ∃ requests, t = { s with
        discovery := s.discovery.serverDiscoveryHandler msg now
        autoJoinStageRequests := requests } ∧
      (requests = s.autoJoinStageRequests ∧ (s.discovery.serverBeacons.find msg.name = none →
          s.autoJoinStage = true → s.connectedToStage = false →
            s.autoJoinStageRequests.find msg.name = none) ∨
        requests = s.autoJoinStageRequests.put (msg.name, some msg) ∧
          s.autoJoinStageRequests.find msg.name = some (msg.name, none)) := by
  unfold JoiningClient.serverDiscoveryHandler at hstep
  dsimp only at hstep
  split at hstep
  · rename_i hlisted
    refine ⟨_, (Except.ok.inj hstep).symm, Or.inl ⟨rfl, fun hnone => ?_⟩⟩
    rw [hnone] at hlisted
    cases hlisted
  · split at hstep
    · split at hstep
      · rename_i hrequest
        exact ⟨_, (Except.ok.inj hstep).symm, Or.inl ⟨rfl, fun _ _ _ => hrequest⟩⟩
      · rename_i name hrequest
        obtain rfl : name = msg.name := (KeyedSet.find_eq_some.mp hrequest).2
        exact ⟨_, (Except.ok.inj hstep).symm, Or.inr ⟨rfl, hrequest⟩⟩
      · cases hstep
    · rename_i hquiet
      refine ⟨_, (Except.ok.inj hstep).symm, Or.inl ⟨rfl, fun _ hflag hconnected => ?_⟩⟩
      rw [hflag, hconnected] at hquiet
      exact absurd rfl hquiet

/-- It throws if and only if the promise is satisfied already. -/
theorem serverDiscoveryHandler_error {fault : Fault} :
    s.serverDiscoveryHandler msg now = .error fault ↔ fault = .exception ∧
      s.discovery.serverBeacons.find msg.name = none ∧ s.autoJoinStage = true ∧
        s.connectedToStage = false ∧
          ∃ before, s.autoJoinStageRequests.find msg.name = some (msg.name, some before) := by
  unfold JoiningClient.serverDiscoveryHandler
  dsimp only
  split
  · rename_i hlisted
    obtain ⟨server, hserver⟩ := Option.isSome_iff_exists.mp hlisted
    simp [hserver]
  · rename_i hlisted
    rw [Option.not_isSome_iff_eq_none] at hlisted
    split
    · rename_i hflag
      obtain ⟨hflag, hconnected⟩ : s.autoJoinStage = true ∧ s.connectedToStage = false := by
        simpa using hflag
      split
      · rename_i hrequest
        simp [hrequest]
      · rename_i hrequest
        simp [hrequest]
      · rename_i name before hrequest
        obtain rfl : name = msg.name := (KeyedSet.find_eq_some.mp hrequest).2
        simp [hlisted, hflag, hconnected, hrequest, eq_comm]
    · rename_i hquiet
      refine iff_of_false (by simp) ?_
      rintro ⟨-, -, hflag, hconnected, -⟩
      rw [hflag, hconnected] at hquiet
      exact hquiet rfl

theorem Unheard.imp {isCalled isCalled' : Prop} (unheard : Unheard call s isCalled)
    (hlisted : (t.discovery.serverBeacons.find call.name).isSome = true →
      (s.discovery.serverBeacons.find call.name).isSome = true)
    (hcalled : isCalled' → isCalled) : Unheard call t isCalled' := by
  refine ⟨?_, fun hnew => unheard.uncalled (hcalled hnew)⟩
  rw [← Option.not_isSome_iff_eq_none] at *
  intro hnow
  have hbefore := hlisted hnow
  rw [unheard.unlisted] at hbefore
  cases hbefore

/-- What the thread of the call sees is not changed by what only touches the list. -/
theorem Stands.of_same {isCalled isCalled' : Prop} {place : Place}
    (stands : Stands call s isCalled place) (hjoins : t.joins = s.joins)
    (hrequest : t.autoJoinStageRequests.find call.name = s.autoJoinStageRequests.find call.name)
    (hlisted : (t.discovery.serverBeacons.find call.name).isSome = true →
      (s.discovery.serverBeacons.find call.name).isSome = true)
    (hcalled : isCalled' ↔ isCalled)
    (hkept : place = .called ∨ place = .scanning →
      (s.discovery.serverBeacons.find call.name).isSome = true →
        (t.discovery.serverBeacons.find call.name).isSome = true) :
    Stands call t isCalled' place := by
  have hscans (hplace : place = .called ∨ place = .scanning) (scans : Scans call s isCalled) :
      Scans call t isCalled' :=
    ⟨hjoins.trans scans.unjoined, hrequest.trans scans.unasked,
      hcalled.trans (scans.listed.trans ⟨hkept hplace, hlisted⟩)⟩
  have hwaits (waits : CallWaits call s isCalled) : CallWaits call t isCalled' := by
    obtain ⟨promise, requested, unheard⟩ := waits.requested
    exact ⟨hjoins.trans waits.unjoined, promise, hrequest.trans requested,
      fun hnone => (unheard hnone).imp hlisted hcalled.mp⟩
  cases place with
  | called => exact hscans (Or.inl rfl) stands
  | scanning => exact hscans (Or.inr rfl) stands
  | installing =>
    obtain ⟨unjoined, unasked, unheard⟩ := stands
    exact ⟨hjoins.trans unjoined, hrequest.trans unasked, unheard.imp hlisted hcalled.mp⟩
  | posted => exact hwaits stands
  | waiting deadline => exact hwaits stands
  | ready msg => exact ⟨hjoins.trans stands.1, hrequest.trans stands.2⟩
  | joined =>
    obtain ⟨server, once⟩ := stands
    exact ⟨server, hjoins.trans once⟩
  | expired => exact ⟨hjoins.trans stands.1, fun hnew => stands.2 (hcalled.mp hnew)⟩
  | finished =>
    unfold Stands at stands ⊢
    rwa [hjoins, hcalled]

/-- A promise that is not there, or is satisfied, stays as it is. -/
theorem requests_of_ne (hstep : s.serverDiscoveryHandler msg now = .ok t)
    (hother : s.autoJoinStageRequests.find msg.name ≠ some (msg.name, none)) :
    t.autoJoinStageRequests = s.autoJoinStageRequests := by
  obtain ⟨requests, rfl, ⟨hsame, -⟩ | ⟨-, hrequest⟩⟩ := serverDiscoveryHandler_ok hstep
  · exact hsame
  · exact absurd hrequest hother

theorem Scans.heard {isCalled isCalled' : Prop} (scans : Scans call s isCalled)
    (hname : msg.name = call.name) (hstep : s.serverDiscoveryHandler msg now = .ok t)
    (hcalled : isCalled') : Scans call t isCalled' := by
  have hunasked := scans.unasked
  rw [← hname] at hunasked
  have hrequests := requests_of_ne hstep (by simp [hunasked])
  obtain ⟨requests, rfl, -⟩ := serverDiscoveryHandler_ok hstep
  dsimp only at hrequests
  subst hrequests
  exact ⟨scans.unjoined, scans.unasked, iff_of_true hcalled
    (ServerDiscovery.isSome_find_beacon.mpr (Or.inl hname))⟩

theorem CallWaits.heard {isCalled isCalled' : Prop} (waits : CallWaits call s isCalled)
    (hname : msg.name = call.name) (hstep : s.serverDiscoveryHandler msg now = .ok t)
    (hflag : s.autoJoinStage = true) (hconnected : s.connectedToStage = false) :
    CallWaits call t isCalled' := by
  obtain ⟨promise, requested, unheard⟩ := waits.requested
  obtain ⟨requests, rfl, hrequests⟩ := serverDiscoveryHandler_ok hstep
  rw [hname] at hrequests
  unfold HasPromise at requested
  cases promise with
  | none =>
    -- the server is not listed yet, so the beacon satisfies the promise
    rcases hrequests with ⟨-, hmissed⟩ | ⟨rfl, -⟩
    · have hnone := hmissed (unheard rfl).unlisted hflag hconnected
      exact absurd (hnone.symm.trans requested) (by simp)
    · refine ⟨waits.unjoined, some msg, ?_, fun hnone => by cases hnone⟩
      exact (KeyedSet.find_put _ _ _).trans (by simp)
  | some before =>
    rcases hrequests with ⟨rfl, -⟩ | ⟨-, hrequest⟩
    · exact ⟨waits.unjoined, some before, requested, fun hnone => by cases hnone⟩
    · exact absurd (hrequest.symm.trans requested) (by simp)

/-- The server itself is heard, at a time at which its beacon is not missed. -/
theorem CallInvariant.stands_heard (sound : CallInvariant ticks call start s history)
    (hrun : Library.run (step ticks call) start history = .ok s) (hname : msg.name = call.name)
    (hundisturbed : NoInterference ticks call s (.beacon msg now))
    (hstep : s.serverDiscoveryHandler msg now = .ok t) :
    Stands call t (Called ticks call start (history ++ [.beacon msg now])) t.place := by
  have hcalled : Called ticks call start (history ++ [.beacon msg now]) ↔ _ := called_concat hrun
  have hearly (hpending : s.place.pending = true) :
      Called ticks call start (history ++ [.beacon msg now]) :=
    hcalled.mpr (Or.inr ⟨msg, now, rfl, hname, hpending⟩)
  have hlate (hpending : s.place.pending = false) (hbefore : ¬ Called ticks call start history) :
      ¬ Called ticks call start (history ++ [.beacon msg now]) := by
    refine fun hnow => hbefore ((hcalled.mp hnow).resolve_right ?_)
    rintro ⟨-, -, -, -, hstill⟩
    rw [hpending] at hstill
    cases hstill
  have hkept : t.place = s.place ∧ t.joins = s.joins := by
    obtain ⟨requests, rfl, -⟩ := serverDiscoveryHandler_ok hstep
    exact ⟨rfl, rfl⟩
  have stands := sound.stands
  have hflagged := sound.flagged
  have hplace := (hundisturbed hname).1
  rw [hkept.1]
  generalize s.place = place at stands hflagged hplace hearly hlate
  cases place with
  | called => exact Scans.heard stands hname hstep (hearly rfl)
  | scanning => exact Scans.heard stands hname hstep (hearly rfl)
  | installing => exact absurd rfl hplace
  | posted =>
    exact CallWaits.heard stands hname hstep (hflagged (by simp)) (sound.quiet stands.unjoined)
  | waiting deadline =>
    exact CallWaits.heard stands hname hstep (hflagged (by simp)) (sound.quiet stands.unjoined)
  | ready before =>
    obtain ⟨unjoined, requested⟩ := stands
    refine ⟨hkept.2.trans unjoined, ?_⟩
    unfold HasPromise at requested ⊢
    rw [requests_of_ne hstep (by simp [hname, requested])]
    exact requested
  | joined =>
    unfold Stands
    rwa [hkept.2]
  | expired => exact ⟨hkept.2.trans stands.1, hlate rfl stands.2⟩
  | finished =>
    unfold Stands
    rw [hkept.2]
    exact stands.imp_left fun h => ⟨h.1, hlate rfl h.2⟩

/-- The beacon of another server satisfies no promise of this call. -/
theorem CallInvariant.stands_other (sound : CallInvariant ticks call start s history)
    (hrun : Library.run (step ticks call) start history = .ok s) (hname : msg.name ≠ call.name)
    (hstep : s.serverDiscoveryHandler msg now = .ok t) :
    Stands call t (Called ticks call start (history ++ [.beacon msg now])) t.place := by
  obtain ⟨requests, rfl, hrequests⟩ := serverDiscoveryHandler_ok hstep
  refine sound.stands.of_same rfl ?_ ?_ ((called_concat hrun).trans (or_iff_left ?_))
    (fun _ hlisted => ?_)
  · rcases hrequests with ⟨rfl, -⟩ | ⟨rfl, -⟩
    · rfl
    · exact (KeyedSet.find_put _ _ _).trans (if_neg hname)
  · intro hnow
    exact (ServerDiscovery.isSome_find_beacon.mp hnow).resolve_left hname
  · rintro ⟨other, time, hsame, hother, -⟩
    obtain ⟨rfl, -⟩ := AutoJoinStep.beacon.inj hsame
    exact hname hother
  · exact ServerDiscovery.isSome_find_beacon.mpr (Or.inr hlisted)

theorem CallInvariant.beacon (sound : CallInvariant ticks call start s history)
    (hrun : Library.run (step ticks call) start history = .ok s)
    (hundisturbed : NoInterference ticks call s (.beacon msg now))
    (hstep : s.serverDiscoveryHandler msg now = .ok t) :
    CallInvariant ticks call start t (history ++ [.beacon msg now]) := by
  have hstands : Stands call t (Called ticks call start (history ++ [.beacon msg now]))
      t.place := by
    by_cases hname : msg.name = call.name
    · exact sound.stands_heard hrun hname hundisturbed hstep
    · exact sound.stands_other hrun hname hstep
  obtain ⟨requests, rfl, hrequests⟩ := serverDiscoveryHandler_ok hstep
  have hfind : ∀ name, requests.find name = s.autoJoinStageRequests.find name ∨
      name = msg.name ∧ msg.name = call.name ∧ requests.find name = some (name, some msg) := by
    intro name
    rcases hrequests with ⟨rfl, -⟩ | ⟨rfl, hrequest⟩
    · exact Or.inl rfl
    · have hown : msg.name = call.name := by
        by_contra hother
        rw [sound.others msg.name hother] at hrequest
        cases hrequest
      rw [KeyedSet.find_put]
      by_cases hname : msg.name = name
      · exact Or.inr ⟨hname.symm, hown, by simp [hname]⟩
      · exact Or.inl (if_neg hname)
  refine ⟨hstands, sound.flagged, fun other hother => ?_, sound.quiet, fun server hserver => ?_,
    fun before hbefore => ?_, fun server hserver => ?_⟩
  · rcases hfind other with hsame | ⟨rfl, hown, -⟩
    · exact hsame.trans (sound.others other hother)
    · exact absurd hown hother
  · rcases ServerDiscovery.mem_serverBeacons_beacon.mp hserver with hlisted | ⟨rfl, -⟩
    · exact (sound.known server hlisted).concat
    · exact Or.inr ⟨msg, now, List.mem_append_right _ List.mem_cons_self, rfl⟩
  · rcases hfind call.name with hsame | ⟨-, hown, hnew⟩
    · obtain ⟨hname, time, hmem⟩ := sound.satisfied before (hsame.symm.trans hbefore)
      exact ⟨hname, time, List.mem_append_left _ hmem⟩
    · obtain rfl : msg = before := by simpa using hnew.symm.trans hbefore
      exact ⟨hown, now, List.mem_append_right _ List.mem_cons_self⟩
  · exact (sound.announced server hserver).imp_right AddressHeard.concat

/-- Only a beacon calls. -/
theorem called_concat_other (hrun : Library.run (step ticks call) start history = .ok s)
    (hevent : ∀ msg now, event ≠ .beacon msg now) :
    Called ticks call start (history ++ [event]) ↔ Called ticks call start history :=
  (called_concat hrun).trans (or_iff_left fun ⟨msg, now, hsame, _⟩ => hevent msg now hsame)

theorem CallInvariant.check (sound : CallInvariant ticks call start s history)
    (hrun : Library.run (step ticks call) start history = .ok s)
    (hundisturbed : NoInterference ticks call s (.check now)) :
    CallInvariant ticks call start { s with discovery := s.discovery.beaconcheckTimer ticks now }
      (history ++ [.check now]) := by
  refine ⟨?_, sound.flagged, sound.others, sound.quiet, fun server hserver => ?_, fun msg hmsg => ?_,
    fun server hserver => (sound.announced server hserver).imp_right AddressHeard.concat⟩
  · refine sound.stands.of_same rfl rfl (fun hnow => ?_)
      (called_concat_other hrun (by simp)) hundisturbed
    obtain ⟨server, hserver, hname⟩ := KeyedSet.isSome_find.mp hnow
    exact KeyedSet.isSome_find.mpr
      ⟨server, ServerDiscovery.mem_of_mem_beaconcheckTimer hserver, hname⟩
  · exact (sound.known server (ServerDiscovery.mem_of_mem_beaconcheckTimer hserver)).concat
  · obtain ⟨hname, time, hmem⟩ := sound.satisfied msg hmsg
    exact ⟨hname, time, List.mem_append_left _ hmem⟩

theorem CallInvariant.accepted (sound : CallInvariant ticks call start s history)
    (hrun : Library.run (step ticks call) start history = .ok s) :
    CallInvariant ticks call start
      { s with connectedToStage := s.connectedToStage || !s.joins.isEmpty }
      (history ++ [.accepted]) := by
  refine ⟨?_, sound.flagged, sound.others, fun hnone => ?_, fun server hserver => (sound.known server hserver).concat,
    fun msg hmsg => ?_, fun server hserver => (sound.announced server hserver).imp_right
      AddressHeard.concat⟩
  · exact sound.stands.of_same rfl rfl id (called_concat_other hrun (by simp)) fun _ => id
  · have hjoins : s.joins = [] := hnone
    simp [hjoins, sound.quiet hjoins]
  · obtain ⟨hname, time, hmem⟩ := sound.satisfied msg hmsg
    exact ⟨hname, time, List.mem_append_left _ hmem⟩

theorem stepCaller_discovery (ticks : Nat) (call : AutoJoinCall) (s : JoiningClient) (now : Nat) :
    (s.stepCaller ticks call now).discovery = s.discovery ∧
      (s.stepCaller ticks call now).connectedToStage = s.connectedToStage := by
  unfold stepCaller
  split <;> try exact ⟨rfl, rfl⟩
  · split <;> exact ⟨rfl, rfl⟩
  · split
    · exact ⟨rfl, rfl⟩
    · split <;> exact ⟨rfl, rfl⟩

theorem stepCaller_flag (ticks now : Nat) (hflag : s.place ≠ .called → s.autoJoinStage = true) :
    (s.stepCaller ticks call now).autoJoinStage = true := by
  by_cases hplace : s.place = .called
  · unfold stepCaller
    simp only [hplace]
  · rw [← hflag hplace]
    unfold stepCaller
    split
    case h_1 hcalled => exact absurd hcalled hplace
    case h_2 => split <;> rfl
    case h_5 =>
      split
      · rfl
      · split <;> rfl
    all_goals rfl

/-- The call puts down its promise, and takes it away. -/
theorem stepCaller_requests (ticks : Nat) (call : AutoJoinCall) (s : JoiningClient) (now : Nat) :
    (s.stepCaller ticks call now).autoJoinStageRequests = s.autoJoinStageRequests ∨
      (s.stepCaller ticks call now).autoJoinStageRequests =
        s.autoJoinStageRequests.put (call.name, none) ∨
      (s.stepCaller ticks call now).autoJoinStageRequests =
        s.autoJoinStageRequests.erase call.name := by
  unfold stepCaller
  split
  case h_1 | h_4 | h_6 | h_9 => exact Or.inl rfl
  case h_2 => split <;> exact Or.inl rfl
  case h_3 => exact Or.inr (Or.inl rfl)
  case h_5 =>
    split
    · exact Or.inl rfl
    · split <;> exact Or.inl rfl
  case h_7 | h_8 => exact Or.inr (Or.inr rfl)

/-- The call joins at the listed address, or at that of the beacon. -/
theorem stepCaller_joins (ticks : Nat) (call : AutoJoinCall) (s : JoiningClient) (now : Nat) :
    (s.stepCaller ticks call now).joins = s.joins ∨
      ∃ server, (s.stepCaller ticks call now).joins = s.joins ++ [server] ∧
        (s.discovery.serverBeacons.find call.name = some server ∨
          ∃ msg, s.place = .ready msg ∧ server = serverBeaconToAddress msg) := by
  unfold stepCaller
  split
  case h_1 | h_3 | h_4 | h_7 | h_8 | h_9 => exact Or.inl rfl
  case h_2 =>
    split
    · rename_i server hserver
      exact Or.inr ⟨server, rfl, Or.inl hserver⟩
    · exact Or.inl rfl
  case h_5 =>
    split
    · exact Or.inl rfl
    · split <;> exact Or.inl rfl
  case h_6 msg hplace => exact Or.inr ⟨_, rfl, Or.inr ⟨msg, hplace, rfl⟩⟩

theorem Stands.caller {isCalled : Prop} (stands : Stands call s isCalled s.place)
    (ticks now : Nat) :
    Stands call (s.stepCaller ticks call now) isCalled (s.stepCaller ticks call now).place := by
  unfold stepCaller
  cases hplace : s.place with
  | called =>
    rw [hplace] at stands
    exact ⟨stands.unjoined, stands.unasked, stands.listed⟩
  | scanning =>
    rw [hplace] at stands
    dsimp only
    split
    · rename_i server hserver
      exact Or.inr ⟨server, by simp [joinStage, stands.unjoined]⟩
    · rename_i hunlisted
      refine ⟨stands.unjoined, stands.unasked, hunlisted, fun hcalled => ?_⟩
      have hlisted := stands.listed.mp hcalled
      rw [hunlisted] at hlisted
      cases hlisted
  | installing =>
    rw [hplace] at stands
    obtain ⟨unjoined, unasked, unheard⟩ := stands
    dsimp only
    split
    · exact Or.inl ⟨unjoined, unheard.uncalled⟩
    · refine ⟨unjoined, none, ?_, fun _ => ⟨unheard.unlisted, unheard.uncalled⟩⟩
      exact (KeyedSet.find_put _ _ _).trans (if_pos rfl)
  | posted =>
    rw [hplace] at stands
    obtain ⟨promise, requested, unheard⟩ := stands.requested
    exact ⟨stands.unjoined, promise, requested,
      fun hnone => ⟨(unheard hnone).unlisted, (unheard hnone).uncalled⟩⟩
  | waiting deadline =>
    rw [hplace] at stands
    obtain ⟨promise, requested, unheard⟩ := stands.requested
    simp only [show s.autoJoinStageRequests.find call.name = _ from requested]
    cases promise with
    | some msg => exact ⟨stands.unjoined, requested⟩
    | none =>
      dsimp only
      split
      · exact ⟨stands.unjoined, (unheard rfl).uncalled⟩
      · rw [hplace]
        exact stands
  | ready msg =>
    rw [hplace] at stands
    exact ⟨serverBeaconToAddress msg, by simp [joinStage, stands.1]⟩
  | joined =>
    rw [hplace] at stands
    exact Or.inr stands
  | expired =>
    rw [hplace] at stands
    exact Or.inl stands
  | finished =>
    rw [hplace] at stands
    dsimp only
    rw [hplace]
    exact stands

theorem CallInvariant.caller (sound : CallInvariant ticks call start s history)
    (hrun : Library.run (step ticks call) start history = .ok s) :
    CallInvariant ticks call start (s.stepCaller ticks call now) (history ++ [.caller now]) := by
  obtain ⟨hdiscovery, hconnected⟩ :=
    stepCaller_discovery ticks call s now
  refine ⟨?_, fun _ => ?_, fun other hother => ?_, fun hnone => ?_, fun server hserver => ?_,
    fun msg hmsg => ?_, fun server hserver => ?_⟩
  · have hstands := sound.stands.caller ticks now
    have hcalled : Called ticks call start (history ++ [.caller now]) ↔ _ :=
      called_concat_other hrun (by simp)
    rwa [propext hcalled]
  · exact stepCaller_flag ticks now sound.flagged
  · have hbefore := sound.others other hother
    rcases stepCaller_requests ticks call s now with
      hsame | hput | herase
    · rw [hsame]
      exact hbefore
    · rw [hput, KeyedSet.find_put]
      exact (if_neg (Ne.symm hother)).trans hbefore
    · rw [herase, KeyedSet.find_erase, if_neg hother]
      exact hbefore
  · rw [hconnected]
    apply sound.quiet
    rcases stepCaller_joins ticks call s now with
      hsame | ⟨server, hjoin, -⟩
    · exact hsame.symm.trans hnone
    · rw [hjoin] at hnone
      exact absurd hnone (by simp)
  · rw [hdiscovery] at hserver
    exact (sound.known server hserver).concat
  · have hbefore : HasPromise call s (some msg) := by
      unfold HasPromise at hmsg
      rcases stepCaller_requests ticks call s now with
        hsame | hput | herase
      · rwa [hsame] at hmsg
      · rw [hput, KeyedSet.find_put] at hmsg
        simp at hmsg
      · rw [herase, KeyedSet.find_erase] at hmsg
        simp at hmsg
    obtain ⟨hname, time, hmem⟩ := sound.satisfied msg hbefore
    exact ⟨hname, time, List.mem_append_left _ hmem⟩
  · rcases stepCaller_joins ticks call s now with
      hsame | ⟨joined, hjoin, hfrom⟩
    · rw [hsame] at hserver
      exact (sound.announced server hserver).imp_right AddressHeard.concat
    · rw [hjoin, List.mem_append, List.mem_singleton] at hserver
      rcases hserver with hserver | rfl
      · exact (sound.announced server hserver).imp_right AddressHeard.concat
      · rcases hfrom with hlisted | ⟨msg, hplace, rfl⟩
        · obtain ⟨hmem, hname⟩ := KeyedSet.find_eq_some.mp hlisted
          exact ⟨hname, (sound.known server hmem).concat⟩
        · have stands := sound.stands
          rw [hplace] at stands
          obtain ⟨hname, time, hmem⟩ := sound.satisfied msg stands.2
          exact ⟨hname, Or.inr ⟨msg, time, List.mem_append_left _ hmem, rfl⟩⟩

theorem CallInvariant.called (discovery : Discovery) (flag : Bool) :
    CallInvariant ticks call (autoJoinStage discovery flag) (autoJoinStage discovery flag) [] := by
  refine ⟨⟨rfl, rfl, ?_⟩, fun h => absurd rfl h, fun _ _ => rfl, fun _ => rfl,
    fun server hserver => Or.inl hserver, fun msg hmsg => (by cases hmsg),
    fun server hserver => absurd hserver List.not_mem_nil⟩
  refine or_iff_left ?_
  rintro ⟨before, msg, now, after, u, hsplit, -⟩
  cases before <;> cases hsplit

theorem CallInvariant.run {discovery : Discovery} {flag : Bool}
    (hundisturbed : Library.Along (step ticks call) (NoInterference ticks call)
      (autoJoinStage discovery flag) history)
    (hrun : Library.run (step ticks call) (autoJoinStage discovery flag) history = .ok s) :
    CallInvariant ticks call (autoJoinStage discovery flag) s history := by
  induction history using List.reverseRecOn generalizing s with
  | nil =>
    obtain rfl : autoJoinStage discovery flag = s := by simpa using hrun
    exact .called discovery flag
  | append_singleton history event ih =>
    obtain ⟨u, hu, hstep⟩ := Library.run_concat_ok.mp hrun
    have sound := ih (Library.along_append.mp hundisturbed).1 hu
    have hcondition := Library.along_append_cons hundisturbed hu
    cases event with
    | beacon msg now => exact sound.beacon hu hcondition hstep
    | check now =>
      obtain rfl := Except.ok.inj hstep
      exact sound.check hu hcondition
    | caller now =>
      obtain rfl := Except.ok.inj hstep
      exact sound.caller hu
    | accepted =>
      obtain rfl := Except.ok.inj hstep
      exact sound.accepted hu

end Steps

/-! ## The end of the call -/

/-- The thread of the call, left alone, comes to its end with these joins. -/
def CallEnds (ticks : Nat) (call : AutoJoinCall) (s : JoiningClient)
    (joins : List ZstServerAddress) :
    Prop :=
  ∃ (clocks : List Nat) (t : JoiningClient),
    Library.run (step ticks call) s (clocks.map .caller) = .ok t ∧
      t.place = .finished ∧ t.joins = joins

section CallEnds

variable {ticks : Nat} {call : AutoJoinCall} {s : JoiningClient} {joins : List ZstServerAddress}

theorem CallEnds.of_stepCaller (now : Nat)
    (hends : CallEnds ticks call (s.stepCaller ticks call now) joins) :
    CallEnds ticks call s joins := by
  obtain ⟨clocks, t, hrun, hplace, hjoins⟩ := hends
  exact ⟨now :: clocks, t, Library.run_cons_ok.mpr ⟨_, rfl, hrun⟩, hplace, hjoins⟩

theorem ends_finished (hplace : s.place = .finished) : CallEnds ticks call s s.joins :=
  ⟨[], s, rfl, hplace, rfl⟩

theorem ends_joined (hplace : s.place = .joined ∨ s.place = .expired) :
    CallEnds ticks call s s.joins := by
  apply CallEnds.of_stepCaller 0
  unfold stepCaller
  rcases hplace with hplace | hplace <;> simp only [hplace] <;> exact ends_finished rfl

theorem ends_ready {msg : ServerBeacon} (hplace : s.place = .ready msg) :
    CallEnds ticks call s (s.joins ++ [serverBeaconToAddress msg]) := by
  apply CallEnds.of_stepCaller 0
  unfold stepCaller
  simp only [hplace]
  exact ends_joined (Or.inl rfl)

/-- The wait is over at its deadline at the latest. -/
theorem ends_waiting {deadline : Nat} (hplace : s.place = .waiting deadline) {promise : Promise}
    (hrequested : HasPromise call s promise) :
    CallEnds ticks call s (s.joins ++ (promise.map serverBeaconToAddress).toList) := by
  apply CallEnds.of_stepCaller deadline
  unfold stepCaller
  simp only [hplace, show s.autoJoinStageRequests.find call.name = _ from hrequested]
  cases promise with
  | some msg => exact ends_ready rfl
  | none => simpa using ends_joined (Or.inr rfl)

theorem ends_posted (hplace : s.place = .posted) {promise : Promise}
    (hrequested : HasPromise call s promise) :
    CallEnds ticks call s (s.joins ++ (promise.map serverBeaconToAddress).toList) := by
  apply CallEnds.of_stepCaller 0
  unfold stepCaller
  simp only [hplace]
  exact ends_waiting rfl hrequested

/-- A promise that is put down after the beacon has come is not satisfied by it. -/
theorem ends_installing (hplace : s.place = .installing) : CallEnds ticks call s s.joins := by
  apply CallEnds.of_stepCaller 0
  unfold stepCaller
  simp only [hplace]
  by_cases hpublish : call.sendtype = .publish
  · simp only [if_pos hpublish]
    exact ends_finished rfl
  · simp only [if_neg hpublish]
    have hrequested : HasPromise call { s with
        autoJoinStageRequests := s.autoJoinStageRequests.put (call.name, none)
        place := .posted } none := (KeyedSet.find_put _ _ _).trans (if_pos rfl)
    have hends : CallEnds ticks call _ _ := ends_posted rfl hrequested
    simpa using hends

/-- The scan finds the server if it is listed. -/
theorem ends_scanning (hplace : s.place = .scanning) :
    CallEnds ticks call s (s.joins ++ (s.discovery.serverBeacons.find call.name).toList) := by
  apply CallEnds.of_stepCaller 0
  unfold stepCaller
  simp only [hplace]
  cases s.discovery.serverBeacons.find call.name with
  | some server => exact ends_finished rfl
  | none => simpa using ends_installing rfl

theorem ends_scans (hplace : s.place = .called ∨ s.place = .scanning) :
    CallEnds ticks call s (s.joins ++ (s.discovery.serverBeacons.find call.name).toList) := by
  rcases hplace with hplace | hplace
  · apply CallEnds.of_stepCaller 0
    unfold stepCaller
    simp only [hplace]
    exact ends_scanning rfl
  · exact ends_scanning hplace

end CallEnds

/-! ## Runs -/

section Runs

variable {ticks : Nat} {call : AutoJoinCall} {start s : JoiningClient} {history : List AutoJoinStep}

/-- From every place the call comes to its end. -/
theorem CallInvariant.ends (sound : CallInvariant ticks call start s history) :
    ∃ joins, CallEnds ticks call s joins := by
  have stands := sound.stands
  cases hplace : s.place with
  | called => exact ⟨_, ends_scans (Or.inl hplace)⟩
  | scanning => exact ⟨_, ends_scans (Or.inr hplace)⟩
  | installing => exact ⟨_, ends_installing hplace⟩
  | posted =>
    rw [hplace] at stands
    obtain ⟨promise, requested, -⟩ := stands.requested
    exact ⟨_, ends_posted hplace requested⟩
  | waiting deadline =>
    rw [hplace] at stands
    obtain ⟨promise, requested, -⟩ := stands.requested
    exact ⟨_, ends_waiting hplace requested⟩
  | ready msg => exact ⟨_, ends_ready hplace⟩
  | joined => exact ⟨_, ends_joined (Or.inl hplace)⟩
  | expired => exact ⟨_, ends_joined (Or.inr hplace)⟩
  | finished => exact ⟨_, ends_finished hplace⟩

/-- There is at most one join, and exactly one when the call is over if its server
was known or heard of. -/
structure JoinedOnce (ticks : Nat) (call : AutoJoinCall) (start s : JoiningClient)
    (history : List AutoJoinStep) :
    Prop where
  called : s.place = .finished → Called ticks call start history → ∃ server,
    s.joins = [server] ∧ server.name = call.name ∧ AddressHeard start history server
  once : s.joins.length ≤ 1

theorem CallInvariant.joinedOnce (sound : CallInvariant ticks call start s history) :
    JoinedOnce ticks call start s history := by
  have stands := sound.stands
  refine ⟨fun hplace hcalled => ?_, ?_⟩
  · rw [hplace] at stands
    obtain ⟨server, hserver⟩ := stands.resolve_left fun h => h.2 hcalled
    have hmem : server ∈ s.joins := by rw [hserver]; exact List.mem_cons_self
    exact ⟨server, hserver, sound.announced server hmem⟩
  · generalize s.place = place at stands
    cases place with
    | called => rw [stands.unjoined]; simp
    | scanning => rw [stands.unjoined]; simp
    | installing => rw [stands.1]; simp
    | posted => rw [stands.unjoined]; simp
    | waiting deadline => rw [stands.unjoined]; simp
    | ready msg => rw [stands.1]; simp
    | joined =>
      obtain ⟨server, once⟩ := stands
      rw [once]; simp
    | expired => rw [stands.1]; simp
    | finished => rcases stands with ⟨once, -⟩ | ⟨server, once⟩ <;> rw [once] <;> simp

/-- A promise that is there has been put down after the flag was set. -/
theorem CallInvariant.flag_of_satisfied (sound : CallInvariant ticks call start s history)
    (hsatisfied : Satisfied call s) : s.autoJoinStage = true := by
  apply sound.flagged
  intro hplace
  have stands := sound.stands
  rw [hplace] at stands
  obtain ⟨msg, hmsg⟩ := hsatisfied
  rw [stands.unasked] at hmsg
  cases hmsg

/-- Nothing throws in a step that does not disturb the call. -/
theorem CallInvariant.progress (sound : CallInvariant ticks call start s history)
    {event : AutoJoinStep}
    (hundisturbed : NoInterference ticks call s event) : ∃ t, step ticks call s event = .ok t := by
  cases event with
  | check now => exact ⟨_, rfl⟩
  | caller now => exact ⟨_, rfl⟩
  | accepted => exact ⟨_, rfl⟩
  | beacon msg now =>
    cases hstep : s.serverDiscoveryHandler msg now with
    | ok t => exact ⟨t, hstep⟩
    | error fault =>
      obtain ⟨-, hunlisted, -, hconnected, before, hbefore⟩ := serverDiscoveryHandler_error.mp hstep
      have hname : msg.name = call.name := by
        by_contra hother
        rw [sound.others msg.name hother] at hbefore
        cases hbefore
      rw [hname] at hunlisted hbefore
      exact absurd ⟨before, hbefore⟩ ((hundisturbed hname).2 hunlisted hconnected)

/-- A step that disturbs the call throws, or the call ends without a join. -/
theorem CallInvariant.disturbed (sound : CallInvariant ticks call start s history)
    (hrun : Library.run (step ticks call) start history = .ok s) {event : AutoJoinStep}
    (hdisturbed : ¬ NoInterference ticks call s event) :
    (∃ fault, step ticks call s event = .error fault) ∨
      Called ticks call start (history ++ [event]) ∧
        ∃ t, step ticks call s event = .ok t ∧ CallEnds ticks call t [] := by
  cases event with
  | caller now => exact absurd trivial hdisturbed
  | accepted => exact absurd trivial hdisturbed
  | check now =>
    unfold NoInterference at hdisturbed
    push Not at hdisturbed
    obtain ⟨hplace, hlisted, hlost⟩ := hdisturbed
    have stands := sound.stands
    obtain ⟨hjoins, -, hcalled⟩ : Scans call s _ := by
      rcases hplace with hplace | hplace <;> rw [hplace] at stands <;> exact stands
    have hunlisted := Option.not_isSome_iff_eq_none.mp hlost
    refine Or.inr ⟨(called_concat_other hrun (by simp)).mpr (hcalled.mpr hlisted), _, rfl, ?_⟩
    have hends : CallEnds ticks call
        { s with discovery := s.discovery.beaconcheckTimer ticks now } _ :=
      ends_scans hplace
    simpa [hunlisted, hjoins] using hends
  | beacon msg now =>
    unfold NoInterference at hdisturbed
    push Not at hdisturbed
    obtain ⟨hname, hdisturbed⟩ := hdisturbed
    by_cases hplace : s.place = .installing
    · cases hstep : s.serverDiscoveryHandler msg now with
      | error fault => exact Or.inl ⟨fault, hstep⟩
      | ok t =>
        refine Or.inr ⟨(called_concat hrun).mpr (Or.inr ⟨msg, now, rfl, hname, ?_⟩), t, hstep, ?_⟩
        · rw [hplace]
          rfl
        · have stands := sound.stands
          rw [hplace] at stands
          have hjoins : s.joins = [] := stands.1
          obtain ⟨requests, rfl, -⟩ := serverDiscoveryHandler_ok hstep
          rw [← hjoins]
          exact ends_installing hplace
    · obtain ⟨hunlisted, hconnected, hsatisfied⟩ := hdisturbed hplace
      refine Or.inl ⟨.exception, serverDiscoveryHandler_error.mpr ⟨rfl, ?_⟩⟩
      rw [hname]
      exact ⟨hunlisted, sound.flag_of_satisfied hsatisfied, hconnected, hsatisfied⟩

/-- **Joining by a name.** If no step of the run disturbs the call, it comes to its end,
nothing throws, and it joins exactly once if its server was known or heard of. The first
step that disturbs it throws, or leaves it without a join. -/
theorem auto_join_once {discovery : Discovery} {flag : Bool}
    (hrun : Library.run (step ticks call) (autoJoinStage discovery flag) history = .ok s)
    (hundisturbed : Library.Along (step ticks call) (NoInterference ticks call)
      (autoJoinStage discovery flag) history) :
    JoinedOnce ticks call (autoJoinStage discovery flag) s history ∧
      (∃ joins, CallEnds ticks call s joins) ∧
      (∀ event, NoInterference ticks call s event → ∃ t, step ticks call s event = .ok t) ∧
      ∀ event, ¬ NoInterference ticks call s event →
        (∃ fault, step ticks call s event = .error fault) ∨
          Called ticks call (autoJoinStage discovery flag) (history ++ [event]) ∧
            ∃ t, step ticks call s event = .ok t ∧ CallEnds ticks call t [] := by
  have sound := CallInvariant.run hundisturbed hrun
  exact ⟨sound.joinedOnce, sound.ends, fun _ => sound.progress, fun _ => sound.disturbed hrun⟩

/-- A client that joins the stage by its name, before it knows it. -/
def stageCall : AutoJoinCall := ⟨"stage", .asyncReply⟩

def stageBeacon : ServerBeacon := ⟨"stage", "10.0.0.1", 40004⟩

/-- The beacon comes while the call waits. -/
def waited : List AutoJoinStep :=
  [.caller 0, .caller 0, .caller 0, .caller 0, .beacon stageBeacon 1000, .caller 1001, .caller 1001,
    .caller 1002]

/-- The beacon comes between the scan and the promise. -/
def missed : List AutoJoinStep :=
  [.caller 0, .caller 0, .beacon stageBeacon 0, .caller 0, .caller 0, .caller 5000, .caller 5001]

/-- A beacon that comes while the call waits does not disturb it. -/
theorem undisturbed_of_waiting {ticks deadline now : Nat} {msg : ServerBeacon}
    (hplace : s.place = .waiting deadline)
    (hrequested : HasPromise call s none) : NoInterference ticks call s (.beacon msg now) := by
  intro _
  refine ⟨by simp [hplace], fun _ _ hsatisfied => ?_⟩
  obtain ⟨before, hbefore⟩ := hsatisfied
  exact absurd (hrequested.symm.trans hbefore) (by simp)

theorem auto_join_once_waited :
    ∃ s, Library.run (step 1 stageCall) (autoJoinStage {} false) waited = .ok s ∧
      ∃ server, s.joins = [server] ∧ server.name = "stage" := by
  have hundisturbed : Library.Along (step 1 stageCall) (NoInterference 1 stageCall)
      (autoJoinStage {} false) waited := by
    unfold waited
    iterate 4 refine (Library.along_cons_of_ok rfl).mpr ⟨trivial, ?_⟩
    refine (Library.along_cons_of_ok rfl).mpr ⟨undisturbed_of_waiting rfl rfl, ?_⟩
    iterate 3 refine (Library.along_cons_of_ok rfl).mpr ⟨trivial, ?_⟩
    trivial
  refine ⟨_, rfl, ?_⟩
  have hcalled : Called 1 stageCall (autoJoinStage {} false) waited :=
    Or.inr ⟨[.caller 0, .caller 0, .caller 0, .caller 0], stageBeacon, 1000, _, _, rfl, rfl, rfl, rfl⟩
  obtain ⟨server, hjoins, hname, -⟩ := (auto_join_once rfl hundisturbed).1.called rfl hcalled
  exact ⟨server, hjoins, hname⟩

/-- The call waits for a server whose beacon has come, and gives up. -/
theorem missed_not_joined :
    ¬ ∀ ticks call discovery flag history s, call.sendtype ≠ .publish →
      Library.run (step ticks call) (autoJoinStage discovery flag) history = .ok s →
        JoinedOnce ticks call (autoJoinStage discovery flag) s history ∧
          ∀ event fault, step ticks call s event ≠ .error fault := by
  intro hall
  have hjoined := (hall 1 stageCall {} false missed _ (by decide) rfl).1
  have hcalled : Called 1 stageCall (autoJoinStage {} false) missed :=
    Or.inr ⟨[.caller 0, .caller 0], stageBeacon, 0, _, _, rfl, rfl, rfl, rfl⟩
  obtain ⟨server, hjoins, -⟩ := hjoined.called rfl hcalled
  cases hjoins

end Runs

end Showtime.AutoJoin
