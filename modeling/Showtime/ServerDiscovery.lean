import Mathlib.Data.List.Chain
import Showtime.JoinAttempts
import Showtime.Library.KeyedSet
/-!
# Discovered servers

A client lists the servers whose beacons it receives, and drops those whose
beacons stay away. The list and the time stamps are ordered by the name of a
server alone, and a server that is listed only gets another time stamp.
-/

namespace Showtime.ServerDiscovery

open Library
open JoinAttempts (ZstServerAddress)

/-- `ZstServerBeaconMessage`, with the address that it came from. -/
structure ServerBeacon where
  name : String
  address : String
  port : Int
  deriving DecidableEq, Repr

inductive ServerEvent
  | onServerDiscovered (server : ZstServerAddress)
  | onServerLost (server : ZstServerAddress)
  deriving DecidableEq, Repr

namespace ServerEvent

def server : ServerEvent → ZstServerAddress
  | .onServerDiscovered server | .onServerLost server => server

def discovers : ServerEvent → Bool
  | .onServerDiscovered _ => true
  | .onServerLost _ => false

end ServerEvent

/-- `STAGE_TIMEOUT`, in milliseconds. -/
def stageTimeout : Nat := 5000

/-- The name by which the time stamps are ordered. -/
abbrev stampName (stamp : ZstServerAddress × Nat) : String :=
  stamp.1.name

structure Discovery where
  serverBeacons : KeyedSet ZstServerAddress.name := .empty
  serverBeaconTimestamps : KeyedSet stampName := .empty
  /-- What the adaptors are told, in the order in which it was deferred. -/
  events : List ServerEvent := []

/-- A beacon comes in, or the timer checks them, at a time of the clock. -/
inductive DiscoveryStep
  | beacon (msg : ServerBeacon) (now : Nat)
  | check (now : Nat)
  deriving DecidableEq, Repr

def DiscoveryStep.clock : DiscoveryStep → Nat
  | .beacon _ now | .check now => now

def serverBeaconToAddress (msg : ServerBeacon) : ZstServerAddress :=
  { name := msg.name, address := msg.address ++ ":" ++ toString msg.port }

namespace Discovery

/-- `m_server_beacon_timestamps[server] = now`. -/
def stamp (stamps : KeyedSet stampName) (server : ZstServerAddress) (now : Nat) :
    KeyedSet stampName :=
  (stamps.insert (server, now)).adjust server.name (fun entry => (entry.1, now)) fun _ => rfl

def serverDiscoveryHandler (s : Discovery) (msg : ServerBeacon) (now : Nat) : Discovery :=
  let server := serverBeaconToAddress msg
  if (s.serverBeacons.find server.name).isSome then
    { s with serverBeaconTimestamps := stamp s.serverBeaconTimestamps server now }
  else
    { serverBeacons := s.serverBeacons.insert server
      serverBeaconTimestamps := s.serverBeaconTimestamps.insert (server, now)
      events := s.events ++ [.onServerDiscovered server] }

def lostServerBeacon (s : Discovery) (server : ZstServerAddress) : Discovery :=
  { serverBeacons := s.serverBeacons.erase server.name
    serverBeaconTimestamps := s.serverBeaconTimestamps.erase server.name
    events := s.events ++ [.onServerLost server] }

/-- The age of a time stamp in whole milliseconds, by a clock with so many ticks
in each. -/
def age (ticks now stamp : Nat) : Nat :=
  (now - stamp) / ticks

/-- `removed_beacons` of `beaconcheck_timer`. -/
def removedBeacons (ticks : Nat) (s : Discovery) (now : Nat) : List ZstServerAddress :=
  (s.serverBeaconTimestamps.items.filter fun entry =>
    age ticks now entry.2 > stageTimeout).map Prod.fst

def beaconcheckTimer (ticks : Nat) (s : Discovery) (now : Nat) : Discovery :=
  (removedBeacons ticks s now).foldl lostServerBeacon s

def step (ticks : Nat) (s : Discovery) : DiscoveryStep → Except Fault Discovery
  | .beacon msg now => .ok (s.serverDiscoveryHandler msg now)
  | .check now => .ok (s.beaconcheckTimer ticks now)

end Discovery

/-! ## What the list should be -/

/-- The last beacon of a server, and when it came. -/
def lastBeacon (name : String) (history : List DiscoveryStep) : Option (ZstServerAddress × Nat) :=
  history.foldl (fun last step =>
    match step with
    | .beacon msg now => if msg.name = name then some (serverBeaconToAddress msg, now) else last
    | .check _ => last) none

/-- There is one entry for each server whose last beacon is recent, with the
address of that beacon. -/
structure Listed (ticks : Nat) (s : Discovery) (history : List DiscoveryStep) (now : Nat) :
    Prop where
  mem_iff : ∀ server, server ∈ s.serverBeacons ↔
    ∃ stamp, lastBeacon server.name history = some (server, stamp) ∧
      Discovery.age ticks now stamp ≤ stageTimeout
  nodup : (s.serverBeacons.items.map ZstServerAddress.name).Nodup

/-- The events of one server. -/
def eventsOf (name : String) (events : List ServerEvent) : List Bool :=
  (events.filter fun event => event.server.name = name).map ServerEvent.discovers

/-- The server is discovered and lost in turns, and discovered first. -/
def Alternates (name : String) (events : List ServerEvent) : Prop :=
  (false :: eventsOf name events).IsChain (· ≠ ·)

/-- A listed server goes on with the address that is listed. -/
def KeepsAddress (s : Discovery) : DiscoveryStep → Prop
  | .beacon msg _ => ∀ server ∈ s.serverBeacons, server.name = msg.name →
      server = serverBeaconToAddress msg
  | .check _ => True

instance (s : Discovery) : (event : DiscoveryStep) → Decidable (KeepsAddress s event)
  | .beacon msg _ => inferInstanceAs (Decidable (∀ server ∈ s.serverBeacons.items,
      server.name = msg.name → server = serverBeaconToAddress msg))
  | .check _ => isTrue trivial

/-! ## The history -/

section History

variable {name : String} {history : List DiscoveryStep} {msg : ServerBeacon} {now : Nat}

@[simp] theorem serverBeaconToAddress_name (msg : ServerBeacon) :
    (serverBeaconToAddress msg).name = msg.name := rfl

@[simp] theorem lastBeacon_beacon :
    lastBeacon name (history ++ [.beacon msg now]) =
      if msg.name = name then some (serverBeaconToAddress msg, now)
      else lastBeacon name history := by
  simp [lastBeacon, List.foldl_append]

@[simp] theorem lastBeacon_check :
    lastBeacon name (history ++ [.check now]) = lastBeacon name history := by
  simp [lastBeacon, List.foldl_append]

theorem eventsOf_append (events : List ServerEvent) (event : ServerEvent) :
    eventsOf name (events ++ [event]) =
      if event.server.name = name then eventsOf name events ++ [event.discovers]
      else eventsOf name events := by
  unfold eventsOf
  rw [List.filter_append, List.map_append]
  split
  · rename_i hname
    simp [hname]
  · rename_i hname
    simp [hname]

end History

/-! ## The names of the two containers -/

open Discovery

/-- The list and the time stamps agree, and whoever is listed was discovered last. -/
structure Coherent (s : Discovery) : Prop where
  stamped : ∀ server, server ∈ s.serverBeacons ↔ ∃ now, (server, now) ∈ s.serverBeaconTimestamps
  alternates : ∀ name, Alternates name s.events
  last : ∀ name, (false :: eventsOf name s.events).getLast? =
    some (s.serverBeacons.find name).isSome

section Coherence

variable {s : Discovery}

/-- A listed server is told to be lost, one that is not to be discovered. -/
theorem Coherent.turn (coherent : Coherent s) (event : ServerEvent)
    (hturn : event.discovers = !(s.serverBeacons.find event.server.name).isSome) (name : String) :
    Alternates name (s.events ++ [event]) ∧
      (false :: eventsOf name (s.events ++ [event])).getLast? =
        some (if event.server.name = name then event.discovers
          else (s.serverBeacons.find name).isSome) := by
  unfold Alternates
  rw [eventsOf_append]
  split
  · rename_i hname
    subst hname
    rw [← List.cons_append]
    refine ⟨List.isChain_append.mpr ⟨coherent.alternates _, List.isChain_singleton _, ?_⟩,
      List.getLast?_concat⟩
    intro x hx y hy
    rw [coherent.last] at hx
    obtain rfl := Option.some.inj hx
    obtain rfl : event.discovers = y := by simpa using hy
    rw [hturn]
    exact (Bool.not_ne_self _).symm
  · exact ⟨coherent.alternates name, coherent.last name⟩

/-- The timer lists nobody. -/
theorem mem_of_mem_beaconcheckTimer {ticks now : Nat} {server : ZstServerAddress}
    (hserver : server ∈ (s.beaconcheckTimer ticks now).serverBeacons) :
    server ∈ s.serverBeacons := by
  unfold beaconcheckTimer at hserver
  generalize removedBeacons ticks s now = servers at hserver
  induction servers generalizing s with
  | nil => exact hserver
  | cons lost servers ih => exact (KeyedSet.mem_erase.mp (ih hserver)).1

theorem Coherent.opened : Coherent {} :=
  ⟨by simp, fun _ => List.isChain_singleton _, fun _ => rfl⟩

/-- The time stamp of a server that has one. -/
theorem mem_stamp {stamps : KeyedSet stampName} {server other : ZstServerAddress} {now time : Nat}
    (hstamped : (stamps.find server.name).isSome = true) :
    (other, time) ∈ stamp stamps server now ↔
      (other, time) ∈ stamps ∧ other.name ≠ server.name ∨
        time = now ∧ other.name = server.name ∧ ∃ before, (other, before) ∈ stamps := by
  have hkept : ∀ entry, entry ∈ stamps.insert (server, now) ↔ entry ∈ stamps := by
    intro entry
    rw [KeyedSet.mem_insert]
    refine or_iff_left fun hnew => ?_
    rw [show stamps.find (stampName (server, now)) = stamps.find server.name from rfl] at hnew
    rw [hnew.2] at hstamped
    cases hstamped
  unfold stamp
  rw [KeyedSet.mem_adjust, hkept]
  refine or_congr_right ⟨?_, ?_⟩
  · rintro ⟨⟨entry, before⟩, hentry, hname, heq⟩
    obtain ⟨rfl, rfl⟩ := Prod.mk.inj heq
    exact ⟨rfl, hname, before, (hkept _).mp hentry⟩
  · rintro ⟨rfl, hname, before, hentry⟩
    exact ⟨(other, before), (hkept _).mpr hentry, hname, rfl⟩

/-- A server has a time stamp if and only if it is listed. -/
theorem Coherent.find_isSome (coherent : Coherent s) (name : String) :
    (s.serverBeaconTimestamps.find name).isSome = (s.serverBeacons.find name).isSome := by
  rw [Bool.eq_iff_iff, Option.isSome_iff_exists, Option.isSome_iff_exists]
  constructor
  · rintro ⟨⟨server, now⟩, hfind⟩
    obtain ⟨hmem, hname⟩ := KeyedSet.find_eq_some.mp hfind
    exact ⟨server, KeyedSet.find_eq_some.mpr ⟨(coherent.stamped server).mpr ⟨now, hmem⟩, hname⟩⟩
  · rintro ⟨server, hfind⟩
    obtain ⟨hmem, hname⟩ := KeyedSet.find_eq_some.mp hfind
    obtain ⟨now, hmem⟩ := (coherent.stamped server).mp hmem
    exact ⟨(server, now), KeyedSet.find_eq_some.mpr ⟨hmem, hname⟩⟩

theorem Coherent.beacon (coherent : Coherent s) (msg : ServerBeacon) (now : Nat) :
    Coherent (s.serverDiscoveryHandler msg now) := by
  unfold serverDiscoveryHandler
  dsimp only
  split
  · rename_i hlisted
    refine ⟨fun server => ?_, coherent.alternates, coherent.last⟩
    have hstamped := hlisted
    rw [← coherent.find_isSome] at hstamped
    rw [coherent.stamped]
    constructor
    · rintro ⟨before, hbefore⟩
      by_cases hname : server.name = msg.name
      · exact ⟨now, (mem_stamp hstamped).mpr (Or.inr ⟨rfl, hname, before, hbefore⟩)⟩
      · exact ⟨before, (mem_stamp hstamped).mpr (Or.inl ⟨hbefore, hname⟩)⟩
    · rintro ⟨time, htime⟩
      rcases (mem_stamp hstamped).mp htime with ⟨hbefore, -⟩ | ⟨-, -, hbefore⟩
      · exact ⟨time, hbefore⟩
      · exact hbefore
  · rename_i hnew
    have hturn := coherent.turn (.onServerDiscovered (serverBeaconToAddress msg))
      (by simpa [ServerEvent.discovers, ServerEvent.server] using hnew)
    refine ⟨fun server => ?_, fun name => (hturn name).1, fun name => (hturn name).2.trans ?_⟩
    · have hunstamped : s.serverBeaconTimestamps.find (serverBeaconToAddress msg).name = none := by
        rw [← Option.not_isSome_iff_eq_none, coherent.find_isSome]
        exact hnew
      have hunlisted : s.serverBeacons.find (serverBeaconToAddress msg).name = none :=
        Option.not_isSome_iff_eq_none.mp hnew
      rw [KeyedSet.mem_insert, coherent.stamped]
      constructor
      · rintro (⟨before, hbefore⟩ | ⟨rfl, -⟩)
        · exact ⟨before, KeyedSet.mem_insert.mpr (Or.inl hbefore)⟩
        · exact ⟨now, KeyedSet.mem_insert.mpr (Or.inr ⟨rfl, hunstamped⟩)⟩
      · rintro ⟨time, htime⟩
        rcases KeyedSet.mem_insert.mp htime with hbefore | ⟨hself, -⟩
        · exact Or.inl ⟨time, hbefore⟩
        · exact Or.inr ⟨(Prod.mk.inj hself).1, hunlisted⟩
    · rw [Option.some.injEq, Bool.eq_iff_iff, KeyedSet.isSome_find_insert]
      by_cases hname : msg.name = name
      · simp [ServerEvent.server, ServerEvent.discovers, hname]
      · simp [ServerEvent.server, hname]

theorem Coherent.lost (coherent : Coherent s) {server : ZstServerAddress}
    (hlisted : (s.serverBeacons.find server.name).isSome = true) :
    Coherent (s.lostServerBeacon server) := by
  have hturn := coherent.turn (.onServerLost server)
    (by simp [ServerEvent.discovers, ServerEvent.server, hlisted])
  refine ⟨fun other => ?_, fun name => (hturn name).1, fun name => (hturn name).2.trans ?_⟩
  · unfold lostServerBeacon
    dsimp only
    rw [KeyedSet.mem_erase, coherent.stamped]
    simp only [KeyedSet.mem_erase, stampName, exists_and_right]
  · unfold lostServerBeacon
    rw [Option.some.injEq, Bool.eq_iff_iff, KeyedSet.isSome_find_erase]
    by_cases hname : server.name = name
    · simp [ServerEvent.server, ServerEvent.discovers, hname]
    · simp [ServerEvent.server, hname, Ne.symm hname]

/-- The servers that are lost leave both containers. -/
theorem Coherent.foldl_lost (coherent : Coherent s) {servers : List ZstServerAddress}
    (hnodup : (servers.map ZstServerAddress.name).Nodup)
    (hlisted : ∀ server ∈ servers, (s.serverBeacons.find server.name).isSome = true) :
    Coherent (servers.foldl lostServerBeacon s) ∧
      (∀ server, server ∈ (servers.foldl lostServerBeacon s).serverBeacons ↔
        server ∈ s.serverBeacons ∧ server.name ∉ servers.map ZstServerAddress.name) ∧
      ∀ stamp, stamp ∈ (servers.foldl lostServerBeacon s).serverBeaconTimestamps ↔
        stamp ∈ s.serverBeaconTimestamps ∧ stamp.1.name ∉ servers.map ZstServerAddress.name := by
  induction servers generalizing s with
  | nil => exact ⟨coherent, by simp, by simp⟩
  | cons server servers ih =>
    obtain ⟨hfirst, hrest⟩ := List.nodup_cons.mp hnodup
    have hothers : ∀ other ∈ servers,
        ((s.lostServerBeacon server).serverBeacons.find other.name).isSome = true := by
      intro other hother
      refine KeyedSet.isSome_find_erase.mpr
        ⟨fun heq => hfirst ?_, hlisted other (List.mem_cons_of_mem _ hother)⟩
      exact heq ▸ List.mem_map_of_mem hother
    obtain ⟨hcoherent, hbeacons, hstamps⟩ :=
      ih (coherent.lost (hlisted server List.mem_cons_self)) hrest hothers
    refine ⟨hcoherent, fun other => (hbeacons other).trans ?_,
      fun stamp => (hstamps stamp).trans ?_⟩
    · unfold lostServerBeacon
      rw [KeyedSet.mem_erase, List.map_cons, List.mem_cons, not_or, and_assoc]
    · unfold lostServerBeacon
      rw [KeyedSet.mem_erase, List.map_cons, List.mem_cons, not_or, and_assoc]

/-- The timer drops the servers whose time stamps are too old. -/
theorem Coherent.check (coherent : Coherent s) (ticks now : Nat) :
    Coherent (s.beaconcheckTimer ticks now) ∧
      (∀ stamp, stamp ∈ (s.beaconcheckTimer ticks now).serverBeaconTimestamps ↔
        stamp ∈ s.serverBeaconTimestamps ∧ age ticks now stamp.2 ≤ stageTimeout) := by
  have hnodup : ((removedBeacons ticks s now).map ZstServerAddress.name).Nodup := by
    unfold removedBeacons
    rw [List.map_map]
    exact s.serverBeaconTimestamps.nodup.sublist (List.Sublist.map _ List.filter_sublist)
  have hremoved : ∀ server, server ∈ removedBeacons ticks s now ↔
      ∃ time, (server, time) ∈ s.serverBeaconTimestamps ∧ stageTimeout < age ticks now time := by
    intro server
    unfold removedBeacons
    simp only [List.mem_map, List.mem_filter, gt_iff_lt, decide_eq_true_eq, Prod.exists,
      exists_and_right, exists_eq_right]
    rfl
  obtain ⟨hcoherent, -, hstamps⟩ := coherent.foldl_lost hnodup fun server hserver => by
    obtain ⟨time, htime, -⟩ := (hremoved server).mp hserver
    rw [← coherent.find_isSome]
    exact KeyedSet.isSome_find.mpr ⟨_, htime, rfl⟩
  refine ⟨hcoherent, fun stamp => (hstamps stamp).trans (and_congr_right fun hmem => ?_)⟩
  rw [← not_lt]
  refine not_congr ⟨fun hname => ?_, fun hold => ?_⟩
  · -- the only time stamp of that name is the one that is too old
    obtain ⟨server, hserver, hname⟩ := List.mem_map.mp hname
    obtain ⟨time, htime, hold⟩ := (hremoved server).mp hserver
    have hsame := KeyedSet.eq_of_key_eq htime hmem hname
    rwa [← hsame]
  · exact List.mem_map_of_mem ((hremoved stamp.1).mpr ⟨stamp.2, hmem, hold⟩)

end Coherence

/-! ## Runs -/

/-- Every time stamp is that of the last beacon, and who is not listed has not
been heard for too long. -/
structure StampsFollow (ticks : Nat) (s : Discovery) (history : List DiscoveryStep) : Prop where
  coherent : Coherent s
  stamps : ∀ server stamp, (server, stamp) ∈ s.serverBeaconTimestamps →
    ∃ other, lastBeacon server.name history = some (other, stamp)
  missed : ∀ name server stamp, lastBeacon name history = some (server, stamp) →
    s.serverBeacons.find name = none →
      ∀ now, (∀ step ∈ history, step.clock ≤ now) → stageTimeout < age ticks now stamp

/-- The list has the addresses of the last beacons. -/
def Current (s : Discovery) (history : List DiscoveryStep) : Prop :=
  ∀ server ∈ s.serverBeacons, ∀ other stamp,
    lastBeacon server.name history = some (other, stamp) → other = server

section Runs

variable {ticks : Nat} {s t : Discovery} {history : List DiscoveryStep}

theorem age_mono {stamp before now : Nat} (hle : before ≤ now) :
    age ticks before stamp ≤ age ticks now stamp :=
  Nat.div_le_div_right (Nat.sub_le_sub_right hle stamp)

theorem StampsFollow.opened : StampsFollow ticks {} [] :=
  ⟨.opened, by simp, by simp [lastBeacon]⟩

/-- A server that is not listed is, and nothing else changes in the list. -/
theorem mem_serverBeacons_beacon {msg : ServerBeacon} {now : Nat} {server : ZstServerAddress} :
    server ∈ (s.serverDiscoveryHandler msg now).serverBeacons ↔ server ∈ s.serverBeacons ∨
      server = serverBeaconToAddress msg ∧ s.serverBeacons.find msg.name = none := by
  unfold serverDiscoveryHandler
  dsimp only
  split
  · rename_i hlisted
    refine (or_iff_left fun hnew => ?_).symm
    rw [serverBeaconToAddress_name, hnew.2] at hlisted
    cases hlisted
  · exact KeyedSet.mem_insert

/-- The name of the beacon is listed afterwards. -/
theorem isSome_find_beacon {msg : ServerBeacon} {now : Nat} {name : String} :
    ((s.serverDiscoveryHandler msg now).serverBeacons.find name).isSome = true ↔
      msg.name = name ∨ (s.serverBeacons.find name).isSome = true := by
  unfold serverDiscoveryHandler
  dsimp only
  split
  · rename_i hlisted
    refine (or_iff_right_of_imp ?_).symm
    rintro rfl
    exact hlisted
  · exact KeyedSet.isSome_find_insert

/-- Only the server of the beacon gets another time stamp. -/
theorem Coherent.mem_stamps_beacon (coherent : Coherent s) {msg : ServerBeacon} {now stamp : Nat}
    {server : ZstServerAddress}
    (hstamp : (server, stamp) ∈ (s.serverDiscoveryHandler msg now).serverBeaconTimestamps) :
    if msg.name = server.name then stamp = now
    else (server, stamp) ∈ s.serverBeaconTimestamps := by
  unfold serverDiscoveryHandler at hstamp
  dsimp only at hstamp
  split at hstamp
  · rename_i hlisted
    rw [← coherent.find_isSome] at hlisted
    rcases (mem_stamp hlisted).mp hstamp with ⟨hbefore, hname⟩ | ⟨htime, hname, -⟩ <;>
      rw [serverBeaconToAddress_name] at hname
    · rw [if_neg (Ne.symm hname)]
      exact hbefore
    · rw [if_pos hname.symm]
      exact htime
  · rename_i hnew
    rw [← coherent.find_isSome] at hnew
    rcases KeyedSet.mem_insert.mp hstamp with hbefore | ⟨hself, -⟩
    · rw [if_neg fun hname => hnew (KeyedSet.isSome_find.mpr ⟨_, hbefore, hname.symm⟩)]
      exact hbefore
    · obtain ⟨rfl, rfl⟩ := Prod.mk.inj hself
      rw [if_pos (serverBeaconToAddress_name msg).symm]

theorem StampsFollow.beacon (tracks : StampsFollow ticks s history) (msg : ServerBeacon)
    (now : Nat) :
    StampsFollow ticks (s.serverDiscoveryHandler msg now) (history ++ [.beacon msg now]) := by
  refine ⟨tracks.coherent.beacon msg now, fun server stamp hstamp => ?_,
    fun name server stamp hlast hfind later hlater => ?_⟩
  · have hbefore := tracks.coherent.mem_stamps_beacon hstamp
    rw [lastBeacon_beacon]
    split at hbefore
    · rename_i hname
      rw [if_pos hname, hbefore]
      exact ⟨_, rfl⟩
    · rename_i hname
      rw [if_neg hname]
      exact tracks.stamps server stamp hbefore
  · rw [← Option.not_isSome_iff_eq_none, isSome_find_beacon, not_or] at hfind
    rw [lastBeacon_beacon, if_neg hfind.1] at hlast
    exact tracks.missed name server stamp hlast (Option.not_isSome_iff_eq_none.mp hfind.2) later
      fun event hevent => hlater event (List.mem_append_left _ hevent)

/-- Whoever was listed and is dropped is too old from then on. -/
theorem StampsFollow.check (tracks : StampsFollow ticks s history) (now : Nat) :
    StampsFollow ticks (s.beaconcheckTimer ticks now) (history ++ [.check now]) := by
  obtain ⟨hcoherent, hstamps⟩ := tracks.coherent.check ticks now
  refine ⟨hcoherent, fun server stamp hstamp => ?_,
    fun name server stamp hlast hfind later hlater => ?_⟩
  · rw [lastBeacon_check]
    exact tracks.stamps server stamp ((hstamps _).mp hstamp).1
  · rw [lastBeacon_check] at hlast
    cases hlisted : s.serverBeacons.find name with
    | none =>
      exact tracks.missed name server stamp hlast hlisted later
        fun event hevent => hlater event (List.mem_append_left _ hevent)
    | some listed =>
      obtain ⟨hmem, rfl⟩ := KeyedSet.find_eq_some.mp hlisted
      obtain ⟨time, htime⟩ := (tracks.coherent.stamped listed).mp hmem
      obtain ⟨other, hother⟩ := tracks.stamps listed time htime
      obtain rfl : time = stamp := (Prod.mk.inj (Option.some.inj (hother.symm.trans hlast))).2
      have hold : stageTimeout < age ticks now time := by
        by_contra hrecent
        have hstays := (hcoherent.stamped listed).mpr
          ⟨time, (hstamps _).mpr ⟨htime, Nat.not_lt.mp hrecent⟩⟩
        exact KeyedSet.find_eq_none.mp hfind listed hstays rfl
      refine Nat.lt_of_lt_of_le hold (age_mono ?_)
      exact hlater (.check now) (List.mem_append_right _ List.mem_cons_self)

theorem tracks_run (hrun : Library.run (step ticks) {} history = .ok s) :
    StampsFollow ticks s history := by
  refine Library.run_history (fun history s => StampsFollow ticks s history)
    (fun history s event t tracks hstep => ?_) .opened hrun
  cases event with
  | beacon msg now =>
    obtain rfl := Except.ok.inj hstep
    exact tracks.beacon msg now
  | check now =>
    obtain rfl := Except.ok.inj hstep
    exact tracks.check now

/-- As long as no listed server changes its address, the listed ones are current. -/
theorem current_run (hsettled : Library.Along (step ticks) KeepsAddress {} history)
    (hrun : Library.run (step ticks) {} history = .ok s) : Current s history := by
  induction history using List.reverseRecOn generalizing s with
  | nil =>
    obtain rfl : {} = s := by simpa using hrun
    intro server hserver
    exact absurd hserver (KeyedSet.not_mem_empty server)
  | append_singleton history event ih =>
    obtain ⟨u, hu, hstep⟩ := Library.run_concat_ok.mp hrun
    have hbefore := ih (Library.along_append.mp hsettled).1 hu
    have hcondition := Library.along_append_cons hsettled hu
    cases event with
    | check now =>
      obtain rfl := Except.ok.inj hstep
      intro server hserver other stamp hlast
      rw [lastBeacon_check] at hlast
      refine hbefore server ?_ other stamp hlast
      obtain ⟨time, htime⟩ := ((tracks_run hu).coherent.check ticks now).1.stamped
        server |>.mp hserver
      exact ((tracks_run hu).coherent.stamped server).mpr
        ⟨time, ((((tracks_run hu).coherent.check ticks now).2 _).mp htime).1⟩
    | beacon msg now =>
      obtain rfl := Except.ok.inj hstep
      intro server hserver other stamp hlast
      rw [lastBeacon_beacon] at hlast
      split at hlast
      · rename_i hname
        obtain ⟨rfl, -⟩ := Prod.mk.inj (Option.some.inj hlast)
        rcases mem_serverBeacons_beacon.mp hserver with hlisted | ⟨rfl, -⟩
        · exact (hcondition server hlisted hname.symm).symm
        · rfl
      · rename_i hname
        rcases mem_serverBeacons_beacon.mp hserver with hlisted | ⟨rfl, -⟩
        · exact hbefore server hlisted other stamp hlast
        · exact absurd rfl hname

/-- After a check the list is as the last beacons say, if it is current. -/
theorem listed_of_current (tracks : StampsFollow ticks s history) (hcurrent : Current s history)
    {now : Nat} (hclock : ∀ event ∈ history, event.clock ≤ now) :
    Listed ticks (s.beaconcheckTimer ticks now) history now := by
  obtain ⟨hcoherent, hstamps⟩ := tracks.coherent.check ticks now
  refine ⟨fun server => ?_, KeyedSet.nodup _⟩
  rw [hcoherent.stamped]
  constructor
  · rintro ⟨stamp, hstamp⟩
    obtain ⟨hbefore, hrecent⟩ := (hstamps _).mp hstamp
    obtain ⟨other, hother⟩ := tracks.stamps server stamp hbefore
    obtain rfl := hcurrent server ((tracks.coherent.stamped server).mpr ⟨stamp, hbefore⟩) other
      stamp hother
    exact ⟨stamp, hother, hrecent⟩
  · rintro ⟨stamp, hlast, hrecent⟩
    cases hlisted : s.serverBeacons.find server.name with
    | none =>
      have hmissed := tracks.missed server.name server stamp hlast hlisted now hclock
      exact absurd hrecent (Nat.not_le.mpr hmissed)
    | some listed =>
      obtain ⟨hmem, hname⟩ := KeyedSet.find_eq_some.mp hlisted
      obtain ⟨time, htime⟩ := (tracks.coherent.stamped listed).mp hmem
      obtain ⟨other, hother⟩ := tracks.stamps listed time htime
      obtain rfl := hcurrent listed hmem other time hother
      rw [hname] at hother
      obtain ⟨rfl, rfl⟩ := Prod.mk.inj (Option.some.inj (hother.symm.trans hlast))
      exact ⟨time, (hstamps _).mpr ⟨htime, hrecent⟩⟩

/-- A listed server with another address is not listed as it should be. -/
theorem not_listed_of_moved (tracks : StampsFollow ticks s history) {msg : ServerBeacon}
    {stamp now : Nat}
    (hmoved : ¬ KeepsAddress s (.beacon msg stamp)) (hrecent : age ticks now stamp ≤ stageTimeout) :
    ¬ Listed ticks ((s.serverDiscoveryHandler msg stamp).beaconcheckTimer ticks now)
      (history ++ [.beacon msg stamp]) now := by
  intro hlisted
  unfold KeepsAddress at hmoved
  push Not at hmoved
  obtain ⟨server, hserver, hname, hne⟩ := hmoved
  have hcoherent := tracks.coherent.beacon msg stamp
  obtain ⟨hcheck, hstamps⟩ := hcoherent.check ticks now
  have hnew : serverBeaconToAddress msg ∈
      ((s.serverDiscoveryHandler msg stamp).beaconcheckTimer ticks now).serverBeacons := by
    refine (hlisted.mem_iff _).mpr ⟨stamp, ?_, hrecent⟩
    rw [lastBeacon_beacon, if_pos (serverBeaconToAddress_name msg).symm]
  -- but the list still has the old address under that name
  obtain ⟨time, htime⟩ := (hcheck.stamped _).mp hnew
  have hbefore := (hcoherent.stamped _).mpr ⟨time, ((hstamps _).mp htime).1⟩
  refine hne (KeyedSet.eq_of_key_eq (mem_serverBeacons_beacon.mpr (Or.inl hserver)) hbefore hname)

/-- **Discovered servers.** The events of a server alternate in every run. After
a check the list is as the last beacons say, if no listed server has announced another
address; the first one that does is listed wrongly by the next check. -/
theorem servers_listed (hrun : Library.run (step ticks) {} history = .ok s) :
    (∀ name, Alternates name s.events) ∧
      (Library.Along (step ticks) KeepsAddress {} history → ∀ now,
        (∀ event ∈ history, event.clock ≤ now) →
          Listed ticks (s.beaconcheckTimer ticks now) history now) ∧
      ∀ msg stamp now, age ticks now stamp ≤ stageTimeout → ¬ KeepsAddress s (.beacon msg stamp) →
        ¬ Listed ticks ((s.serverDiscoveryHandler msg stamp).beaconcheckTimer ticks now)
          (history ++ [.beacon msg stamp]) now := by
  have tracks := tracks_run hrun
  exact ⟨tracks.coherent.alternates,
    fun hsettled now hclock => listed_of_current tracks (current_run hsettled hrun) hclock,
    fun msg stamp now hrecent hmoved => not_listed_of_moved tracks hmoved hrecent⟩

/-- The beacon of a server, and the one after it has restarted on another port. -/
def started : ServerBeacon := ⟨"stage", "10.0.0.1", 40004⟩

def restarted : ServerBeacon := ⟨"stage", "10.0.0.1", 40005⟩

theorem not_keepsAddress_restarted :
    ¬ KeepsAddress (Discovery.serverDiscoveryHandler {} started 0) (.beacon restarted 1000) := by
  decide

/-- The server is gone long enough to be dropped before it comes back. -/
def droppedBetween : List DiscoveryStep :=
  [.beacon started 0, .check 6000, .beacon restarted 7000]

theorem servers_listed_restarted :
    (∃ s, Library.run (step 1) {} droppedBetween = .ok s ∧
      Listed 1 (s.beaconcheckTimer 1 8000) droppedBetween 8000) ∧
    ¬ Listed 1 ((Discovery.serverDiscoveryHandler (Discovery.serverDiscoveryHandler {} started 0)
      restarted 1000).beaconcheckTimer 1 2000) [.beacon started 0, .beacon restarted 1000] 2000 := by
  constructor
  · have hkeeps : Library.Along (step 1) KeepsAddress {} droppedBetween := by
      unfold droppedBetween
      iterate 3
        refine (Library.along_cons_of_ok rfl).mpr ⟨by decide, ?_⟩
      trivial
    exact ⟨_, rfl, (servers_listed rfl).2.1 hkeeps 8000 (by decide)⟩
  · have hrun : Library.run (step 1) {} [.beacon started 0] =
        .ok (Discovery.serverDiscoveryHandler {} started 0) := rfl
    exact (servers_listed hrun).2.2 restarted 1000 2000 (by decide) not_keepsAddress_restarted

/-- The list keeps the address of a server that has restarted. -/
theorem restarted_not_listed :
    ¬ ∀ ticks history s now, (history.map DiscoveryStep.clock).Pairwise (· ≤ ·) →
      (∀ event ∈ history, event.clock ≤ now) → Library.run (step ticks) {} history = .ok s →
      Listed ticks (s.beaconcheckTimer ticks now) history now := by
  intro hall
  have hrun : Library.run (step 1) {} [.beacon started 0] =
      .ok (Discovery.serverDiscoveryHandler {} started 0) := rfl
  have hrecent : age 1 2000 1000 ≤ stageTimeout := by decide
  refine not_listed_of_moved (tracks_run hrun) not_keepsAddress_restarted hrecent ?_
  exact hall 1 [.beacon started 0, .beacon restarted 1000] _ 2000 (by decide) (by decide) rfl

end Runs

end Showtime.ServerDiscovery
