import Showtime.Departures
import Showtime.Keeping
/-!
# Heartbeats and the timer

A heartbeat sets the flag of its performer and clears its count; a tick of the
timer clears a flag that is set, and counts otherwise. This module says which
heartbeats a performer that the timer removes has missed.
-/

namespace Showtime.Heartbeats

open ZstHierarchy ZstStageHierarchy ZstStageSession ZstStage
open Departures (expires)

/-- What the timer looks at. -/
def pulse (x : Entity) : ZstEntityType × Bool × Nat :=
  (x.entityType, x.heartbeatActive, x.missedHeartbeats)

/-- The performer whose heartbeat a step handles. -/
def beating (h : ZstHierarchy) : StageEvent → Option EntityId
  | .receive msg =>
    if msg.content = .signalMessage .clientHeartbeat then
      getClientFromEndpointUUID h msg.originEndpointUUID
    else none
  | _ => none

/-- What a step is to a performer: a tick since it joined, its heartbeat, or nothing. -/
def heard (e : EntityId) (h : ZstHierarchy) (event : StageEvent) : Option Bool :=
  if event = .heartbeatTimer then if e < h.next then some false else none
  else if beating h event = some e then some true
  else none

/-- A heartbeat belongs to the running interval, the first one; a tick ends it. -/
def tally (beats : List Bool) (beat : Bool) : List Bool :=
  if beat then true :: beats.tail else false :: beats

def note (e : EntityId) (h : ZstHierarchy) (event : StageEvent) (beats : List Bool) : List Bool :=
  (heard e h event).elim beats (tally beats)

/-- Whether a heartbeat of the performer was handled in each of the intervals since
it joined. -/
def intervals (e : EntityId) : ZstSession → List StageEvent → List Bool → List Bool
  | _, [], beats => beats
  | s, event :: events, beats =>
    match step s event with
    | .ok t => intervals e t events (note e s.hierarchy event beats)
    | .error _ => beats

/-- With the running interval there are enough, and the last of them are silent. -/
def silent (beats : List Bool) : Bool :=
  maxMissedHeartbeats + 1 ≤ beats.length ∧
    ∀ beat ∈ beats.take (maxMissedHeartbeats + 1), beat = false

/-- The counts of all performers after a tick. -/
def counted (h : ZstHierarchy) : ZstHierarchy :=
  { h with
    entities := fun e =>
      if e ∈ getPerformers h then checkHeartbeat (h.entities e) else h.entities e }

/-- A tick counts for every performer and hands these ones to `remove_proxy_entity`, one after
the other. They are on their way out then, and nobody else is who is not below them. -/
structure Ticked (h : ZstHierarchy) (removed : List EntityId) (k : ZstHierarchy) : Prop where
  handed : k = removed.foldl (removeProxyEntity stageOverrides) (counted h)
  gone : ∀ e ∈ removed, e ∉ Departures.members k
  spared : (∀ e ∈ removed, Departures.StandsAlone h e) →
    ∀ d ∈ Departures.members h, d ∉ removed → d ∈ Departures.members k

/-! ## One performer -/

/-- The performer was heard in the running interval, or has missed the silent
ones since the last heartbeat. -/
structure CountsSilence (x : Entity) (beat : Bool) (earlier : List Bool) : Prop where
  active : x.heartbeatActive = beat
  missed : x.missedHeartbeats = if beat then 0 else (earlier.takeWhile (! ·)).length

theorem CountsSilence.congr {x y : Entity} {beat : Bool} {earlier : List Bool}
    (counts : CountsSilence x beat earlier) (hxy : pulse y = pulse x) :
    CountsSilence y beat earlier := by
  obtain ⟨-, hactive, hmissed⟩ : _ ∧ _ ∧ _ := by
    simpa only [pulse, Prod.mk.injEq] using hxy
  exact ⟨hactive.trans counts.active, hmissed.trans counts.missed⟩

theorem CountsSilence.tick {x : Entity} {beat : Bool} {earlier : List Bool}
    (counts : CountsSilence x beat earlier) :
    CountsSilence (checkHeartbeat x) false (beat :: earlier) := by
  unfold checkHeartbeat
  cases beat with
  | true =>
    rw [if_pos counts.active]
    exact ⟨rfl, by simp [counts.missed]⟩
  | false =>
    have hsilent : ¬ x.heartbeatActive = true := by simp [counts.active]
    rw [if_neg hsilent]
    exact ⟨counts.active, by simp [counts.missed]⟩

/-- A run of silent intervals at the front. -/
theorem le_length_takeWhile {α : Type} (p : α → Bool) (k : Nat) (items : List α) :
    k ≤ (items.takeWhile p).length ↔ k ≤ items.length ∧ ∀ a ∈ items.take k, p a = true := by
  induction items generalizing k with
  | nil => simp
  | cons a items ih =>
    cases k with
    | zero => simp
    | succ k =>
      by_cases ha : p a = true
      · simp [ha, ih]
      · simp [ha]

theorem CountsSilence.expires_eq {x : Entity} {beat : Bool} {earlier : List Bool}
    (counts : CountsSilence x beat earlier) : expires x = silent (beat :: earlier) := by
  have hticked := counts.tick.missed
  unfold expires silent
  rw [decide_eq_decide, hticked, if_neg Bool.false_ne_true, gt_iff_lt, ← Nat.succ_le_iff,
    le_length_takeWhile]
  simp only [Bool.not_eq_true', Nat.succ_eq_add_one]

/-! ## Steps -/

section Steps

variable {s t : ZstSession} {e : EntityId}

theorem pulse_inert (x : Entity) : pulse (inert x) = pulse x := rfl

theorem pulse_cables (x : Entity) (l : List ZstCableAddress) :
    pulse { x with cables := l } = pulse x := rfl

/-- The first loop of the timer goes through the performers once. -/
theorem checkHeartbeats_entities {h : ZstHierarchy} (owned : Owned h) (e : EntityId) :
    (checkHeartbeats h).1.entities e =
      if e ∈ getPerformers h then checkHeartbeat (h.entities e) else h.entities e := by
  have hloop : ∀ (items : List EntityId) (k : ZstHierarchy) (removed : List EntityId),
      items.Nodup →
      (items.foldl (fun (state : ZstHierarchy × List EntityId) e =>
        let k := state.1.modify e checkHeartbeat
        (k, if (k.entities e).missedHeartbeats > maxMissedHeartbeats then state.2 ++ [e]
          else state.2)) (k, removed)).1.entities e =
        if e ∈ items then checkHeartbeat (k.entities e) else k.entities e := by
    intro items
    induction items with
    | nil => simp
    | cons d items ih =>
      intro k removed hnodup
      obtain ⟨hnot, hnodup⟩ := List.nodup_cons.mp hnodup
      rw [List.foldl_cons]
      refine (ih _ _ hnodup).trans ?_
      by_cases hed : e = d
      · rw [hed, if_neg hnot, if_pos List.mem_cons_self, modify_entities_self]
      · rw [modify_entities_of_ne k _ hed]
        simp [hed]
  exact hloop _ h [] (owned.nodup.filter _)

theorem checkHeartbeats_counted {h : ZstHierarchy} (owned : Owned h) :
    (checkHeartbeats h).1 = counted h := by
  have hframe : (checkHeartbeats h).1 = { h with entities := (checkHeartbeats h).1.entities } := by
    unfold checkHeartbeats
    refine List.foldlRecOn (motive := fun (state : ZstHierarchy × List EntityId) =>
      state.1 = { h with entities := state.1.entities }) _ _ rfl fun state hstate e _ => ?_
    dsimp only
    rw [hstate]
    rfl
  rw [hframe, counted, funext (checkHeartbeats_entities owned)]

/-- A tick counts for every performer. -/
theorem tick_pulse (owned : Owned s.hierarchy) (hrun : step s .heartbeatTimer = .ok t)
    (he : e < s.hierarchy.next) : pulse (t.hierarchy.entities e) =
      pulse (if e ∈ getPerformers s.hierarchy then checkHeartbeat (s.hierarchy.entities e)
        else s.hierarchy.entities e) := by
  obtain rfl := Except.ok.inj hrun
  have hremoved : KeepsField pulse (checkHeartbeats s.hierarchy).1
      (stageHeartbeatTimer s.hierarchy) :=
    .foldl (fun h d => .removeProxyEntity pulse_inert h d) _ _
  have hnext := (checkHeartbeats_standing s.hierarchy).next
  rw [← checkHeartbeats_entities owned]
  exact hremoved.field e (hnext ▸ he)

/-- A heartbeat is noted for its performer, and for nobody else. -/
theorem receive_heartbeat {msg : ZstStageMessage}
    (hcontent : msg.content = .signalMessage .clientHeartbeat)
    (hrun : receive s msg = .ok t) : pulse (t.hierarchy.entities e) =
      if getClientFromEndpointUUID s.hierarchy msg.originEndpointUUID = some e then
        ((s.hierarchy.entities e).entityType, true, 0)
      else pulse (s.hierarchy.entities e) := by
  obtain ⟨u, hsession, hrun⟩ := Library.bind_ok.mp hrun
  obtain ⟨k, hhierarchy, hrun⟩ := Library.bind_ok.mp hrun
  obtain rfl := Except.ok.inj hrun
  -- the session has no use for a heartbeat
  have hsame : u = s := by
    unfold ZstStageSession.onReceiveMsg ZstStageSession.dispatch at hsession
    rw [hcontent] at hsession
    split at hsession
    · exact (Except.ok.inj hsession).symm
    · exact (Except.ok.inj hsession).symm
  subst hsame
  unfold ZstStageHierarchy.onReceiveMsg ZstStageHierarchy.dispatch at hhierarchy
  rw [hcontent] at hhierarchy
  obtain rfl := Except.ok.inj hhierarchy
  cases hclient : getClientFromEndpointUUID u.hierarchy msg.originEndpointUUID with
  | none =>
    dsimp only
    rw [respond_eq, if_neg (by simp)]
  | some d =>
    dsimp only
    rw [if_pos rfl, respond_eq]
    dsimp only
    rw [modify_entities]
    by_cases hed : e = d
    · rw [if_pos hed, if_pos (by rw [hed]), hed]
      rfl
    · rw [if_neg hed, if_neg fun heq => hed (Option.some.inj heq).symm]

/-- Whoever is no proxy any more is never one again. -/
theorem gone_step (hgone : e ∉ s.hierarchy.proxies) (he : e < s.hierarchy.next)
    {event : StageEvent} (hrun : step s event = .ok t) : e ∉ t.hierarchy.proxies := by
  have hadded : ∀ {x : Entity} {l : ZstHierarchy},
      addProxyEntity stageOverrides s.hierarchy x = .ok l → e ∉ l.proxies := fun hadd => by
    rw [(KeepsField.addProxyEntity pulse_inert hadd).2.2]
    refine fun hmem => (List.mem_append.mp hmem).elim hgone fun hlast => ?_
    exact Nat.lt_irrefl _ (List.mem_singleton.mp hlast ▸ he)
  cases step_shift hrun with
  | stands hk | dequeues _ _ hk | connects _ _ _ _ _ _ _ _ _ _ hk | forgets _ hk =>
    rw [hk.proxies]
    exact hgone
  | removes l hl hk =>
    rw [hk.proxies]
    refine List.foldlRecOn (motive := fun (k : ZstHierarchy) => e ∉ k.proxies) _ _ ?_
      fun k hk d _ => ?_
    · rw [hl.proxies]
      exact hgone
    · rw [(SameProxies.removeProxyEntity k d).proxies]
      exact hk
  | renames _ buffer _ proxy _ _ _ hk =>
    rw [hk.proxies, (SameProxies.updateProxyEntity s.hierarchy proxy buffer).proxies]
    exact hgone
  | joins _ _ _ _ _ _ _ hadd hk | creates _ _ _ _ _ _ _ hadd hk =>
    rw [hk.proxies]
    exact hadded hadd
  | buries d _ hk =>
    rw [hk.proxies]
    exact fun hmem => hgone (List.mem_of_mem_erase hmem)

/-- Only a performer has heartbeats. -/
theorem mem_getPerformers_of_beating {event : StageEvent}
    (hbeating : beating s.hierarchy event = some e) : e ∈ getPerformers s.hierarchy := by
  cases event with
  | receive msg =>
    unfold beating at hbeating
    dsimp only at hbeating
    split at hbeating
    · exact List.mem_of_find?_eq_some hbeating
    · cases hbeating
  | _ => cases hbeating

/-- The count of a performer and the noted intervals change in the same way. -/
theorem counts_step (owned : Owned s.hierarchy) (hthere : e ∈ getPerformers s.hierarchy)
    {beat : Bool} {earlier : List Bool}
    (counts : CountsSilence (s.hierarchy.entities e) beat earlier)
    {event : StageEvent} (hrun : step s event = .ok t) :
    ∃ beat' earlier', note e s.hierarchy event (beat :: earlier) = beat' :: earlier' ∧
      CountsSilence (t.hierarchy.entities e) beat' earlier' := by
  have he := owned.allocated e (List.mem_of_mem_filter hthere)
  by_cases htick : event = .heartbeatTimer
  · subst htick
    refine ⟨false, beat :: earlier, ?_, counts.tick.congr ?_⟩
    · simp [note, heard, he, tally]
    · rw [tick_pulse owned hrun he, if_pos hthere]
  unfold note heard
  rw [if_neg htick]
  by_cases hbeat : ∃ msg, event = .receive msg ∧ msg.content = .signalMessage .clientHeartbeat
  · obtain ⟨msg, rfl, hcontent⟩ := hbeat
    have hpulse := receive_heartbeat (e := e) hcontent hrun
    simp only [beating, if_pos hcontent]
    by_cases hclient : getClientFromEndpointUUID s.hierarchy msg.originEndpointUUID = some e
    · rw [if_pos hclient] at hpulse ⊢
      obtain ⟨-, hactive, hmissed⟩ : _ ∧ _ ∧ _ := by
        simpa only [pulse, Prod.mk.injEq] using hpulse
      exact ⟨true, earlier, rfl, hactive, hmissed⟩
    · rw [if_neg hclient] at hpulse ⊢
      exact ⟨beat, earlier, rfl, counts.congr hpulse⟩
  · have hnone : beating s.hierarchy event ≠ some e := by
      cases event with
      | receive msg =>
        unfold beating
        dsimp only
        rw [if_neg fun hcontent => hbeat ⟨msg, rfl, hcontent⟩]
        simp
      | _ => simp [beating]
    rw [if_neg hnone]
    have hkeeps : KeepsField pulse s.hierarchy t.hierarchy := .step pulse_inert pulse_cables htick
      (fun msg hmsg hcontent => hbeat ⟨msg, hmsg, hcontent⟩) hrun
    exact ⟨beat, earlier, rfl, counts.congr (hkeeps.field e he)⟩

/-- Nobody is freed, and nobody changes what kind of entity it is. -/
theorem kind_step (owned : Owned s.hierarchy) {event : StageEvent}
    (hrun : step s event = .ok t) : s.hierarchy.next ≤ t.hierarchy.next ∧
      ∀ e < s.hierarchy.next,
        (t.hierarchy.entities e).entityType = (s.hierarchy.entities e).entityType := by
  by_cases htick : event = .heartbeatTimer
  · subst htick
    refine ⟨?_, fun e he => (congrArg Prod.fst (tick_pulse owned hrun he)).trans ?_⟩
    · obtain rfl := Except.ok.inj hrun
      have hremoved : KeepsField pulse (checkHeartbeats s.hierarchy).1
          (stageHeartbeatTimer s.hierarchy) :=
        .foldl (fun h d => .removeProxyEntity pulse_inert h d) _ _
      exact (checkHeartbeats_standing s.hierarchy).next ▸ hremoved.next
    · split
      · unfold pulse checkHeartbeat
        split <;> rfl
      · rfl
  by_cases hbeat : ∃ msg, event = .receive msg ∧ msg.content = .signalMessage .clientHeartbeat
  · obtain ⟨msg, rfl, hcontent⟩ := hbeat
    have hcalm : EntityPreserving msg.content := by
      rw [hcontent]
      trivial
    have hk := receive_calm hcalm hrun
    exact ⟨Nat.le_of_eq hk.next.symm, fun e _ => hk.field Entity.entityType (fun _ => rfl) e⟩
  · have hkeeps : KeepsField pulse s.hierarchy t.hierarchy := .step pulse_inert pulse_cables htick
      (fun msg hmsg hcontent => hbeat ⟨msg, hmsg, hcontent⟩) hrun
    exact ⟨hkeeps.next, fun e he => congrArg Prod.fst (hkeeps.field e he)⟩

/-- Whoever is no performer any more is never one again. -/
theorem gone_performer (owned : Owned s.hierarchy) (he : e < s.hierarchy.next)
    (hgone : e ∉ getPerformers s.hierarchy) {event : StageEvent}
    (hrun : step s event = .ok t) : e ∉ getPerformers t.hierarchy := by
  intro hthere
  obtain ⟨hproxy, hkind⟩ := List.mem_filter.mp hthere
  rw [(kind_step owned hrun).2 e he] at hkind
  refine gone_step (fun hmem => hgone ?_) he hrun hproxy
  exact List.mem_filter.mpr ⟨hmem, hkind⟩

/-- Whoever becomes a proxy in a step is new, and has arrived in a message. -/
theorem new_arrives (owned : Owned s.hierarchy) {event : StageEvent}
    (hrun : step s event = .ok t) (hfresh : s.hierarchy.next ≤ e) (hnew : e ∈ t.hierarchy.proxies) :
    e = s.hierarchy.next ∧ ∃ msg, event = .receive msg ∧
      ((∃ performer address, msg.content = .clientJoinRequest performer address) ∨
        ∃ buffer, msg.content = .entityCreateRequest buffer) := by
  have hold : e ∉ s.hierarchy.proxies := fun hmem =>
    Nat.not_lt.mpr hfresh (owned.allocated _ hmem)
  have hadded : ∀ {x : Entity} {l : ZstHierarchy},
      addProxyEntity stageOverrides s.hierarchy x = .ok l → e ∈ l.proxies →
        e = s.hierarchy.next := fun hadd hmem => by
    rw [(KeepsField.addProxyEntity pulse_inert hadd).2.2] at hmem
    exact List.mem_singleton.mp ((List.mem_append.mp hmem).resolve_left hold)
  cases step_shift hrun with
  | stands hk | dequeues _ _ hk | connects _ _ _ _ _ _ _ _ _ _ hk | forgets _ hk =>
    rw [hk.proxies] at hnew
    exact absurd hnew hold
  | removes l hl hk =>
    rw [hk.proxies] at hnew
    refine absurd hnew (List.foldlRecOn (motive := fun (k : ZstHierarchy) => e ∉ k.proxies) _ _ ?_
      fun k hk d _ => ?_)
    · rw [hl.proxies]
      exact hold
    · rw [(SameProxies.removeProxyEntity k d).proxies]
      exact hk
  | renames _ buffer _ proxy _ _ _ hk =>
    rw [hk.proxies, (SameProxies.updateProxyEntity s.hierarchy proxy buffer).proxies] at hnew
    exact absurd hnew hold
  | joins msg performer address _ hevent hcontent _ hadd hk =>
    exact ⟨hadded hadd (hk.proxies ▸ hnew), msg, hevent, Or.inl ⟨performer, address, hcontent⟩⟩
  | creates msg buffer _ hevent hcontent _ _ hadd hk =>
    exact ⟨hadded hadd (hk.proxies ▸ hnew), msg, hevent, Or.inr ⟨buffer, hcontent⟩⟩
  | buries d _ hk =>
    rw [hk.proxies] at hnew
    exact absurd (List.mem_of_mem_erase hnew) hold

/-- Whoever arrives as a performer has not been looked at yet. -/
theorem new_pulse (owned : Owned s.hierarchy) {event : StageEvent}
    (hrun : step s event = .ok t) (hfresh : s.hierarchy.next ≤ e)
    (hnew : e ∈ getPerformers t.hierarchy) : CountsSilence (t.hierarchy.entities e) false [] := by
  have hproxy := List.mem_of_mem_filter hnew
  obtain ⟨rfl, msg, rfl, harrives⟩ := new_arrives owned hrun hfresh hproxy
  have hold : s.hierarchy.next ∉ s.hierarchy.proxies := fun hmem =>
    Nat.lt_irrefl _ (owned.allocated _ hmem)
  have hadded : ∀ {l : ZstHierarchy} {x : Entity}, pulse x = (x.entityType, false, 0) →
      addProxyEntity stageOverrides s.hierarchy x = .ok l →
      CountsSilence (l.entities s.hierarchy.next) false [] := by
    intro l x hx hadd
    have hpulse := (KeepsField.addProxyEntity pulse_inert hadd).2.1.trans hx
    obtain ⟨-, hactive, hmissed⟩ : _ ∧ _ ∧ _ := by
      simpa only [pulse, Prod.mk.injEq] using hpulse
    exact ⟨hactive, hmissed⟩
  rcases harrives with ⟨performer, address, hcontent⟩ | ⟨buffer, hcontent⟩
  · obtain ⟨l, response, hdispatch, rfl⟩ :=
      receive_not_calm (by simp [hcontent, EntityPreserving]) hrun
    rw [respond_eq] at hproxy ⊢
    unfold ZstStageHierarchy.dispatch at hdispatch
    rw [hcontent] at hdispatch
    rcases createClientHandler_ok hdispatch with rfl | ⟨-, hadd⟩
    · exact absurd hproxy hold
    · have hcounts := hadded rfl hadd
      exact hcounts
  · obtain ⟨l, response, hdispatch, rfl⟩ :=
      receive_not_calm (by simp [hcontent, EntityPreserving]) hrun
    rw [respond_eq] at hproxy ⊢
    unfold ZstStageHierarchy.dispatch at hdispatch
    rw [hcontent] at hdispatch
    rcases createEntityHandler_ok hdispatch with rfl | ⟨x, hx, hadd⟩
    · exact absurd hproxy hold
    · obtain ⟨-, rfl⟩ := createProxyEntity_eq_some hx
      have hcounts := hadded rfl hadd
      exact hcounts

/-- What a tick comes to. -/
theorem ticked_expires (owned : Owned s.hierarchy) (hrun : step s .heartbeatTimer = .ok t) :
    Ticked s.hierarchy
      ((getPerformers s.hierarchy).filter fun e => expires (s.hierarchy.entities e))
      t.hierarchy where
  handed := by
    obtain rfl := Except.ok.inj hrun
    rw [← Departures.checkHeartbeats_removed owned, ← checkHeartbeats_counted owned]
    rfl
  gone e he :=
    Departures.timer_removes owned hrun (List.mem_filter.mp he).1 (List.mem_filter.mp he).2
  spared halone d hd hstays := by
    refine Departures.timer_spares owned hrun (fun e he hexpired => ?_) hd ?_
    · exact halone e (List.mem_filter.mpr ⟨he, hexpired⟩)
    · by_contra hexpired
      refine hstays (List.mem_filter.mpr ⟨(Departures.mem_members.mp hd).1, ?_⟩)
      simpa using hexpired

end Steps

/-! ## Runs -/

section Runs

variable {s t u : ZstSession} {e : EntityId}

/-- What the intervals say of an entity: nothing before it joins, and the count of
a performer afterwards. -/
structure Recorded (e : EntityId) (s : ZstSession) (beats : List Bool) : Prop where
  fresh : s.hierarchy.next ≤ e → beats = [false]
  counts : e ∈ getPerformers s.hierarchy →
    ∃ beat earlier, beats = beat :: earlier ∧ CountsSilence (s.hierarchy.entities e) beat earlier

theorem Recorded.step {beats : List Bool} (recorded : Recorded e s beats)
    (owned : Owned s.hierarchy) {event : StageEvent} (hrun : ZstStage.step s event = .ok t) :
    Recorded e t (note e s.hierarchy event beats) := by
  have hunheard : s.hierarchy.next ≤ e → note e s.hierarchy event beats = [false] := by
    intro hfresh
    have hnobody : beating s.hierarchy event ≠ some e := fun hbeating => by
      have hthere := mem_getPerformers_of_beating hbeating
      exact Nat.not_lt.mpr hfresh (owned.allocated e (List.mem_of_mem_filter hthere))
    unfold note heard
    rw [if_neg (Nat.not_lt.mpr hfresh), if_neg hnobody, ite_self]
    exact recorded.fresh hfresh
  refine ⟨fun hfresh => hunheard ((kind_step owned hrun).1.trans hfresh), fun hthere => ?_⟩
  rcases Nat.lt_or_ge e s.hierarchy.next with hold | hfresh
  · have hbefore : e ∈ getPerformers s.hierarchy := by
      by_contra hgone
      exact gone_performer owned hold hgone hrun hthere
    obtain ⟨beat, earlier, rfl, hcounts⟩ := recorded.counts hbefore
    exact counts_step owned hbefore hcounts hrun
  · exact ⟨false, [], hunheard hfresh, new_pulse owned hrun hfresh hthere⟩

theorem Recorded.run {beats : List Bool} (recorded : Recorded e s beats)
    (owned : Owned s.hierarchy) {events : List StageEvent}
    (hrun : Library.run ZstStage.step s events = .ok t) :
    Recorded e t (intervals e s events beats) ∧ Owned t.hierarchy := by
  induction events generalizing s beats with
  | nil =>
    obtain rfl : s = t := by simpa using hrun
    exact ⟨recorded, owned⟩
  | cons event events ih =>
    obtain ⟨u, hstep, hrest⟩ := Library.run_cons_ok.mp hrun
    unfold intervals
    rw [hstep]
    exact ih (recorded.step owned hstep) (owned.step hstep) hrest

/-- The performers of which no heartbeat was handled for too long when the run is over. -/
def silentPerformers (events : List StageEvent) (h : ZstHierarchy) : List EntityId :=
  (getPerformers h).filter fun e => silent (intervals e opened events [false])

theorem ticked_silentPerformers {events : List StageEvent}
    (hrun : Library.run step opened events = .ok s)
    (htick : step s .heartbeatTimer = .ok t) :
    Ticked s.hierarchy (silentPerformers events s.hierarchy) t.hierarchy := by
  have hrecorded : ∀ e, Recorded e s (intervals e opened events [false]) ∧ Owned s.hierarchy :=
    fun e => Recorded.run ⟨fun _ => rfl, fun hmem => by cases hmem⟩ owned_opened hrun
  have hticked := ticked_expires (hrecorded 0).2 htick
  have hsame : (getPerformers s.hierarchy).filter (fun e => expires (s.hierarchy.entities e)) =
      silentPerformers events s.hierarchy := by
    refine List.filter_congr fun e he => ?_
    obtain ⟨beat, earlier, hbeats, hcounts⟩ := (hrecorded e).1.counts he
    rw [hbeats, hcounts.expires_eq]
  rwa [hsame] at hticked

/-! ## The heartbeats of the others -/

/-- A tick, or a heartbeat of whoever it may be. -/
def IsPulse : StageEvent → Prop
  | .receive msg => msg.content = .signalMessage .clientHeartbeat
  | .heartbeatTimer => True
  | _ => False

/-- Who a heartbeat belongs to does not change with ticks and heartbeats. -/
theorem pulse_clients {event : StageEvent} (hevent : IsPulse event)
    (hrun : step s event = .ok t) : t.hierarchy.next = s.hierarchy.next ∧
      getPerformers t.hierarchy = getPerformers s.hierarchy ∧
      ∀ endpoint, getClientFromEndpointUUID t.hierarchy endpoint =
        getClientFromEndpointUUID s.hierarchy endpoint := by
  cases event with
  | receive msg =>
    have hcontent : msg.content = .signalMessage .clientHeartbeat := hevent
    have hcalm : EntityPreserving msg.content := by
      rw [hcontent]
      trivial
    have hk := receive_calm hcalm hrun
    exact ⟨hk.next, hk.getPerformers_eq, hk.getClientFromEndpointUUID_eq⟩
  | heartbeatTimer =>
    obtain ⟨hperformers, -, hproxy, -⟩ := Departures.timer_keeps hrun
    refine ⟨?_, hperformers, fun endpoint => ?_⟩
    · obtain rfl := Except.ok.inj hrun
      exact (Departures.removals_keep _ _).1.next.trans (checkHeartbeats_standing _).next
    · unfold getClientFromEndpointUUID
      simp only [hperformers, hproxy]
  | _ => exact hevent.elim

theorem heard_pulse {event : StageEvent} (hevent : IsPulse event)
    (hrun : step s event = .ok t) : heard e t.hierarchy = heard e s.hierarchy := by
  obtain ⟨hnext, -, hclients⟩ := pulse_clients hevent hrun
  funext other
  have hbeating : beating t.hierarchy other = beating s.hierarchy other := by
    cases other with
    | receive msg => simp only [beating, hclients]
    | _ => rfl
  unfold heard
  rw [hnext, hbeating]

/-- Over ticks and heartbeats, the intervals are those of the performer's own. -/
theorem intervals_pulses {events : List StageEvent} (hevents : ∀ event ∈ events, IsPulse event)
    (hrun : Library.run step s events = .ok t) (beats : List Bool) :
    intervals e s events beats = (events.filterMap (heard e s.hierarchy)).foldl tally beats ∧
      getPerformers t.hierarchy = getPerformers s.hierarchy := by
  induction events generalizing s beats with
  | nil =>
    obtain rfl : s = t := by simpa using hrun
    exact ⟨rfl, rfl⟩
  | cons event events ih =>
    obtain ⟨u, hstep, hrest⟩ := Library.run_cons_ok.mp hrun
    have hevent := hevents event List.mem_cons_self
    obtain ⟨hintervals, hperformers⟩ :=
      ih (fun other hother => hevents other (List.mem_cons_of_mem event hother)) hrest
        (note e s.hierarchy event beats)
    refine ⟨?_, hperformers.trans (pulse_clients hevent hstep).2.1⟩
    unfold intervals
    rw [hstep]
    dsimp only
    rw [hintervals, heard_pulse hevent hstep, List.filterMap_cons]
    unfold note
    cases heard e s.hierarchy event with
    | none => rfl
    | some beat => rfl

theorem intervals_append {first second : List StageEvent} {beats : List Bool}
    (hrun : Library.run step s first = .ok t) : intervals e s (first ++ second) beats =
      intervals e t second (intervals e s first beats) := by
  induction first generalizing s beats with
  | nil =>
    obtain rfl : s = t := by simpa using hrun
    rfl
  | cons event first ih =>
    obtain ⟨u, hstep, hrest⟩ := Library.run_cons_ok.mp hrun
    simp only [List.cons_append, intervals, hstep]
    exact ih hrest

theorem mem_silentPerformers_append {events more : List StageEvent}
    (hrun : Library.run step opened events = .ok s) (hmore : ∀ event ∈ more, IsPulse event)
    (hpulses : Library.run step s more = .ok t) :
    e ∈ silentPerformers (events ++ more) t.hierarchy ↔ e ∈ getPerformers s.hierarchy ∧
      silent ((more.filterMap (heard e s.hierarchy)).foldl tally
        (intervals e opened events [false])) = true := by
  obtain ⟨hintervals, hperformers⟩ :=
    intervals_pulses (e := e) hmore hpulses (intervals e opened events [false])
  rw [silentPerformers, List.mem_filter, intervals_append hrun, hintervals, hperformers]

/-- **Missed heartbeats.** After any run, a tick of the timer hands exactly the performers
to `remove_proxy_entity` of which no heartbeat was handled in the last
`maxMissedHeartbeats + 1` intervals since they joined. Ticks and heartbeats in any order
that are the same for one performer come to the same for it. -/
theorem removed_iff_silent {events : List StageEvent}
    (hrun : Library.run step opened events = .ok s) :
    (∀ t, step s .heartbeatTimer = .ok t →
      Ticked s.hierarchy (silentPerformers events s.hierarchy) t.hierarchy) ∧
    ∀ more more' : List StageEvent, (∀ event ∈ more, IsPulse event) →
      (∀ event ∈ more', IsPulse event) → ∀ t t' u u',
      Library.run step s more = .ok t → step t .heartbeatTimer = .ok u →
      Library.run step s more' = .ok t' → step t' .heartbeatTimer = .ok u' →
      Ticked t.hierarchy (silentPerformers (events ++ more) t.hierarchy) u.hierarchy ∧
      Ticked t'.hierarchy (silentPerformers (events ++ more') t'.hierarchy) u'.hierarchy ∧
      ∀ e, more.filterMap (heard e s.hierarchy) = more'.filterMap (heard e s.hierarchy) →
        (e ∈ silentPerformers (events ++ more) t.hierarchy ↔
          e ∈ silentPerformers (events ++ more') t'.hierarchy) := by
  refine ⟨fun t htick => ticked_silentPerformers hrun htick, ?_⟩
  intro more more' hmore hmore' t t' u u' ht hu ht' hu'
  refine ⟨ticked_silentPerformers (Library.run_append_ok.mpr ⟨s, hrun, ht⟩) hu,
    ticked_silentPerformers (Library.run_append_ok.mpr ⟨s, hrun, ht'⟩) hu', fun e hsame => ?_⟩
  rw [mem_silentPerformers_append hrun hmore ht, mem_silentPerformers_append hrun hmore' ht', hsame]

/-- One heartbeat of `ada`, and then silence of hers, while `bob` is heard all the time. -/
def beatenOnce : List StageEvent :=
  [joining "ada" 1, joining "bob" 2, heartbeat 1] ++
    (List.replicate 11 [heartbeat 2, .heartbeatTimer]).flatten

/-- The next tick removes `ada`, whether `bob` is heard once more before it or not. -/
theorem removed_iff_silent_ada :
    ∃ s t, Library.run step opened beatenOnce = .ok s ∧ step s .heartbeatTimer = .ok t ∧
      Ticked s.hierarchy [0] t.hierarchy ∧
      ∃ u v, step s (heartbeat 2) = .ok u ∧ step u .heartbeatTimer = .ok v ∧
        Ticked u.hierarchy (silentPerformers (beatenOnce ++ [heartbeat 2]) u.hierarchy)
          v.hierarchy ∧
        (0 ∈ silentPerformers beatenOnce s.hierarchy ↔
          0 ∈ silentPerformers (beatenOnce ++ [heartbeat 2]) u.hierarchy) := by
  obtain ⟨s, hrun, hsilent, hheard⟩ : ∃ s, Library.run step opened beatenOnce = .ok s ∧
      silentPerformers beatenOnce s.hierarchy = [0] ∧
      heard 0 s.hierarchy (heartbeat 2) = none :=
    ⟨_, rfl, by decide +kernel, by decide +kernel⟩
  obtain ⟨u, hu⟩ : ∃ u, step s (heartbeat 2) = .ok u := by
    obtain rfl := Except.ok.inj hrun
    exact ⟨_, rfl⟩
  obtain ⟨hremoved, hothers⟩ := removed_iff_silent hrun
  rw [hsilent] at hremoved
  have hbob : Library.run step s [heartbeat 2] = .ok u :=
    Library.run_cons_ok.mpr ⟨u, hu, rfl⟩
  have hpulse : ∀ event ∈ [heartbeat 2], IsPulse event := fun event hevent => by
    obtain rfl := List.mem_singleton.mp hevent
    exact rfl
  obtain ⟨-, hticked, hsame⟩ := hothers [] [heartbeat 2]
    (fun event hnone => by cases hnone) hpulse s u (onHierarchy s stageHeartbeatTimer)
    (onHierarchy u stageHeartbeatTimer) rfl rfl hbob rfl
  rw [List.append_nil] at hsame
  refine ⟨s, _, hrun, rfl, hremoved _ rfl, u, _, hu, rfl, hticked, hsame 0 ?_⟩
  rw [List.filterMap_cons_none hheard]

end Runs

end Showtime.Heartbeats
