import Showtime.Naming
/-!
# Introductions

The message threads name entities to clients at once, while the arrivals of
the entities wait for the event loop. A client hears of an entity from the
broadcast of its arrival, or from the snapshot of the graph that it asks for.
-/

namespace Showtime.Introductions

open ZstHierarchy ZstStageHierarchy ZstStageSession ZstStage Naming
open Subscribers (joined mem_joined)

/-! ## Runs that are watched -/

/-- The entity whose arrival an event of the hierarchy announces. -/
def arrivingEntity : HierarchyEvent → Option EntityId
  | .entityArriving e | .factoryArriving e | .performerArriving e => some e
  | _ => none

/-- The entities whose arrival waits for the event loop. -/
def arrivals (h : ZstHierarchy) : List EntityId :=
  h.hierarchyEvents.filterMap arrivingEntity

/-- The stage with two logs. In `awaited` are the clients with the entities whose
arrival was queued when they joined, in `shown` the clients with the entities
that were below another performer when they asked for the graph. -/
structure WatchedArrivals where
  session : ZstSession
  awaited : List (EntityId × EntityId) := []
  shown : List (EntityId × EntityId) := []

/-- Who has joined in a step awaits the entities whose arrival was queued. -/
def awaits (s t : ZstSession) : List (EntityId × EntityId) :=
  ((joined t.hierarchy).filter fun c => c ∉ joined s.hierarchy).flatMap fun c =>
    (arrivals s.hierarchy).map fun e => (c, e)

def shows (s : ZstSession) (event : StageEvent) : List (EntityId × EntityId) :=
  match syncer s event with
  | some c => (Snapshot.published s.hierarchy c).map fun e => (c, e)
  | none => []

def watch (w : WatchedArrivals) (event : StageEvent) : Except Fault WatchedArrivals := do
  let t ← step w.session event
  return {
    session := t
    awaited := w.awaited ++ awaits w.session t
    shown := w.shown ++ shows w.session event }

/-! ## The order on a client's channel -/

/-- The path of the entity that a message asks its receiver to create. -/
def createdPath : Content → Option ZstURI
  | .entityCreateRequest buffer => some buffer.uri
  | _ => none

/-- The client at the endpoint was asked to create the entity of the path. -/
def ToldOf (sent : List Outgoing) (endpoint : Endpoint) (path : ZstURI) : Prop :=
  ∃ m ∈ sent, m.target = endpoint ∧ createdPath m.content = some path

instance (sent : List Outgoing) (endpoint : Endpoint) (path : ZstURI) :
    Decidable (ToldOf sent endpoint path) :=
  inferInstanceAs (Decidable (∃ m ∈ sent, _))

/-- The path is below a performer of the client. -/
def Belongs (h : ZstHierarchy) (endpoint : Endpoint) (path : ZstURI) : Prop :=
  ∃ c ∈ joined h, endpointOf h c = some endpoint ∧ path.contains (h.entities c).uri = true

instance (h : ZstHierarchy) (endpoint : Endpoint) (path : ZstURI) :
    Decidable (Belongs h endpoint path) :=
  inferInstanceAs (Decidable (∃ c ∈ joined h, _))

/-- Whatever a message of the step names is its receiver's own, or was sent to
the receiver before. -/
def Introduces (w : WatchedArrivals) (event : StageEvent) : Prop :=
  ∀ t, step w.session event = .ok t → ∀ before m after,
    t.hierarchy.sent = before ++ m :: after →
    w.session.hierarchy.sent.length ≤ before.length →
    ∀ path ∈ names m.content,
      Belongs w.session.hierarchy m.target path ∨ ToldOf before m.target path

/-- The client was there before the entity, or while its arrival was queued, and
the arrival is not queued any more; or the client's snapshot had the entity. -/
def Introduced (w : WatchedArrivals) (c e : EntityId) : Prop :=
  (c < e ∨ (c, e) ∈ w.awaited) ∧ e ∉ arrivals w.session.hierarchy ∨ (c, e) ∈ w.shown

instance (w : WatchedArrivals) (c e : EntityId) : Decidable (Introduced w c e) :=
  inferInstanceAs (Decidable (_ ∨ _))

/-- Whatever the step names to a client is its own, or was introduced to it, at
the latest by the snapshot that the step sends. -/
def Acquainted (w : WatchedArrivals) (event : StageEvent) : Prop :=
  ∀ mention ∈ mentions w.session event,
    mention.2.contains (w.session.hierarchy.entities mention.1).uri = true ∨
      ∃ e ∈ w.session.hierarchy.findEntity mention.2,
        Introduced w mention.1 e ∨ (mention.1, e) ∈ shows w.session event

instance (w : WatchedArrivals) (event : StageEvent) : Decidable (Acquainted w event) :=
  inferInstanceAs (Decidable (∀ mention ∈ mentions w.session event, _))

/-! ## One step -/

theorem ToldOf.mono {sent more : List Outgoing} {endpoint : Endpoint} {path : ZstURI}
    (hmore : sent <+: more) (htold : ToldOf sent endpoint path) : ToldOf more endpoint path := by
  obtain ⟨m, hm, hcontent⟩ := htold
  exact ⟨m, hmore.subset hm, hcontent⟩

/-- A message that names somebody comes after the nameless ones at the start. -/
theorem late_of_named {old nameless late before after : List Outgoing} {m : Outgoing}
    (hsplit : old ++ nameless ++ late = before ++ m :: after)
    (hold : old.length ≤ before.length) (hnameless : ∀ m ∈ nameless, NamesNobody m)
    (hm : ¬ NamesNobody m) : old ++ nameless <+: before ∧ m ∈ late := by
  rcases List.append_eq_append_iff.mp hsplit with ⟨rest, hbefore, hlate⟩ | ⟨rest, hearly, hrest⟩
  · refine ⟨⟨rest, hbefore.symm⟩, ?_⟩
    rw [hlate]
    exact List.mem_append_right _ List.mem_cons_self
  · cases rest with
    | nil =>
      rw [List.append_nil] at hearly
      rw [List.nil_append] at hrest
      exact ⟨hearly ▸ List.prefix_refl _, hrest ▸ List.mem_cons_self⟩
    | cons first rest =>
      obtain ⟨rfl, -⟩ := List.cons_eq_cons.mp hrest
      refine absurd (hnameless m ?_) hm
      have hprefix : old <+: before :=
        List.prefix_of_prefix_length_le ⟨nameless, hearly⟩ ⟨m :: rest, rfl⟩ hold
      obtain ⟨between, rfl⟩ := hprefix
      rw [List.append_assoc, List.append_cancel_left_eq] at hearly
      rw [hearly]
      exact List.mem_append_right _ List.mem_cons_self

theorem syncer_eq_some {s : ZstSession} {event : StageEvent} {c : EntityId}
    (hsync : syncer s event = some c) : ∃ msg, event = .receive msg ∧
      msg.content = .signalMessage .clientSync ∧
      getClientFromEndpointUUID s.hierarchy msg.originEndpointUUID = some c := by
  unfold syncer at hsync
  split at hsync
  · rename_i msg
    split at hsync
    · rename_i hcontent
      exact ⟨msg, rfl, hcontent, hsync⟩
    · cases hsync
  · cases hsync

/-- A step sends what names nobody, the snapshot's entities among it, and then
what it has to name. -/
theorem step_sends {s t : ZstSession} {event : StageEvent} (sound : FindsOwned s.hierarchy)
    (housed : Housed s.hierarchy) (hrun : step s event = .ok t) :
    ∃ creates late, t.hierarchy.sent = s.hierarchy.sent ++ creates ++ late ∧
      (∀ m ∈ creates, NamesNobody m) ∧
      (∀ m ∈ late, Mentioned s.hierarchy (mentions s event) m) ∧
      ∀ pair ∈ shows s event, ∃ endpoint, endpointOf s.hierarchy pair.1 = some endpoint ∧
        ToldOf creates endpoint (s.hierarchy.entities pair.2).uri := by
  cases hsync : syncer s event with
  | none =>
    obtain ⟨late, hlate, hsent⟩ := step_mentioned sound housed hsync hrun
    refine ⟨[], late, by simpa using hsent, by simp, hlate, ?_⟩
    simp [shows, hsync]
  | some c =>
    obtain ⟨msg, rfl, hcontent, hclient⟩ := syncer_eq_some hsync
    have hendpoint := endpointOf_client hclient
    have hjoined : c ∈ joined s.hierarchy := by
      have hperformer := List.mem_of_find?_eq_some hclient
      exact mem_joined_iff.mpr ⟨List.mem_of_mem_filter hperformer, _, hendpoint⟩
    refine ⟨_, _, receive_sync hclient hcontent hrun, fun m hm => ?_, fun m hm => ?_,
      fun pair hpair => ?_⟩
    · obtain ⟨e, -, rfl⟩ := List.mem_map.mp hm
      rfl
    · rcases List.mem_append.mp hm with hm | hm
      · obtain ⟨cable, hcable, rfl⟩ := List.mem_map.mp hm
        intro path hpath
        refine ⟨c, hjoined, ?_, hendpoint⟩
        simp only [mentions, hclient, hcontent, if_true]
        exact List.mem_flatMap.mpr ⟨cable, hcable, List.mem_map.mpr ⟨path, hpath, rfl⟩⟩
      · have hnameless : NamesNobody m := by
          unfold responseMessages at hm
          rw [if_neg (by decide)] at hm
          rw [List.mem_singleton.mp hm]
          rfl
        exact hnameless.mentioned _ _
    · unfold shows at hpair
      rw [hsync] at hpair
      obtain ⟨e, he, rfl⟩ := List.mem_map.mp hpair
      exact ⟨_, hendpoint, _, List.mem_map.mpr ⟨e, he, rfl⟩, rfl, rfl⟩

/-! ## Who knows whom -/

/-- The entity is the client's own, or the client was told of it. -/
def KnowsEntity (h : ZstHierarchy) (c e : EntityId) : Prop :=
  (h.entities e).uri.contains (h.entities c).uri = true ∨
    ∃ endpoint, endpointOf h c = some endpoint ∧ ToldOf h.sent endpoint (h.entities e).uri

theorem KnowsEntity.mono {h k : ZstHierarchy} {c e : EntityId} (hknows : KnowsEntity h c e)
    (hc : (k.entities c).uri = (h.entities c).uri) (he : (k.entities e).uri = (h.entities e).uri)
    (hendpoint : endpointOf k c = endpointOf h c) (hsent : h.sent <+: k.sent) :
    KnowsEntity k c e := by
  unfold KnowsEntity
  rw [hc, he, hendpoint]
  rcases hknows with hown | ⟨endpoint, hat, htold⟩
  · exact Or.inl hown
  · exact Or.inr ⟨endpoint, hat, htold.mono hsent⟩

/-- Every client knows the entities that came after it, that it awaited, or that
it was shown, but for those whose arrival is queued. -/
structure Informs (h : ZstHierarchy) (awaited shown : List (EntityId × EntityId)) : Prop where
  sound : FindsOwned h
  housed : Housed h
  named : ∀ e < h.next, (h.entities e).uri ≠ []
  performer : ∀ c ∈ joined h, (h.entities c).entityType = .performer
  queued : ∀ e ∈ arrivals h, e < h.next
  awaitedOld : ∀ pair ∈ awaited, pair.1 < h.next ∧ pair.2 < h.next
  shownOld : ∀ pair ∈ shown, pair.1 < h.next ∧ pair.2 < h.next
  expects : ∀ c ∈ joined h, ∀ e < h.next, c < e ∨ (c, e) ∈ awaited →
    e ∈ arrivals h ∨ KnowsEntity h c e
  saw : ∀ pair ∈ shown, KnowsEntity h pair.1 pair.2

theorem informs_opened : Informs opened.hierarchy [] [] := by
  refine ⟨sound_opened, ?_, ?_, ?_, ?_, ?_, ?_, ?_, ?_⟩
  · simp [Housed, opened, ofList, findEntity]
  · simp [opened, ofList]
  · simp [opened, ofList, joined]
  · simp [opened, ofList, arrivals]
  · simp
  · simp
  · simp [opened, ofList, joined]
  · simp

namespace Informs

variable {h k : ZstHierarchy} {awaited shown : List (EntityId × EntityId)}

/-- A hierarchy that has the same entities informs the clients as well, if it
told all of them of the arrivals that left the queue. -/
theorem mono (hh : Informs h awaited shown) (sound : FindsOwned k) (housed : Housed k)
    (hnext : k.next = h.next) (huri : ∀ e, (k.entities e).uri = (h.entities e).uri)
    (hkind : ∀ e, (k.entities e).entityType = (h.entities e).entityType)
    (hjoined : ∀ c ∈ joined k, c ∈ joined h) (hendpoint : ∀ c, endpointOf k c = endpointOf h c)
    (hqueued : ∀ e ∈ arrivals k, e ∈ arrivals h)
    (hannounced : ∀ e ∈ arrivals h, e ∈ arrivals k ∨ ∀ c ∈ joined k, KnowsEntity k c e)
    (hsent : h.sent <+: k.sent) : Informs k awaited shown := by
  have hknows : ∀ {c e}, KnowsEntity h c e → KnowsEntity k c e := fun {c e} hknown =>
    hknown.mono (huri c) (huri e) (hendpoint c) hsent
  refine ⟨sound, housed, fun e he => ?_, fun c hc => ?_, fun e he => ?_, ?_, ?_,
    fun c hc e he hpair => ?_, fun pair hpair => hknows (hh.saw pair hpair)⟩
  · rw [huri]
    exact hh.named e (hnext ▸ he)
  · rw [hkind]
    exact hh.performer c (hjoined c hc)
  · rw [hnext]
    exact hh.queued e (hqueued e he)
  · rw [hnext]
    exact hh.awaitedOld
  · rw [hnext]
    exact hh.shownOld
  · rcases hh.expects c (hjoined c hc) e (hnext ▸ he) hpair with hwaiting | hknown
    · exact (hannounced e hwaiting).imp_right fun hall => hall c hc
    · exact Or.inr (hknows hknown)

theorem arrivals_standing (hk : Standing h k) : arrivals k = arrivals h := by
  obtain ⟨leaving, hevents, hleaving⟩ := hk.hierarchyEvents
  unfold arrivals
  rw [hevents, List.filterMap_append]
  have hnone : leaving.filterMap arrivingEntity = [] := by
    refine List.filterMap_eq_nil_iff.mpr fun event hevent => ?_
    have hleaves := hleaving event hevent
    cases event
    case entityLeaving | factoryLeaving | performerLeaving => rfl
    all_goals exact hleaves.elim
  rw [hnone, List.append_nil]

theorem housed_standing (housed : Housed h) (hk : Standing h k) : Housed k := by
  intro path e hfind
  rw [hk.proxies]
  exact housed path e (hk.findEntity_eq path ▸ hfind)

theorem standing (hh : Informs h awaited shown) (hk : Standing h k) :
    Informs k awaited shown := by
  have hsame := SameClients.of_standing hk
  have hqueue := arrivals_standing hk
  exact hh.mono (hh.sound.standing hk) (housed_standing hh.housed hk) hk.next
    (hk.field Entity.uri fun _ => rfl) (hk.field Entity.entityType fun _ => rfl)
    (fun c hc => hsame.mem_joined.mp hc) hsame.endpoint (fun e he => hqueue ▸ he)
    (fun e he => Or.inl (hqueue ▸ he)) hk.sent

theorem subscribe (hh : Informs h awaited shown) (output input : EntityId) :
    Informs (ZstStageSession.subscribe h output input) awaited shown := by
  have hsame := SameClients.subscribe h output input
  have hkind : ∀ e, ((ZstStageSession.subscribe h output input).entities e).entityType =
      (h.entities e).entityType := fun e => by
    unfold ZstStageSession.subscribe
    rw [modify_entities]
    split
    · rename_i heq
      rw [heq]
      rfl
    · rfl
  refine hh.mono (hh.sound.subscribe output input) ?_ rfl (FindsOwned.subscribe_uri h output input)
    hkind (fun c hc => hsame.mem_joined.mp hc) hsame.endpoint (fun _ he => he)
    (fun _ he => Or.inl he) (List.prefix_refl _)
  intro path e hfind
  rw [(hh.sound.subscribe output input).findEntity_eq] at hfind
  exact hh.housed path e ((hh.sound.findEntity_eq path).trans hfind)

theorem forgets (hh : Informs h awaited shown) (path : ZstURI) :
    Informs (h.removeEntityFromLookup path) awaited shown := by
  refine hh.mono (hh.sound.forgets path) (fun q e hfind => ?_) rfl (fun _ => rfl) (fun _ => rfl)
    (fun _ hc => hc) (fun _ => rfl) (fun _ he => he) (fun _ he => Or.inl he) (List.prefix_refl _)
  rw [(hh.sound.forgets path).findEntity_eq] at hfind
  simp only [removeEntityFromLookup, Function.update_apply] at hfind
  split at hfind
  · cases hfind
  · exact hh.housed q e ((hh.sound.findEntity_eq q).trans hfind)

theorem endpointOf_bury (h : ZstHierarchy) (e c : EntityId) :
    endpointOf (h.bury e) c = endpointOf h c := by
  unfold endpointOf
  rw [FindsOwned.bury_entities]
  split
  · rename_i hce
    rw [hce]
  · rfl

theorem joined_of_bury {e c : EntityId} (hc : c ∈ joined (h.bury e)) : c ∈ joined h := by
  obtain ⟨hproxy, hclient⟩ := mem_joined_iff.mp hc
  rw [endpointOf_bury] at hclient
  exact mem_joined_iff.mpr ⟨List.mem_of_mem_erase hproxy, hclient⟩

theorem buries (hh : Informs h awaited shown) (e : EntityId) :
    Informs (h.bury e) awaited shown := by
  have huri : ∀ d, ((h.bury e).entities d).uri = (h.entities d).uri := fun d => by
    rw [FindsOwned.bury_entities]
    split
    · rename_i hde
      rw [hde]
    · rfl
  have hkind : ∀ d, ((h.bury e).entities d).entityType = (h.entities d).entityType := fun d => by
    rw [FindsOwned.bury_entities]
    split
    · rename_i hde
      rw [hde]
    · rfl
  refine hh.mono (hh.sound.buries e) (fun q d hfind => ?_) rfl huri hkind
    (fun _ hc => joined_of_bury hc) (endpointOf_bury h e) (fun _ he => he) (fun _ he => Or.inl he) (List.prefix_refl _)
  · rw [(hh.sound.buries e).findEntity_eq] at hfind
    simp only [bury, Function.update_apply] at hfind
    split at hfind
    · cases hfind
    · rename_i hpath
      have hfound := (hh.sound.findEntity_eq q).trans hfind
      have hne : d ≠ e := fun heq => by
        rw [← hh.sound.keyed.uri q d hfound, heq] at hpath
        exact hpath rfl
      exact (List.mem_erase_of_ne hne).mpr (hh.housed q d hfound)

/-- Who arrives waits for the event loop, and who joins awaits those who wait
already. -/
theorem arrives (hh : Informs h awaited shown) {x : Entity} (sound : FindsOwned (h.arrive x))
    (hnew : h.findEntity x.uri = none) (huri : x.uri ≠ []) (hkind : x.entityType ≠ .none)
    (hperformer : x.stageProxy.isSome = true → x.entityType = .performer)
    {more : List (EntityId × EntityId)}
    (hmore : ∀ pair ∈ more, pair.1 = h.next ∧ pair.2 ∈ arrivals h) :
    Informs (h.arrive x) (awaited ++ more) shown := by
  have harrivals : ∀ e, e ∈ arrivals (h.arrive x) ↔ e ∈ arrivals h ∨ e = h.next := by
    intro e
    have hevents : (h.arrive x).hierarchyEvents =
        h.hierarchyEvents ++ arrivedEvent h.next x.entityType := rfl
    have hself : (arrivedEvent h.next x.entityType).filterMap arrivingEntity = [h.next] := by
      cases htype : x.entityType
      case none => exact absurd htype hkind
      all_goals rfl
    unfold arrivals
    rw [hevents, List.filterMap_append, hself, List.mem_append, List.mem_singleton]
  have hendpoint : ∀ c, c ≠ h.next → endpointOf (h.arrive x) c = endpointOf h c := fun c hc => by
    unfold endpointOf
    rw [arrive_stageProxy hc]
  have hjoined : ∀ c ∈ joined (h.arrive x), c ≠ h.next → c ∈ joined h := by
    intro c hc hne
    obtain ⟨hproxy, hclient⟩ := mem_joined_iff.mp hc
    rw [hendpoint c hne] at hclient
    rcases List.mem_append.mp hproxy with hproxy | hproxy
    · exact mem_joined_iff.mpr ⟨hproxy, hclient⟩
    · exact absurd (List.mem_singleton.mp hproxy) hne
  have hknows : ∀ {c e}, c < h.next → e < h.next → KnowsEntity h c e →
      KnowsEntity (h.arrive x) c e :=
    fun {c e} hc he hknown => hknown.mono (arrive_uri (Nat.ne_of_lt hc))
      (arrive_uri (Nat.ne_of_lt he)) (hendpoint c (Nat.ne_of_lt hc)) (List.prefix_refl _)
  refine ⟨sound, fun path e hfind => ?_, fun e he => ?_, fun c hc => ?_, fun e he => ?_,
    fun pair hpair => ?_, fun pair hpair => ?_, fun c hc e he hpair => ?_, fun pair hpair => ?_⟩
  · rw [hh.sound.keyed.findEntity_arrive hnew] at hfind
    split at hfind
    · rw [← Option.some.inj hfind]
      exact List.mem_append_right _ (List.mem_singleton_self _)
    · exact List.mem_append_left _ (hh.housed path e hfind)
  · by_cases hne : e = h.next
    · rw [hne, arrive_uri_next]
      exact huri
    · rw [arrive_uri hne]
      exact hh.named e (Nat.lt_of_le_of_ne (Nat.le_of_lt_succ he) hne)
  · by_cases hne : c = h.next
    · subst hne
      rw [arrive_kind_next]
      have hclient := (mem_joined.mp hc).2
      rw [arrive_stageProxy_next] at hclient
      exact hperformer hclient
    · rw [arrive_kind h x hne]
      exact hh.performer c (hjoined c hc hne)
  · rcases (harrivals e).mp he with he | rfl
    · exact Nat.lt_succ_of_lt (hh.queued e he)
    · exact Nat.lt_succ_self h.next
  · rcases List.mem_append.mp hpair with hpair | hpair
    · exact (hh.awaitedOld pair hpair).imp Nat.lt_succ_of_lt Nat.lt_succ_of_lt
    · obtain ⟨hclient, hwaiting⟩ := hmore pair hpair
      exact ⟨hclient ▸ Nat.lt_succ_self h.next, Nat.lt_succ_of_lt (hh.queued _ hwaiting)⟩
  · exact (hh.shownOld pair hpair).imp Nat.lt_succ_of_lt Nat.lt_succ_of_lt
  · rw [harrivals]
    by_cases heNext : e = h.next
    · exact Or.inl (Or.inr heNext)
    have heOld : e < h.next := Nat.lt_of_le_of_ne (Nat.le_of_lt_succ he) heNext
    by_cases hcNext : c = h.next
    · -- nobody is younger than who arrives, and no old pair mentions it
      subst hcNext
      rcases hpair with hlt | hpair
      · exact absurd heOld (Nat.lt_asymm hlt)
      · rcases List.mem_append.mp hpair with hpair | hpair
        · exact absurd (hh.awaitedOld _ hpair).1 (Nat.lt_irrefl _)
        · exact Or.inl (Or.inl (hmore _ hpair).2)
    · have hc := hjoined c hc hcNext
      have hcOld := hh.sound.owned.allocated c (mem_joined.mp hc).1
      have hold : c < e ∨ (c, e) ∈ awaited := hpair.imp_right fun hpair => by
        rcases List.mem_append.mp hpair with hpair | hpair
        · exact hpair
        · exact absurd (hmore _ hpair).1 hcNext
      rcases hh.expects c hc e heOld hold with hwaiting | hknown
      · exact Or.inl (Or.inl hwaiting)
      · exact Or.inr (hknows hcOld heOld hknown)
  · obtain ⟨hcOld, heOld⟩ := hh.shownOld pair hpair
    exact hknows hcOld heOld (hh.saw pair hpair)

/-- The owner of a path is found at its first segment. -/
theorem contains_first {u : ZstURI} (hu : u ≠ []) (hfirst : u.first ≠ []) :
    u.contains u.first = true := by
  obtain ⟨s, rest, rfl⟩ := List.exists_cons_of_ne_nil hu
  have htake : ZstURI.first (s :: rest) = [s] := by
    unfold ZstURI.first ZstURI.ofSegments at hfirst ⊢
    split at hfirst
    · exact absurd rfl hfirst
    · rename_i hne
      rw [if_neg hne]
      rfl
  rw [htake]
  simp [ZstURI.contains, List.isPrefixOf]

/-- The broadcast of an arrival reaches every client but the entity's own. -/
theorem knows_arrived (sound : FindsOwned h) {e c : EntityId} (hnamed : (h.entities e).uri ≠ [])
    (hc : c ∈ joined h) (hperformer : (h.entities c).entityType = .performer) :
    KnowsEntity (onEntityArriving h e) c e := by
  have hstanding := Standing.onEntityArriving h e
  have huri := hstanding.field Entity.uri fun _ => rfl
  have hsame := SameClients.of_standing hstanding
  obtain ⟨hproxy, endpoint, hendpoint⟩ := mem_joined_iff.mp hc
  unfold KnowsEntity
  rw [huri, huri, hsame.endpoint]
  by_cases hown : findStageProxy h (h.entities e).uri.first = some c
  · left
    have hfound := (Option.filter_eq_some_iff.mp hown).1
    rw [sound.keyed.uri _ c hfound]
    refine contains_first hnamed fun hempty => ?_
    rw [hempty, sound.keyed.nowhere] at hfound
    cases hfound
  · refine Or.inr ⟨endpoint, hendpoint, ?_⟩
    obtain ⟨proxy, hstage, rfl⟩ := Option.map_eq_some_iff.mp hendpoint
    unfold onEntityArriving
    simp only
    rw [if_neg hnamed, broadcast_eq]
    refine ⟨{ target := proxy.originEndpointUUID
              content := .entityCreateRequest (h.entities e).serialize }, ?_, rfl, rfl⟩
    refine List.mem_append_right _ (List.mem_flatMap.mpr ⟨c, ?_, ?_⟩)
    · exact List.mem_filter.mpr ⟨hproxy, by simp [hperformer]⟩
    · rw [if_neg fun heq => hown heq.symm]
      exact mem_whisperMessages.mpr ⟨proxy, hstage, rfl⟩

end Informs

/-! ## The event loop -/

/-- The event of an arrival is announced. -/
theorem processHierarchyEvent_arriving {s t : ZstSession} {event : HierarchyEvent} {e : EntityId}
    (harriving : arrivingEntity event = some e) (hrun : processHierarchyEvent s event = .ok t) :
    Standing (onEntityArriving s.hierarchy e) t.hierarchy := by
  unfold arrivingEntity at harriving
  split at harriving
  case h_4 => cases harriving
  case h_2 =>
    obtain rfl := Option.some.inj harriving
    obtain ⟨d, hderef, hrun⟩ := Library.bind_ok.mp hrun
    obtain rfl := Option.some.inj (deref_ok hderef)
    obtain rfl := Except.ok.inj hrun
    exact .refl _
  all_goals
    obtain rfl := Option.some.inj harriving
    obtain ⟨d, hderef, hrun⟩ := Library.bind_ok.mp hrun
    obtain rfl := Option.some.inj (deref_ok hderef)
    obtain rfl := Except.ok.inj hrun
    exact Standing.registerEntity (onHierarchy s fun h => onEntityArriving h _) _

/-- The event loop takes the oldest event. -/
theorem Informs.hierarchyEvent {s t : ZstSession} {awaited shown : List (EntityId × EntityId)}
    (hs : Informs s.hierarchy awaited shown) (hrun : step s .hierarchyEvent = .ok t) :
    Informs t.hierarchy awaited shown := by
  simp only [ZstStage.step] at hrun
  split at hrun
  · obtain rfl := Except.ok.inj hrun
    exact hs
  rename_i event rest hevents
  have hstanding := Standing.processHierarchyEvent hrun
  have hqueue : arrivals t.hierarchy = rest.filterMap arrivingEntity :=
    arrivals_standing hstanding
  have hsame := SameClients.of_standing hstanding
  have hold : arrivals s.hierarchy =
      (arrivingEntity event).toList ++ rest.filterMap arrivingEntity := by
    unfold arrivals
    rw [hevents, List.filterMap_cons]
    cases arrivingEntity event <;> rfl
  refine hs.mono ((hs.sound.dequeues rest).standing hstanding) ?_ hstanding.next
    (hstanding.field Entity.uri fun _ => rfl) (hstanding.field Entity.entityType fun _ => rfl)
    (fun c hc => hsame.mem_joined.mp hc) hsame.endpoint (fun e he => ?_) (fun e he => ?_)
    hstanding.sent
  · refine housed_standing (fun path e hfind => ?_) hstanding
    exact hs.housed path e hfind
  · rw [hold]
    exact List.mem_append_right _ (hqueue ▸ he)
  · have heNext := hs.queued e he
    rw [hold] at he
    rcases List.mem_append.mp he with he | he
    · right
      intro c hc
      have hc := hsame.mem_joined.mp hc
      have hannounced := processHierarchyEvent_arriving (Option.mem_toList.mp he) hrun
      have huri := hannounced.field Entity.uri fun _ => rfl
      refine KnowsEntity.mono ?_ (huri c) (huri e) ((SameClients.of_standing hannounced).endpoint c)
        hannounced.sent
      exact knows_arrived (hs.sound.dequeues rest) (hs.named e heNext) hc (hs.performer c hc)
    · exact Or.inl (hqueue ▸ he)

/-! ## The snapshot -/

/-- Whom `get_child_entities` lists was found. -/
theorem found_of_mem_descendants {h : ZstHierarchy} (n : Nat) {e d : EntityId}
    (hd : d ∈ h.descendants n e) : d = e ∨ ∃ path, h.findEntity path = some d := by
  induction n generalizing e with
  | zero => exact Or.inl (List.mem_singleton.mp hd)
  | succ n ih =>
    rcases List.mem_cons.mp hd with rfl | hd
    · exact Or.inl rfl
    · obtain ⟨c, hc, hd⟩ := List.mem_flatMap.mp hd
      rcases ih hd with rfl | hfound
      · unfold childEntities at hc
        split at hc
        · obtain ⟨path, -, hpath⟩ := List.mem_filterMap.mp hc
          unfold getChildByURI at hpath
          split at hpath
          · exact Or.inr ⟨path, hpath⟩
          · cases hpath
        · cases hc
      · exact Or.inr hfound

theorem allocated_of_mem_published {h : ZstHierarchy} (sound : FindsOwned h) {c e : EntityId}
    (he : e ∈ Snapshot.published h c) : e < h.next := by
  obtain ⟨q, hq, he⟩ := List.mem_flatMap.mp he
  have hperformer := List.mem_of_mem_filter (List.mem_of_mem_filter hq)
  rcases found_of_mem_descendants _ he with rfl | ⟨path, hfound⟩
  · exact sound.owned.allocated _ hperformer
  · exact sound.keyed.allocated path e hfound

theorem awaits_eq_nil {s t : ZstSession}
    (hjoined : ∀ c ∈ joined t.hierarchy, c ∈ joined s.hierarchy) : awaits s t = [] := by
  have hnobody : ((joined t.hierarchy).filter fun c => c ∉ joined s.hierarchy) = [] := by
    refine List.filter_eq_nil_iff.mpr fun c hc => ?_
    simp [hjoined c hc]
  unfold awaits
  rw [hnobody]
  rfl

/-- The snapshot informs the client that asked for it. -/
theorem Informs.shows {s t : ZstSession} {awaited shown : List (EntityId × EntityId)}
    {event : StageEvent} {c : EntityId} (hs : Informs s.hierarchy awaited shown)
    (hsync : syncer s event = some c) (hrun : step s event = .ok t) :
    Informs t.hierarchy (awaited ++ awaits s t) (shown ++ shows s event) := by
  obtain ⟨creates, late, hsent, -, -, hshows⟩ := step_sends hs.sound hs.housed hrun
  obtain ⟨msg, rfl, hcontent, hclient⟩ := syncer_eq_some hsync
  have hstanding : Standing s.hierarchy t.hierarchy :=
    receive_calm (by rw [hcontent]; trivial) hrun
  have hsame := SameClients.of_standing hstanding
  have huri := hstanding.field Entity.uri fun _ => rfl
  have hcNext : c < s.hierarchy.next :=
    hs.sound.owned.allocated c (List.mem_of_mem_filter (List.mem_of_find?_eq_some hclient))
  rw [awaits_eq_nil fun c hc => hsame.mem_joined.mp hc, List.append_nil]
  have ht := hs.standing hstanding
  refine { ht with shownOld := fun pair hpair => ?_, saw := fun pair hpair => ?_ }
  · rcases List.mem_append.mp hpair with hpair | hpair
    · exact ht.shownOld pair hpair
    · unfold Introductions.shows at hpair
      rw [hsync] at hpair
      obtain ⟨e, he, rfl⟩ := List.mem_map.mp hpair
      rw [hstanding.next]
      exact ⟨hcNext, allocated_of_mem_published hs.sound he⟩
  · rcases List.mem_append.mp hpair with hpair | hpair
    · exact ht.saw pair hpair
    · obtain ⟨endpoint, hendpoint, htold⟩ := hshows pair hpair
      refine Or.inr ⟨endpoint, hsame.endpoint _ ▸ hendpoint, ?_⟩
      rw [huri, hsent, List.append_assoc]
      obtain ⟨m, hm, hcreate⟩ := htold
      exact ⟨m, List.mem_append_right _ (List.mem_append_left _ hm), hcreate⟩

/-- Who arrives in a step joins whom it awaits. -/
theorem mem_awaits_arrive {s t : ZstSession} {x : Entity}
    (hk : Standing (s.hierarchy.arrive x) t.hierarchy) {pair : EntityId × EntityId}
    (hpair : pair ∈ awaits s t) :
    pair.1 = s.hierarchy.next ∧ pair.2 ∈ arrivals s.hierarchy := by
  obtain ⟨c, hc, hpair⟩ := List.mem_flatMap.mp hpair
  obtain ⟨e, he, rfl⟩ := List.mem_map.mp hpair
  obtain ⟨hc, hnew⟩ := List.mem_filter.mp hc
  refine ⟨?_, he⟩
  by_contra hne
  have hc := (SameClients.of_standing hk).mem_joined.mp hc
  obtain ⟨hproxy, hclient⟩ := mem_joined_iff.mp hc
  have hendpoint : endpointOf (s.hierarchy.arrive x) c = endpointOf s.hierarchy c := by
    unfold endpointOf
    rw [arrive_stageProxy hne]
  rw [hendpoint] at hclient
  rcases List.mem_append.mp hproxy with hproxy | hproxy
  · simp [mem_joined_iff.mpr ⟨hproxy, hclient⟩] at hnew
  · exact hne (List.mem_singleton.mp hproxy)

/-- A request for an entity names its kind. -/
theorem create_kind {s t : ZstSession} {msg : ZstStageMessage} {buffer : EntityBuffer}
    (hcontent : msg.content = .entityCreateRequest buffer) (hrun : receive s msg = .ok t) :
    buffer.entityType ≠ .none := by
  have hcalm : ¬ EntityPreserving msg.content := by
    rw [hcontent]
    exact id
  obtain ⟨l, response, hdispatch, -⟩ := receive_not_calm hcalm hrun
  unfold ZstStageHierarchy.dispatch createEntityHandler getEntityField at hdispatch
  rw [hcontent] at hdispatch
  intro hkind
  simp only [hkind, if_true, bind, Except.bind] at hdispatch
  cases hdispatch

/-! ## Whole runs -/

section Runs

variable {w v : WatchedArrivals} {event : StageEvent}

/-- Every step of a settled stage keeps the clients informed. -/
theorem Informs.step {s t : ZstSession} {awaited shown : List (EntityId × EntityId)}
    (hs : Informs s.hierarchy awaited shown) (hsettled : KeepsPlaces s event)
    (hrun : ZstStage.step s event = .ok t) :
    Informs t.hierarchy (awaited ++ awaits s t) (shown ++ Introductions.shows s event) := by
  cases hsync : syncer s event with
  | some c => exact hs.shows hsync hrun
  | none =>
    have hshows : Introductions.shows s event = [] := by
      unfold Introductions.shows
      rw [hsync]
    rw [hshows, List.append_nil]
    have hnobody : (∀ c ∈ joined t.hierarchy, c ∈ joined s.hierarchy) →
        Informs t.hierarchy awaited shown →
        Informs t.hierarchy (awaited ++ awaits s t) shown := fun hjoined ht => by
      rw [awaits_eq_nil hjoined, List.append_nil]
      exact ht
    cases step_change hsettled hrun with
    | stands hk =>
      exact hnobody (fun c hc => (SameClients.of_standing hk).mem_joined.mp hc) (hs.standing hk)
    | dequeues events hevent hk =>
      subst hevent
      exact hnobody (fun c hc => (SameClients.of_standing hk).mem_joined.mp hc)
        (hs.hierarchyEvent hrun)
    | connects _ _ output input _ _ _ _ _ _ hk =>
      refine hnobody (fun c hc => ?_) ((hs.subscribe output input).standing hk)
      exact (SameClients.subscribe _ output input).mem_joined.mp
        ((SameClients.of_standing hk).mem_joined.mp hc)
    | joins msg performer address l hevent hcontent hfind hadd hk =>
      subst hevent
      simp only [KeepsPlaces, hcontent] at hsettled
      obtain ⟨rfl, hl⟩ := hs.sound.arrive (unplaced_performerStageProxy _ _ _) hsettled hfind hadd
      refine (hs.arrives hl hfind hsettled ?_ (fun _ => rfl) fun pair hpair =>
        mem_awaits_arrive hk hpair).standing hk
      rintro ⟨⟩
    | creates msg buffer l hevent hcontent hfind huri hadd hk =>
      subst hevent
      obtain ⟨rfl, hl⟩ := hs.sound.arrive (unplaced_unpack buffer) huri hfind hadd
      refine (hs.arrives hl hfind huri (create_kind hcontent hrun) ?_ fun pair hpair =>
        mem_awaits_arrive hk hpair).standing hk
      rintro ⟨⟩
    | forgets path hk =>
      refine hnobody (fun c hc => ?_) ((hs.forgets path).standing hk)
      exact (SameClients.of_standing hk).mem_joined.mp hc
    | buries e _ hk =>
      refine hnobody (fun c hc => ?_) ((hs.buries e).standing hk)
      exact Informs.joined_of_bury ((SameClients.of_standing hk).mem_joined.mp hc)

/-- Whom a step introduces knew the entity, or hears of it in the same step. -/
theorem introduces (hw : Informs w.session.hierarchy w.awaited w.shown)
    (hacquainted : Acquainted w event) : Introduces w event := by
  intro t hrun before m after hsplit hlength path hpath
  obtain ⟨creates, late, hsent, hcreates, hlate, hshows⟩ :=
    step_sends hw.sound hw.housed hrun
  rw [hsent] at hsplit
  have hnamed : ¬ NamesNobody m := fun hnameless => by
    rw [hnameless] at hpath
    cases hpath
  obtain ⟨hearly, hm⟩ := late_of_named hsplit hlength hcreates hnamed
  have hold : w.session.hierarchy.sent <+: before := (List.prefix_append _ _).trans hearly
  obtain ⟨c, hc, hmention, hendpoint⟩ := hlate m hm path hpath
  rcases hacquainted _ hmention with hown | ⟨e, hfind, hknown⟩
  · exact Or.inl ⟨c, hc, hendpoint, hown⟩
  have huri := hw.sound.keyed.uri path e hfind
  have hknows : Introduced w c e → Belongs w.session.hierarchy m.target path ∨
      ToldOf before m.target path := fun hintroduced => by
    have hknows : KnowsEntity w.session.hierarchy c e := by
      rcases hintroduced with ⟨hpair, hdone⟩ | hshown
      · exact (hw.expects c hc e (hw.sound.keyed.allocated path e hfind) hpair).resolve_left hdone
      · exact hw.saw _ hshown
    unfold KnowsEntity at hknows
    rw [huri] at hknows
    rcases hknows with hown | ⟨endpoint, hat, htold⟩
    · exact Or.inl ⟨c, hc, hendpoint, hown⟩
    · obtain rfl := Option.some.inj (hat.symm.trans hendpoint)
      exact Or.inr (htold.mono hold)
  rcases hknown with hintroduced | hshown
  · exact hknows hintroduced
  · obtain ⟨endpoint, hat, m', hm', htarget, hcreate⟩ := hshows _ hshown
    obtain rfl := Option.some.inj (hat.symm.trans hendpoint)
    rw [huri] at hcreate
    exact Or.inr ⟨m', hearly.subset (List.mem_append_right _ hm'), htarget, hcreate⟩

/-- While the stage is settled and whoever a step names was introduced, the
entities that a message names come first on its receiver's channel. -/
theorem introduced_first (events : List StageEvent)
    (hcondition : Library.Along watch
      (fun w event => KeepsPlaces w.session event ∧ Acquainted w event)
      { session := opened } events) :
    Library.Along watch Introduces { session := opened } events := by
  refine Library.along_of_invariant
    (fun (w : WatchedArrivals) => Informs w.session.hierarchy w.awaited w.shown)
    (fun w event v hw hmet hrun => ?_) (fun w event hw hmet => introduces hw hmet.2)
    informs_opened hcondition
  obtain ⟨t, hstep, hrun⟩ := Library.bind_ok.mp hrun
  obtain rfl := Except.ok.inj hrun
  exact hw.step hmet.1 hstep

/-- The event loop announces `ada` and `bob` before `bob` observes `ada`. -/
def greeted : List StageEvent :=
  [joining "ada" 1, joining "bob" 2, .hierarchyEvent, .hierarchyEvent, observing "ada" 2]

theorem introduced_first_greeted :
    (∃ w, Library.run watch { session := opened } greeted = .ok w ∧
      ∃ m ∈ w.session.hierarchy.sent, m.target = 1 ∧ names m.content = [["bob"]]) ∧
    Library.Along watch Introduces { session := opened } greeted :=
  ⟨⟨_, rfl, by decide⟩, introduced_first greeted (by decide)⟩

/-- The observer `bob` is quicker than the event loop. -/
def hasty : List StageEvent :=
  [joining "ada" 1, joining "bob" 2, observing "ada" 2]

/-- The client `ada` is asked to start a handshake with a `bob` it never heard of. -/
theorem hasty_not_introduced :
    ¬ ∀ events : List StageEvent,
      Library.Along watch (fun w event => KeepsPlaces w.session event)
        { session := opened } events →
      Library.Along watch Introduces { session := opened } events := by
  intro hall
  have hrun : Library.Along watch Introduces { session := opened }
      ([joining "ada" 1, joining "bob" 2] ++ observing "ada" 2 :: []) := hall hasty (by decide)
  obtain ⟨w, hw, t, hstep, before, m, hsent, hlength, hnames, hbelongs, htold⟩ :
      ∃ w, Library.run watch { session := opened } [joining "ada" 1, joining "bob" 2] = .ok w ∧
      ∃ t, step w.session (observing "ada" 2) = .ok t ∧ ∃ before m,
        t.hierarchy.sent = before ++ m :: [] ∧
        w.session.hierarchy.sent.length ≤ before.length ∧ ["bob"] ∈ names m.content ∧
        ¬ Belongs w.session.hierarchy m.target ["bob"] ∧ ¬ ToldOf before m.target ["bob"] :=
    ⟨_, rfl, _, rfl,
      [{ target := 1, content := .signalMessage .ok, msgID := some 0 },
        { target := 2, content := .signalMessage .ok, msgID := some 0 },
        { target := 2
          content := .clientGraphHandshakeListen ["ada"] ""
          onRecvResponse := some (.clientsConnected 0 1 (.observe 1 0)) }],
      { target := 1, content := .clientGraphHandshakeStart ["bob"] "" },
      rfl, by decide, by decide, by decide, by decide⟩
  rcases Library.along_append_cons hrun hw t hstep before m [] hsent hlength ["bob"] hnames with
    hown | hcreated
  · exact hbelongs hown
  · exact htold hcreated

end Runs

end Showtime.Introductions
