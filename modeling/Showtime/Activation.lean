import Showtime.Rejoin
/-!
# Activating a subtree

`activate_entity` sends one request for every entity of a subtree and gives all
of them the same callback, which completes the activation of the whole subtree.
So with two entities or more, a single OK reply activates those whose own
request failed, and each further one activates everybody again.
-/

namespace Showtime.Activation

open ZstHierarchy ZstClientHierarchy ZstClient Rejoin

/-! ## What a drain activates -/

section Log

variable (v : Overrides)

/-- The activated events that `processOwnEvents` runs, each by its entity. -/
def ownActivations : Nat → ZstHierarchy → EntityId → List EntityId
  | 0, _, _ => []
  | fuel + 1, h, e =>
    match (h.entities e).synchronisableEvents with
    | [] => []
    | event :: rest =>
      let h := h.modify e fun x => { x with synchronisableEvents := rest }
      (if event = .activated then [e] else []) ++
        ownActivations fuel (processEvent v h e event) e

/-- The activated events that `processItem` runs. -/
def itemActivations (h : ZstHierarchy) (e : EntityId) : List EntityId :=
  if e ∈ h.deadIDs then []
  else
    let h := { h with freedAccess := h.freedAccess || !h.live e }
    ownActivations v (h.entities e).synchronisableEvents.length h e

/-- The activated events that `processItems` runs. -/
def queueActivations : Nat → ZstHierarchy → List EntityId
  | 0, _ => []
  | fuel + 1, h =>
    match h.synchronisableEvents with
    | [] => []
    | e :: rest =>
      let h := { h with synchronisableEvents := rest }
      itemActivations v h e ++ queueActivations fuel (processItem v h e)

/-- The activated events of the module's queue that `processEvents` runs. -/
def drainActivations (fuel : Nat) (h : ZstHierarchy) : List EntityId :=
  let h := h.hierarchyEvents.foldl processHierarchyEvent { h with hierarchyEvents := [] }
  queueActivations v (h.synchronisableEvents.length + fuel) h

end Log

/-! ## One attempt to activate an entity -/

/-- What happens to the requests of `activate_entity`: one is sent, one is
answered (or times out), or the client drains its events. -/
inductive AttemptEvent
  | send (entity : EntityId)
  | respond (entity : EntityId) (response : Option Content)
  | drain
  deriving DecidableEq, Repr

structure Attempt where
  hierarchy : ZstHierarchy
  /-- The activated events that ran, each by its entity. -/
  activations : List EntityId := []
  /-- How often the caller's callback ran. -/
  callbacks : Nat := 0

section Attempt

variable (v : Overrides) (link : StageLink) (fuel : Nat) (behaviour : SendBehaviour)

/-- The request for one entity of the subtree. A synchronous one is waited for
at once, so that the transport keeps no callback for it. -/
def sendRequest (h : ZstHierarchy) (e c : EntityId) : ZstHierarchy :=
  publish link h
    { target := 0
      content := .entityCreateRequest (h.entities c).serialize
      onRecvResponse :=
        if behaviour = .syncReply then none else some (.entityActivated e none) }

/-- A step of the attempt to activate `e`. The callback is the same for every
request of the subtree. -/
def step (e : EntityId) (a : Attempt) : AttemptEvent → Attempt
  | .send c => { a with hierarchy := sendRequest link behaviour a.hierarchy e c }
  | .respond _ response =>
    { a with
      hierarchy := onRecvResponse v link a.hierarchy (.entityActivated e none) response
      callbacks := a.callbacks + if verifySignal response .ok then 1 else 0 }
  | .drain =>
    { a with
      hierarchy := processEvents v fuel a.hierarchy
      activations := a.activations ++ drainActivations v fuel a.hierarchy }

/-- The attempt after `activate_entity` has registered the entity. -/
def start (h : ZstHierarchy) (e : EntityId) : Attempt :=
  { hierarchy := h.registerEntity e }

def attempt (h : ZstHierarchy) (e : EntityId) (events : List AttemptEvent) : Attempt :=
  events.foldl (step v link fuel behaviour e) (start h e)

/-- The responses, each with the entity whose request it answers. -/
def responses (events : List AttemptEvent) : List (EntityId × Option Content) :=
  events.filterMap fun
    | .respond c response => some (c, response)
    | _ => none

/-- The requests that were sent, each by its entity. -/
def requests (events : List AttemptEvent) : List EntityId :=
  events.filterMap fun
    | .send c => some c
    | _ => none

end Attempt

/-! ## Completing the activation of a subtree -/

section Complete

variable {h k : ZstHierarchy}

theorem onEntityArriving_own (k : ZstHierarchy) (e d : EntityId) :
    ((ZstClientHierarchy.onEntityArriving k e).entities d).synchronisableEvents =
      (k.entities d).synchronisableEvents := by
  have hmodify : ∀ (l : ZstHierarchy) (c : EntityId) (f : Entity → Entity),
      (∀ x, (f x).synchronisableEvents = x.synchronisableEvents) →
      ((l.modify c f).entities d).synchronisableEvents =
        (l.entities d).synchronisableEvents := by
    intro l c f hf
    rw [modify_entities]
    split
    · rename_i hdc
      rw [hf, hdc]
    · rfl
  have hsession : ((registerSession k e).entities d).synchronisableEvents =
      (k.entities d).synchronisableEvents := by
    refine List.foldlRecOn (motive := fun (l : ZstHierarchy) =>
      (l.entities d).synchronisableEvents = (k.entities d).synchronisableEvents) _ _ rfl ?_
    intro l hl c _
    exact (hmodify l c (fun x => { x with sessionAdaptor := true }) fun _ => rfl).trans hl
  refine List.foldlRecOn (motive := fun (l : ZstHierarchy) =>
    (l.entities d).synchronisableEvents = (k.entities d).synchronisableEvents) _ _ hsession ?_
  intro l hl c _
  unfold initArrivingPlug
  split
  · exact (hmodify l c (fun x => { x with canFire := true }) fun _ => rfl).trans hl
  · exact hl

/-- Waking every entity of a list once queues one activation for each. -/
theorem foldl_wake_own (items : List EntityId) (hnodup : items.Nodup) (hk : Waking h k)
    (hregistered : ∀ c ∈ items, (h.entities c).registered = true) (d : EntityId) :
    ((items.foldl ZstClient.wake k).entities d).synchronisableEvents =
      (k.entities d).synchronisableEvents ++ if d ∈ items then [.activated] else [] := by
  induction items generalizing k with
  | nil => simp
  | cons c items ih =>
    obtain ⟨hc, hnodup⟩ := List.nodup_cons.mp hnodup
    have hcreg : (k.entities c).registered = true := by
      rw [hk.field Entity.registered fun _ => rfl]
      exact hregistered c List.mem_cons_self
    rw [List.foldl_cons, ih hnodup (hk.wake (hregistered c List.mem_cons_self))
      fun b hb => hregistered b (List.mem_cons_of_mem _ hb), wake_events hcreg]
    by_cases hdc : d = c
    · subst hdc
      simp [hc]
    · simp [hdc]

theorem activateEntityComplete_eq (tree : RegisteredTree h) (hk : Waking h k) {e : EntityId}
    (he : h.InTree e) :
    k.activateEntityComplete e = (h.getChildEntities e).foldl ZstClient.wake k := by
  unfold ZstHierarchy.activateEntityComplete
  rw [hk.getChildEntities_eq]
  have hmem : ∀ c ∈ h.getChildEntities e, h.InTree c := fun c hc =>
    tree.inTree_of_below he (tree.below_of_mem_descendants hc)
  generalize h.getChildEntities e = items at hmem
  induction items generalizing k with
  | nil => rfl
  | cons c items ih =>
    have hc := hmem c List.mem_cons_self
    rw [List.foldl_cons, List.foldl_cons, addEntityToLookup_eq hk hc]
    exact ih (hk.wake (tree.registered hc)) fun b hb => hmem b (List.mem_cons_of_mem _ hb)

/-- One activation more is queued for every entity of the subtree. -/
theorem activateEntityComplete_own (tree : RegisteredTree h) (hk : Waking h k) {e : EntityId}
    (he : h.InTree e) (d : EntityId) :
    ((ZstClientHierarchy.activateEntityComplete k e).entities d).synchronisableEvents =
      (k.entities d).synchronisableEvents ++
        if d ∈ h.getChildEntities e then [.activated] else [] := by
  have hwoken : ((k.activateEntityComplete e).entities d).synchronisableEvents =
      (k.entities d).synchronisableEvents ++
        if d ∈ h.getChildEntities e then [.activated] else [] := by
    rw [activateEntityComplete_eq tree hk he]
    exact foldl_wake_own _ (tree.nodup_getChildEntities he) hk (fun c hc =>
      tree.registered (tree.inTree_of_below he (tree.below_of_mem_descendants hc))) d
  rw [← hwoken]
  refine List.foldlRecOn (motive := fun (l : ZstHierarchy) =>
    (l.entities d).synchronisableEvents = ((k.activateEntityComplete e).entities d).synchronisableEvents) _ _ rfl ?_
  intro l hl c _
  exact (onEntityArriving_own l c d).trans hl

end Complete

/-! ## The activations of a drain -/

section Drain

variable {h k : ZstHierarchy} (v : Overrides)

/-- An entity whose own events are all activations runs every one of them. -/
theorem ownActivations_eq (n : Nat) (h : ZstHierarchy) (e : EntityId)
    (hlength : (h.entities e).synchronisableEvents.length = n)
    (hevents : ∀ event ∈ (h.entities e).synchronisableEvents, event = .activated) :
    ownActivations v n h e = List.replicate n e := by
  induction n generalizing h with
  | zero => rfl
  | succ n ih =>
    obtain ⟨event, rest, hown⟩ := List.exists_cons_of_length_eq_add_one hlength
    obtain rfl : event = .activated := hevents event (by simp [hown])
    have hrest : ((processEvent v (h.modify e fun x => { x with synchronisableEvents := rest }) e
        .activated).entities e).synchronisableEvents = rest := by
      simp only [processEvent, setActivationStatus, modify_entities_self, onActivation]
      split <;> rfl
    unfold ownActivations
    rw [hown]
    simp only [if_true]
    rw [ih _ (by rw [hrest]; simpa [hown] using hlength)
      (by
        rw [hrest]
        intro event hevent
        exact hevents event (by simp [hown, hevent]))]
    rfl

/-- An item without events of its own changes no entity. -/
theorem processItem_of_nil {e : EntityId} (hown : (k.entities e).synchronisableEvents = []) :
    (processItem v k e).entities = k.entities := by
  unfold processItem
  split
  · rfl
  · simp only [hown, List.length_nil]
    rfl

/-- The queue runs every activation that is queued. -/
theorem count_queueActivations (fuel : Nat) (hk : Waking h k)
    (hfuel : k.synchronisableEvents.length ≤ fuel) (d : EntityId) :
    (queueActivations v fuel k).count d = (k.entities d).synchronisableEvents.length := by
  induction fuel generalizing k with
  | zero =>
    have hnil := List.length_eq_zero_iff.mp (Nat.le_zero.mp hfuel)
    have hown : (k.entities d).synchronisableEvents = [] := by
      by_contra hne
      have hmem := hk.queued d hne
      rw [hnil] at hmem
      cases hmem
    simp [queueActivations, hown]
  | succ fuel ih =>
    unfold queueActivations
    cases hqueue : k.synchronisableEvents with
    | nil =>
      have hown : (k.entities d).synchronisableEvents = [] := by
        by_contra hne
        have hmem := hk.queued d hne
        rw [hqueue] at hmem
        cases hmem
      simp [hown]
    | cons e rest =>
      obtain ⟨hitem, -, hrest, -⟩ := processItem_waking v hk hqueue
      have hlength : rest.length ≤ fuel := by
        rw [hqueue, List.length_cons] at hfuel
        omega
      obtain ⟨x, heq, -, hdone, -⟩ := processItem_eq v hk e rest
      have hlog : itemActivations v { k with synchronisableEvents := rest } e =
          List.replicate (k.entities e).synchronisableEvents.length e := by
        unfold itemActivations
        rw [if_neg (by rw [hk.deadIDs]; simp)]
        exact ownActivations_eq v _ _ e rfl (hk.events e)
      have hlast := ih hitem (by rw [hrest]; exact hlength)
      simp only [List.count_append, hlog, hlast, List.count_replicate, beq_iff_eq]
      rw [heq]
      change _ + ((k.modify e fun _ => x).entities d).synchronisableEvents.length = _
      rw [modify_entities]
      by_cases hde : d = e
      · subst hde
        simp [hdone]
      · simp [hde, Ne.symm hde]

theorem count_drainActivations (fuel : Nat) (hk : Waking h k) (d : EntityId) :
    (drainActivations v fuel k).count d = (k.entities d).synchronisableEvents.length := by
  have hevents : k.hierarchyEvents.foldl processHierarchyEvent { k with hierarchyEvents := [] } =
      k := by
    rw [hk.hierarchyEvents]
    exact congrArg (fun events => { k with hierarchyEvents := events }) hk.hierarchyEvents.symm
  unfold drainActivations
  rw [hevents]
  exact count_queueActivations v _ hk (Nat.le_add_right _ _) d

/-- An entity without events of its own keeps its status in a drain. -/
theorem processEvents_asleep (fuel : Nat) (hk : Waking h k) {d : EntityId}
    (hown : (k.entities d).synchronisableEvents = []) :
    ((processEvents v fuel k).entities d).syncStatus = (k.entities d).syncStatus := by
  rw [processEvents_eq v fuel hk]
  refine (processItems_rule v (P := fun l => Waking h l ∧
    (l.entities d).synchronisableEvents = [] ∧
    (l.entities d).syncStatus = (k.entities d).syncStatus) ?_ _ ⟨hk, hown, rfl⟩).2.2
  rintro l e rest ⟨hl, hlown, hstatus⟩ hqueue
  obtain ⟨hitem, -, -, -⟩ := processItem_waking v hl hqueue
  have hentity : ((processItem v { l with synchronisableEvents := rest } e).entities d) =
      l.entities d := by
    by_cases hde : d = e
    · subst hde
      rw [processItem_of_nil v (k := { l with synchronisableEvents := rest }) hlown]
    · obtain ⟨x, heq, -⟩ := processItem_eq v hl e rest
      rw [heq]
      exact modify_entities_of_ne l (fun _ => x) hde
  rw [hentity]
  exact ⟨hitem, hlown, hstatus⟩

end Drain

/-! ## The invariant of an attempt -/

/-- Only activations are queued, and none of them for the subtree of `e`. -/
structure Unqueued (h : ZstHierarchy) (e : EntityId) : Prop where
  hierarchyEvents : h.hierarchyEvents = []
  cleanupOps : h.cleanupOps = []
  deadIDs : h.deadIDs = []
  events : ∀ d, ∀ event ∈ (h.entities d).synchronisableEvents, event = .activated
  queued : ∀ d, (h.entities d).synchronisableEvents ≠ [] → d ∈ h.synchronisableEvents
  subtree : ∀ c ∈ h.getChildEntities e, (h.entities c).synchronisableEvents = []

theorem Unqueued.waking {h : ZstHierarchy} {e : EntityId} (unqueued : Unqueued h e) :
    Waking h h :=
  ⟨fun _ => rfl, rfl, rfl, rfl, unqueued.hierarchyEvents, unqueued.cleanupOps, unqueued.deadIDs,
    unqueued.events, unqueued.queued, [], by simp, by simp⟩

/-- After `n` OK replies every entity of the subtree has run or queued as many
activations, whichever requests they answered. -/
structure Replied (h : ZstHierarchy) (e : EntityId) (n : Nat) (a : Attempt) : Prop where
  waking : Waking h a.hierarchy
  callbacks : a.callbacks = n
  activations : ∀ c ∈ h.getChildEntities e,
    a.activations.count c + (a.hierarchy.entities c).synchronisableEvents.length = n
  asleep : n = 0 → ∀ c ∈ h.getChildEntities e,
    (a.hierarchy.entities c).syncStatus = (h.entities c).syncStatus
  awake : 0 < n → ∀ c ∈ h.getChildEntities e, Awake a.hierarchy c

/-- How many of the responses verify as OK. -/
def okReplies (events : List AttemptEvent) : Nat :=
  (responses events).countP fun reply => verifySignal reply.2 .ok

theorem okReplies_cons (event : AttemptEvent) (events : List AttemptEvent) :
    okReplies (event :: events) = okReplies [event] + okReplies events := by
  unfold okReplies responses
  rw [← List.countP_append, ← List.filterMap_append, List.singleton_append]

section Run

variable {h : ZstHierarchy} {e : EntityId} {n : Nat} {a : Attempt} (tree : RegisteredTree h)
  (v : Overrides) (link : StageLink) (fuel : Nat) (behaviour : SendBehaviour)

theorem sendRequest_entities (k : ZstHierarchy) (e c : EntityId) :
    (sendRequest link behaviour k e c).entities = k.entities := by
  unfold sendRequest publish
  split <;> rfl

/-- A drain turns what is queued for the subtree into activations that ran. -/
theorem Replied.drain (replied : Replied h e n a) :
    Replied h e n (step v link fuel behaviour e a .drain) := by
  obtain ⟨hwaking, hprogress, hdrained, -⟩ := processEvents_waking v fuel replied.waking
  refine ⟨hwaking, replied.callbacks, fun c hc => ?_, fun hn c hc => ?_, fun hn c hc => ?_⟩
  · have hcount := replied.activations c hc
    change (a.activations ++ drainActivations v fuel a.hierarchy).count c +
      ((processEvents v fuel a.hierarchy).entities c).synchronisableEvents.length = n
    rw [hdrained.events c, List.count_append, count_drainActivations v fuel replied.waking]
    exact hcount
  · have hcount := replied.activations c hc
    have hown : (a.hierarchy.entities c).synchronisableEvents = [] :=
      List.length_eq_zero_iff.mp (by omega)
    exact (processEvents_asleep v fuel replied.waking hown).trans (replied.asleep hn c hc)
  · exact hprogress.awake c (replied.awake hn c hc)

include tree

theorem replied_start (he : h.InTree e) (unqueued : Unqueued h e) :
    Replied h e 0 (start h e) := by
  have hown : ∀ c, ((h.registerEntity e).entities c).synchronisableEvents =
      (h.entities c).synchronisableEvents ∧
      ((h.registerEntity e).entities c).syncStatus = (h.entities c).syncStatus := by
    intro c
    unfold registerEntity
    rw [addEntityToLookup_eq unqueued.waking he, modify_entities]
    split
    · rename_i hce
      rw [hce]
      exact ⟨rfl, rfl⟩
    · exact ⟨rfl, rfl⟩
  refine ⟨registerEntity_waking tree unqueued.waking he, rfl, fun c hc => ?_,
    fun _ c _ => (hown c).2, fun hn => absurd hn (Nat.lt_irrefl 0)⟩
  change 0 + ((h.registerEntity e).entities c).synchronisableEvents.length = 0
  rw [(hown c).1, unqueued.subtree c hc]
  rfl

/-- An OK reply to any request of the subtree wakes all of it. -/
theorem Replied.ok (he : h.InTree e) (replied : Replied h e n a) (c : EntityId)
    {response : Option Content} (hok : verifySignal response .ok = true) :
    Replied h e (n + 1) (step v link fuel behaviour e a (.respond c response)) := by
  obtain ⟨hwaking, -, hawake⟩ := activateEntityComplete_waking tree replied.waking he
  have hstep : step v link fuel behaviour e a (.respond c response) =
      { a with
        hierarchy := ZstClientHierarchy.activateEntityComplete a.hierarchy e
        callbacks := a.callbacks + 1 } := by
    simp only [step, onRecvResponse, hok, if_true]
  rw [hstep]
  refine ⟨hwaking, by rw [replied.callbacks], fun d hd => ?_,
    fun hn => absurd hn (Nat.succ_ne_zero n), fun _ => hawake⟩
  have hcount := replied.activations d hd
  change a.activations.count d + ((ZstClientHierarchy.activateEntityComplete
    a.hierarchy e).entities d).synchronisableEvents.length = n + 1
  rw [activateEntityComplete_own tree replied.waking he, if_pos hd, List.length_append]
  exact congrArg (· + 1) hcount

theorem Replied.step (he : h.InTree e) (replied : Replied h e n a) (event : AttemptEvent) :
    Replied h e (n + okReplies [event]) (step v link fuel behaviour e a event) := by
  cases event with
  | send c =>
    have hwaking : Waking h (sendRequest link behaviour a.hierarchy e c) :=
      replied.waking.publish link fun action haction => by
        split at haction
        · cases haction
        · exact ⟨e, (Option.some.inj haction).symm, he⟩
    have hentities := sendRequest_entities link behaviour a.hierarchy e c
    refine ⟨hwaking, replied.callbacks, fun d hd => ?_, fun hn d hd => ?_, fun hn d hd => ?_⟩
    · change a.activations.count d +
        ((sendRequest link behaviour a.hierarchy e c).entities d).synchronisableEvents.length = n
      rw [hentities]
      exact replied.activations d hd
    · change ((sendRequest link behaviour a.hierarchy e c).entities d).syncStatus = _
      rw [hentities]
      exact replied.asleep hn d hd
    · change Awake (sendRequest link behaviour a.hierarchy e c) d
      unfold Awake
      rw [hentities]
      exact replied.awake hn d hd
  | respond c response =>
    by_cases hok : verifySignal response .ok = true
    · have hreplies : okReplies [.respond c response] = 1 := by
        simp [okReplies, responses, hok]
      rw [hreplies]
      exact replied.ok tree v link fuel behaviour he c hok
    · have hreplies : okReplies [.respond c response] = 0 := by
        simp [okReplies, responses, hok]
      have hstep : Activation.step v link fuel behaviour e a (.respond c response) = a := by
        simp [Activation.step, onRecvResponse, hok]
      rw [hreplies, hstep]
      exact replied
  | drain => exact replied.drain v link fuel behaviour

theorem Replied.run (he : h.InTree e) (events : List AttemptEvent) (replied : Replied h e n a) :
    Replied h e (n + okReplies events)
      (events.foldl (Activation.step v link fuel behaviour e) a) := by
  induction events generalizing n a with
  | nil => exact replied
  | cons event events ih =>
    rw [List.foldl_cons, okReplies_cons, ← Nat.add_assoc]
    exact ih (replied.step tree v link fuel behaviour he event)

end Run

/-! ## Who is activated in the end -/

/-- The events of one attempt: a request was sent for every entity of the
subtree, and each of them got one response or timed out. -/
structure Answered (h : ZstHierarchy) (e : EntityId) (events : List AttemptEvent) : Prop where
  requests : requests events = h.getChildEntities e
  responses : ((responses events).map Prod.fst).Perm (h.getChildEntities e)

/-- The entity was not activated before the attempt and is after it. -/
def Became (h : ZstHierarchy) (a : Attempt) (c : EntityId) : Prop :=
  (h.entities c).syncStatus ≠ .activated ∧ (a.hierarchy.entities c).syncStatus = .activated

/-- An entity is only activated by its own request, and once, and the callback
runs once if all requests succeeded and not at all otherwise. -/
structure ActivatedOnce (h : ZstHierarchy) (e : EntityId) (events : List AttemptEvent)
    (a : Attempt) : Prop where
  own : ∀ c ∈ h.getChildEntities e, Became h a c →
    ∃ response, (c, response) ∈ responses events ∧ verifySignal response .ok = true
  once : ∀ c ∈ h.getChildEntities e, Became h a c → a.activations.count c = 1
  callback : a.callbacks =
    if ∀ reply ∈ responses events, verifySignal reply.2 .ok = true then 1 else 0

section Outcome

variable {h : ZstHierarchy} {e : EntityId} {events : List AttemptEvent}

theorem Answered.length (answered : Answered h e events) :
    (Activation.responses events).length = (h.getChildEntities e).length := by
  rw [← answered.responses.length_eq, List.length_map]

theorem okReplies_eq_length_iff :
    okReplies events = (responses events).length ↔
      ∀ reply ∈ responses events, verifySignal reply.2 .ok = true :=
  List.countP_eq_length

theorem okReplies_eq_zero_iff :
    okReplies events = 0 ↔
      ∀ reply ∈ responses events, verifySignal reply.2 .ok = false := by
  unfold okReplies
  rw [List.countP_eq_zero]
  simp only [Bool.not_eq_true]

theorem length_getChildEntities_pos : 0 < (h.getChildEntities e).length :=
  List.length_pos_of_mem (self_mem_getChildEntities _ e)

theorem getChildEntities_eq_singleton_iff :
    h.getChildEntities e = [e] ↔ (h.getChildEntities e).length = 1 := by
  constructor
  · intro hsingle
    rw [hsingle]
    rfl
  · intro hlength
    obtain ⟨c, hc⟩ := List.length_eq_one_iff.mp hlength
    have hmem : e ∈ h.getChildEntities e := self_mem_getChildEntities _ e
    rw [hc] at hmem ⊢
    rw [List.mem_singleton.mp hmem]

/-- The state once everything is answered and drained. -/
theorem Replied.drained {n : Nat} {a : Attempt} (v : Overrides) (link : StageLink) (fuel : Nat)
    (behaviour : SendBehaviour) (replied : Replied h e n a) {c : EntityId}
    (hc : c ∈ h.getChildEntities e) :
    let b := Activation.step v link fuel behaviour e a .drain
    b.callbacks = n ∧ b.activations.count c = n ∧
      (n = 0 → (b.hierarchy.entities c).syncStatus = (h.entities c).syncStatus) := by
  intro b
  have hb : Replied h e n b := replied.drain v link fuel behaviour
  obtain ⟨-, -, hdrained, -⟩ := processEvents_waking v fuel replied.waking
  have hcount := hb.activations c hc
  have hown : (b.hierarchy.entities c).synchronisableEvents = [] := hdrained.events c
  rw [hown, List.length_nil, Nat.add_zero] at hcount
  exact ⟨hb.callbacks, hcount, fun hn => hb.asleep hn c hc⟩

end Outcome

/-- A subtree is activated as its requests were answered exactly if it is a
single entity or no request was answered with OK. -/
theorem activatedOnce_iff (v : Overrides) (link : StageLink) (fuel : Nat)
    (behaviour : SendBehaviour) (h : ZstHierarchy) (tree : RegisteredTree h) (e : EntityId)
    (he : h.InTree e) (unqueued : Unqueued h e) (events : List AttemptEvent)
    (answered : Answered h e events) :
    ActivatedOnce h e events (attempt v link fuel behaviour h e (events ++ [.drain])) ↔
      h.getChildEntities e = [e] ∨
        ∀ reply ∈ responses events, verifySignal reply.2 .ok = false := by
  have hrun : Replied h e (okReplies events) (attempt v link fuel behaviour h e events) := by
    have hreplied := (replied_start tree he unqueued).run tree v link fuel behaviour he events
    rw [Nat.zero_add] at hreplied
    exact hreplied
  have hlast : attempt v link fuel behaviour h e (events ++ [.drain]) =
      step v link fuel behaviour e (attempt v link fuel behaviour h e events) .drain := by
    simp [attempt, List.foldl_append]
  rw [hlast, getChildEntities_eq_singleton_iff, ← okReplies_eq_zero_iff]
  have hdone := fun c hc => hrun.drained v link fuel behaviour (c := c) hc
  generalize step v link fuel behaviour e (attempt v link fuel behaviour h e events) .drain = b
    at hdone
  have hpos : 0 < (responses events).length := by
    rw [answered.length]
    exact length_getChildEntities_pos
  constructor
  · rintro ⟨-, -, hcallback⟩
    rw [(hdone e (self_mem_getChildEntities _ e)).1] at hcallback
    split at hcallback
    · rename_i hall
      left
      rw [← answered.length, ← okReplies_eq_length_iff.mpr hall, hcallback]
    · exact Or.inr hcallback
  · intro hcondition
    have hcases : okReplies events = 0 ∨
        okReplies events = 1 ∧ okReplies events = (responses events).length := by
      have hle : okReplies events ≤ (responses events).length := List.countP_le_length
      rw [answered.length] at hle ⊢
      omega
    rcases hcases with hzero | ⟨hone, hall⟩
    · have hasleep : ∀ c ∈ h.getChildEntities e, ¬Became h b c := by
        rintro c hc ⟨hbefore, hafter⟩
        rw [(hdone c hc).2.2 hzero] at hafter
        exact hbefore hafter
      refine ⟨fun c hc hbecame => absurd hbecame (hasleep c hc),
        fun c hc hbecame => absurd hbecame (hasleep c hc), ?_⟩
      have hnot : ¬ ∀ reply ∈ responses events, verifySignal reply.2 .ok = true := by
        rw [← okReplies_eq_length_iff]
        omega
      rw [(hdone e (self_mem_getChildEntities _ e)).1, if_neg hnot, hzero]
    · refine ⟨fun c hc _ => ?_, fun c hc _ => (hdone c hc).2.1.trans hone, ?_⟩
      · obtain ⟨⟨d, response⟩, hreply, rfl⟩ :=
          List.mem_map.mp (answered.responses.mem_iff.mpr hc)
        exact ⟨response, hreply, okReplies_eq_length_iff.mp hall _ hreply⟩
      · rw [(hdone e (self_mem_getChildEntities _ e)).1, if_pos (okReplies_eq_length_iff.mp hall),
          hone]

/-- The output of the synthesiser is activated by its own OK reply. -/
theorem activatedOnce_iff_output :
    ActivatedOnce soloTree 2 [.send 2, .respond 2 (some (.signalMessage .ok))]
        (attempt (overrides (okLink true) 0) (okLink true) 0 .asyncReply soloTree 2
          ([.send 2, .respond 2 (some (.signalMessage .ok))] ++ [.drain])) ↔
      soloTree.getChildEntities 2 = [2] ∨
        ∀ reply ∈ responses [.send 2, .respond 2 (some (.signalMessage .ok))],
          verifySignal reply.2 .ok = false :=
  activatedOnce_iff (overrides (okLink true) 0) (okLink true) 0 .asyncReply soloTree
    soloClient_fresh.tree 2 (by decide)
    { hierarchyEvents := rfl
      cleanupOps := rfl
      deadIDs := rfl
      events := fun d => by simp [(soloTree_entities d).2.2]
      queued := fun d => by simp [(soloTree_entities d).2.2]
      subtree := fun c _ => (soloTree_entities c).2.2 }
    [.send 2, .respond 2 (some (.signalMessage .ok))] ⟨by decide, by decide⟩

/-- The synthesiser's request is granted and its output's is refused, and yet
the output is activated. -/
theorem refused_output_activated :
    ¬ActivatedOnce soloTree 1
      [.send 1, .send 2, .respond 1 (some (.signalMessage .ok)),
        .respond 2 (some (.signalMessage .errEntityNotFound))]
      (attempt (overrides (okLink true) 0) (okLink true) 0 .asyncReply soloTree 1
        ([.send 1, .send 2, .respond 1 (some (.signalMessage .ok)),
          .respond 2 (some (.signalMessage .errEntityNotFound))] ++ [.drain])) := by
  rintro ⟨hown, -, -⟩
  obtain ⟨response, hreply, hok⟩ := hown 2 (by decide) ⟨by decide, by decide⟩
  have hrefused : response = some (.signalMessage .errEntityNotFound) := by
    simpa [responses] using hreply
  rw [hrefused] at hok
  exact absurd hok (by decide)

/-! ## `activate_entity` is such an attempt -/

section Connection

variable {h : ZstHierarchy} (tree : RegisteredTree h) (v : Overrides) (link : StageLink)
  (fuel : Nat) {behaviour : SendBehaviour}

theorem activateEntity_eq {e : EntityId} (haddress : (h.entities e).parentAddress ≠ [])
    (hstatus : (h.entities e).syncStatus ≠ .activated) :
    activateEntity v link fuel h e behaviour =
      let k := ((h.registerEntity e).getChildEntities e).foldl (fun k c =>
        request v link k (.entityCreateRequest (k.entities c).serialize) behaviour
          (.entityActivated e none)) (h.registerEntity e)
      if behaviour = .syncReply then processEvents v fuel k else k := by
  have hnot : ¬(h.entities e).isActivated = true := by simpa [Entity.isActivated] using hstatus
  simp only [activateEntity, if_neg haddress, if_neg hnot]

include tree

/-- An asynchronous activation sends the requests and leaves the responses to
come in any order. -/
theorem activateEntity_async (hb : behaviour ≠ .syncReply) {e : EntityId} (he : h.InTree e)
    (unqueued : Unqueued h e) (haddress : (h.entities e).parentAddress ≠ [])
    (hstatus : (h.entities e).syncStatus ≠ .activated) :
    activateEntity v link fuel h e behaviour =
      (attempt v link fuel behaviour h e ((h.getChildEntities e).map .send)).hierarchy := by
  rw [activateEntity_eq v link fuel haddress hstatus, if_neg hb,
    (registerEntity_waking tree unqueued.waking he).getChildEntities_eq]
  unfold attempt
  have hstart : (start h e).hierarchy = h.registerEntity e := rfl
  rw [← hstart]
  generalize start h e = a
  induction h.getChildEntities e generalizing a with
  | nil => rfl
  | cons c items ih =>
    have hsend : request v link a.hierarchy
        (.entityCreateRequest (a.hierarchy.entities c).serialize) behaviour
        (.entityActivated e none) = (step v link fuel behaviour e a (.send c)).hierarchy := by
      simp only [request, hb, if_false, step, sendRequest, publish]
      split <;> rfl
    rw [List.map_cons, List.foldl_cons, List.foldl_cons, hsend]
    exact ih _

/-- A synchronous activation waits for each response before the next request,
and drains the events in the end. -/
theorem activateEntity_sync (hconnected : link.connected = true) {e : EntityId} (he : h.InTree e)
    (unqueued : Unqueued h e) (haddress : (h.entities e).parentAddress ≠ [])
    (hstatus : (h.entities e).syncStatus ≠ .activated) :
    activateEntity v link fuel h e .syncReply =
      (attempt v link fuel .syncReply h e
        (((h.getChildEntities e).zipIdx h.sent.length).flatMap (fun (c, n) =>
          [.send c, .respond c (link.answer n)]) ++ [.drain])).hierarchy := by
  rw [activateEntity_eq v link fuel haddress hstatus, if_pos rfl,
    (registerEntity_waking tree unqueued.waking he).getChildEntities_eq]
  unfold attempt
  rw [List.foldl_append]
  refine congrArg (processEvents v fuel) ?_
  have hstart : (start h e).hierarchy = h.registerEntity e ∧
      (start h e).hierarchy.sent.length = h.sent.length := ⟨rfl, rfl⟩
  rw [← hstart.1, ← hstart.2]
  generalize start h e = a
  induction h.getChildEntities e generalizing a with
  | nil => rfl
  | cons c items ih =>
    have hpair : request v link a.hierarchy
        (.entityCreateRequest (a.hierarchy.entities c).serialize) .syncReply
        (.entityActivated e none) =
        ([.send c, .respond c (link.answer a.hierarchy.sent.length)].foldl
          (step v link fuel .syncReply e) a).hierarchy := by
      simp only [request, hconnected, if_true]
      rfl
    have hsent : ([AttemptEvent.send c, .respond c (link.answer a.hierarchy.sent.length)].foldl
        (step v link fuel .syncReply e) a).hierarchy.sent.length =
        a.hierarchy.sent.length + 1 := by
      rw [← hpair]
      simp only [request, hconnected, if_true, onRecvResponse, publish]
      split
      · rw [activateEntityComplete_sent]
        simp
      · simp
    rw [List.zipIdx_cons, List.flatMap_cons, List.foldl_append, List.foldl_cons, hpair, ← hsent]
    exact ih _

end Connection

end Showtime.Activation
