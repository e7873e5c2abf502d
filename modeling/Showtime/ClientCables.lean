import Showtime.Client
import Showtime.Library.Run
/-!
# A client's cable

The stage tells a client to create and to destroy a cable, while the
application of the client drains the queues whenever it likes. A cable that is
destroyed stays in the session until the reaper has run.
-/

namespace Showtime.ClientCables

open ZstHierarchy ZstClientSession

/-! ## Steps -/

/-- What happens to the cable of one address. -/
inductive ClientEvent
  /-- The stage sends a `CableCreateRequest`, ... -/
  | create
  /-- ... or a `CableDestroyRequest`. -/
  | destroy
  /-- The application connects the plugs, ... -/
  | connect
  /-- ... and the stage has agreed to that, ... -/
  | connected (cable : CableId)
  /-- ... or to the application's request to destroy the cable. -/
  | disconnected (cable : CableId)
  /-- The hierarchy changes. -/
  | hierarchy (h : ZstHierarchy)
  /-- The session takes the oldest item of its queue, ... -/
  | cableItem
  /-- ... or its reaper runs. -/
  | reap

def step (a : ZstCableAddress) (s : ZstSession) : ClientEvent → Except Fault ZstSession
  | .create => .ok (cableCreateHandler s a)
  | .destroy => .ok (cableDestroyHandler s a)
  | .connect =>
    match s.findInputPlug a.inputURI, s.findOutputPlug a.outputURI with
    | some input, some output => .ok (connectCable s input output).1
    | _, _ => .ok s
  | .connected cable =>
    if cable ∈ s.cables then .ok (connectCableComplete s cable) else .error .freedPointer
  | .disconnected cable =>
    if cable ∈ s.cables then .ok (s.destroyCableComplete cable) else .error .freedPointer
  | .hierarchy h => .ok { s with hierarchy := h }
  | .cableItem =>
    match s.synchronisableEvents with
    | [] => .ok s
    | cable :: rest => .ok ({ s with synchronisableEvents := rest }.processCableItem cable)
  | .reap => .ok s.reapCables

/-- The steps of `process_events`. -/
def drains : ClientEvent → Bool
  | .hierarchy _ | .cableItem | .reap => true
  | .create | .destroy | .connect | .connected _ | .disconnected _ => false

/-- The client knows the plugs of the address. -/
structure KnowsPlugs (a : ZstCableAddress) (i o : EntityId) (h : ZstHierarchy) : Prop where
  input : h.findEntity a.inputURI = some i
  output : h.findEntity a.outputURI = some o
  isInputPlug : (h.entities i).isInputPlug = true
  isOutputPlug : (h.entities o).isOutputPlug = true
  inputURI : (h.entities i).uri = a.inputURI
  outputURI : (h.entities o).uri = a.outputURI

/-- A change of the hierarchy leaves the plugs and their cables alone. -/
def KeepsPlugs (a : ZstCableAddress) (i o : EntityId) (s : ZstSession) : ClientEvent → Prop
  | .hierarchy h =>
    KnowsPlugs a i o h ∧ (h.entities i).cables = (s.hierarchy.entities i).cables ∧
      (h.entities o).cables = (s.hierarchy.entities o).cables
  | _ => True

/-- Both plugs have the cable in their sets. -/
def PlugsHold (a : ZstCableAddress) (i o : EntityId) (s : ZstSession) : Prop :=
  a ∈ (s.hierarchy.entities i).cables ∧ a ∈ (s.hierarchy.entities o).cables

/-- Neither plug has it. -/
def Lacks (a : ZstCableAddress) (i o : EntityId) (s : ZstSession) : Prop :=
  a ∉ (s.hierarchy.entities i).cables ∧ a ∉ (s.hierarchy.entities o).cables

/-- The cable waits for its destruction, or for the reaper. -/
def CableDying (s : ZstSession) (c : CableId) : Prop :=
  .destroyed ∈ (s.cableObjects c).synchronisableEvents ∨ c ∈ s.cleanupOps

/-- The session has no cable of the address but dying ones. -/
def Fading (a : ZstCableAddress) (s : ZstSession) : Prop :=
  ∀ c ∈ s.cables, (s.cableObjects c).address = a → CableDying s c

/-- The session has a cable of the address that stays. -/
def CableStays (a : ZstCableAddress) (s : ZstSession) : Prop :=
  ∃ c ∈ s.cables, (s.cableObjects c).address = a ∧ ¬ CableDying s c

/-- What the session knows of the cable at all times. -/
structure CableTraced (a : ZstCableAddress) (i o : EntityId) (s : ZstSession) : Prop where
  knows : KnowsPlugs a i o s.hierarchy
  nodupInput : (s.hierarchy.entities i).cables.Nodup
  nodupOutput : (s.hierarchy.entities o).cables.Nodup
  known : ∀ c, c ∈ s.cables ∨ c ∈ s.synchronisableEvents ∨ c ∈ s.cleanupOps → c < s.nextCable
  single : ∀ c ∈ s.cables, ∀ d ∈ s.cables, (s.cableObjects c).address = a →
    (s.cableObjects d).address = a → c = d
  queued : ∀ c ∈ s.cables, (s.cableObjects c).address = a →
    (s.cableObjects c).synchronisableEvents ≠ [] → c ∈ s.synchronisableEvents
  lacks : Fading a s → Lacks a i o s

section Plugs

variable {a : ZstCableAddress} {i o : EntityId} {s t : ZstSession}

theorem findEntity_modify {h : ZstHierarchy} {e : EntityId} {f : Entity → Entity}
    (huri : ∀ x, (f x).uri = x.uri) (q : ZstURI) : (h.modify e f).findEntity q = h.findEntity q := by
  unfold findEntity
  simp only [modify_root, modify_lookup]
  cases h.root with
  | none => rfl
  | some root =>
    simp only [modify_entities]
    split
    · rename_i hroot
      rw [huri, hroot]
    · rfl

/-- The cables of a plug are not what it is known by. -/
theorem KnowsPlugs.modify {h : ZstHierarchy} (knows : KnowsPlugs a i o h) (e : EntityId)
    (cables : List ZstCableAddress → List ZstCableAddress) :
    KnowsPlugs a i o (h.modify e fun x => { x with cables := cables x.cables }) := by
  have hfield : ∀ {β : Type} (g : Entity → β), (∀ x l, g { x with cables := l } = g x) →
      ∀ d, g ((h.modify e fun x => { x with cables := cables x.cables }).entities d) =
        g (h.entities d) := by
    intro β g hg d
    rw [modify_entities]
    split
    · rename_i hde
      rw [hg, hde]
    · rfl
  have hfind : ∀ q, (h.modify e fun x => { x with cables := cables x.cables }).findEntity q =
      h.findEntity q := findEntity_modify fun _ => rfl
  refine ⟨?_, ?_, ?_, ?_, ?_, ?_⟩
  · rw [hfind]
    exact knows.input
  · rw [hfind]
    exact knows.output
  · rw [hfield Entity.isInputPlug fun _ _ => rfl]
    exact knows.isInputPlug
  · rw [hfield Entity.isOutputPlug fun _ _ => rfl]
    exact knows.isOutputPlug
  · rw [hfield Entity.uri fun _ _ => rfl]
    exact knows.inputURI
  · rw [hfield Entity.uri fun _ _ => rfl]
    exact knows.outputURI

theorem KnowsPlugs.findInputPlug (knows : KnowsPlugs a i o s.hierarchy) :
    s.findInputPlug a.inputURI = some i := by
  unfold ZstSession.findInputPlug
  rw [knows.input]
  simp [Option.filter, knows.isInputPlug]

theorem KnowsPlugs.findOutputPlug (knows : KnowsPlugs a i o s.hierarchy) :
    s.findOutputPlug a.outputURI = some o := by
  unfold ZstSession.findOutputPlug
  rw [knows.output]
  simp [Option.filter, knows.isOutputPlug]

theorem KnowsPlugs.ne {h : ZstHierarchy} (knows : KnowsPlugs a i o h) : i ≠ o := by
  rintro rfl
  have hin := knows.isInputPlug
  have hout := knows.isOutputPlug
  simp only [Entity.isInputPlug, Entity.isOutputPlug, Bool.and_eq_true, bne_iff_ne, ne_eq,
    beq_iff_eq] at hin hout
  exact hout.2 hin.2

/-- The plugs forget no other cable, and keep their sets in order. -/
theorem unplug_plug (s : ZstSession) (b : ZstCableAddress) (e : EntityId) :
    ((s.hierarchy.entities e).cables.Nodup →
        ((s.unplug b).hierarchy.entities e).cables.Nodup) ∧
      ((s.unplug b).hierarchy.entities e).cables ⊆ (s.hierarchy.entities e).cables ∧
      ∀ d ≠ b, d ∈ (s.hierarchy.entities e).cables →
        d ∈ ((s.unplug b).hierarchy.entities e).cables := by
  refine ZstSession.unplug_rule (P := fun (t : ZstSession) =>
    ((s.hierarchy.entities e).cables.Nodup → (t.hierarchy.entities e).cables.Nodup) ∧
      (t.hierarchy.entities e).cables ⊆ (s.hierarchy.entities e).cables ∧
      ∀ d ≠ b, d ∈ (s.hierarchy.entities e).cables → d ∈ (t.hierarchy.entities e).cables)
    b (fun t f ht => ?_) ⟨id, List.Subset.refl _, fun _ _ hd => hd⟩
  rw [ZstSession.plugRemoveCable_cables]
  split
  · refine ⟨fun hnodup => (ht.1 hnodup).erase b, fun d hd => ht.2.1 (List.mem_of_mem_erase hd),
      fun d hd hmem => ?_⟩
    exact (List.mem_erase_of_ne hd).mpr (ht.2.2 d hd hmem)
  · exact ht

theorem KnowsPlugs.unplug (knows : KnowsPlugs a i o s.hierarchy) (b : ZstCableAddress) :
    KnowsPlugs a i o (s.unplug b).hierarchy :=
  ZstSession.unplug_rule (P := fun (t : ZstSession) => KnowsPlugs a i o t.hierarchy) b
    (fun _ e ht => ht.modify e fun cables => cables.erase b) knows

/-- The plugs forget the cable. -/
theorem unplug_lacks (knows : KnowsPlugs a i o s.hierarchy)
    (hin : (s.hierarchy.entities i).cables.Nodup) (hout : (s.hierarchy.entities o).cables.Nodup) :
    Lacks a i o (s.unplug a) := by
  have hfirst : KnowsPlugs a i o (s.plugRemoveCable i a).hierarchy :=
    knows.modify i fun cables => cables.erase a
  unfold ZstSession.unplug
  simp only [knows.findInputPlug, hfirst.findOutputPlug]
  refine ⟨?_, ?_⟩
  · rw [ZstSession.plugRemoveCable_cables, if_neg knows.ne, ZstSession.plugRemoveCable_cables,
      if_pos rfl]
    exact hin.not_mem_erase
  · rw [ZstSession.plugRemoveCable_cables, if_pos rfl, ZstSession.plugRemoveCable_cables,
      if_neg knows.ne.symm]
    exact hout.not_mem_erase

end Plugs

/-! ## The cables -/

section Cables

variable {a : ZstCableAddress} {i o : EntityId} {s t : ZstSession}

/-- The session has the same cables, and some of them have new events. -/
structure Touches (s t : ZstSession) : Prop where
  next : t.nextCable = s.nextCable
  cables : t.cables = s.cables
  cleanupOps : t.cleanupOps = s.cleanupOps
  address : ∀ c, (t.cableObjects c).address = (s.cableObjects c).address
  pending : ∀ c ∈ t.synchronisableEvents, c ∈ s.synchronisableEvents ∨ c ∈ s.cables
  queue : s.synchronisableEvents ⊆ t.synchronisableEvents
  events : ∀ c, (t.cableObjects c).synchronisableEvents = (s.cableObjects c).synchronisableEvents ∨
    c ∈ t.synchronisableEvents
  destroyed : ∀ c, .destroyed ∈ (s.cableObjects c).synchronisableEvents →
    .destroyed ∈ (t.cableObjects c).synchronisableEvents

theorem Touches.of_hierarchy (ht : t = { s with hierarchy := t.hierarchy }) : Touches s t := by
  rw [ht]
  exact ⟨rfl, rfl, rfl, fun _ => rfl, fun _ hc => Or.inl hc, List.Subset.refl _,
    fun _ => Or.inl rfl, fun _ hc => hc⟩

theorem Touches.trans {u : ZstSession} (hst : Touches s t) (htu : Touches t u) : Touches s u := by
  refine ⟨htu.next.trans hst.next, htu.cables.trans hst.cables,
    htu.cleanupOps.trans hst.cleanupOps, fun c => (htu.address c).trans (hst.address c),
    fun c hc => ?_, fun c hc => htu.queue (hst.queue hc), fun c => ?_,
    fun c hc => htu.destroyed c (hst.destroyed c hc)⟩
  · rcases htu.pending c hc with hc | hc
    · exact hst.pending c hc
    · exact Or.inr (hst.cables ▸ hc)
  · rcases htu.events c with hc | hc
    · rcases hst.events c with hc' | hc'
      · exact Or.inl (hc.trans hc')
      · exact Or.inr (htu.queue hc')
    · exact Or.inr hc

/-- A cable of the session gets some events. -/
theorem touches_modifyCable {c : CableId} (hc : c ∈ s.cables) (status : ZstSyncStatus)
    (events : List SynchronisableEvent) :
    Touches s
      { s.modifyCable c fun x =>
          { x with
            syncStatus := status
            synchronisableEvents := x.synchronisableEvents ++ events } with
        synchronisableEvents := s.synchronisableEvents ++ [c] } := by
  refine ⟨rfl, rfl, rfl, fun d => ?_, fun d hd => ?_, List.subset_append_left _ _, fun d => ?_,
    fun d hd => ?_⟩
  · by_cases hdc : d = c
    · rw [hdc]
      simp [ZstSession.modifyCable]
    · simp [ZstSession.modifyCable, hdc]
  · rcases List.mem_append.mp hd with hd | hd
    · exact Or.inl hd
    · exact Or.inr (List.mem_singleton.mp hd ▸ hc)
  · by_cases hdc : d = c
    · exact Or.inr (by simp [hdc])
    · exact Or.inl (by simp [ZstSession.modifyCable, hdc])
  · by_cases hdc : d = c
    · rw [hdc] at hd ⊢
      simp [ZstSession.modifyCable, hd]
    · simpa [ZstSession.modifyCable, hdc] using hd

theorem enqueueCableActivation_touches {c : CableId} (hc : c ∈ s.cables) :
    Touches s (s.enqueueCableActivation c) := by
  unfold ZstSession.enqueueCableActivation
  split
  · exact touches_modifyCable hc _ _
  · exact .of_hierarchy rfl

theorem enqueueCableDeactivation_touches {c : CableId} (hc : c ∈ s.cables) :
    Touches s (s.enqueueCableDeactivation c) := by
  unfold ZstSession.enqueueCableDeactivation
  split
  · exact touches_modifyCable hc _ _
  · exact .of_hierarchy rfl

/-- Activation destroys nothing. -/
theorem enqueueCableActivation_dying (s : ZstSession) (c d : CableId) :
    CableDying (s.enqueueCableActivation c) d ↔ CableDying s d := by
  unfold ZstSession.enqueueCableActivation CableDying
  split
  · by_cases hdc : d = c
    · simp [ZstSession.modifyCable, hdc]
    · simp [ZstSession.modifyCable, hdc]
  · rfl

/-- Only a cable that is activated is destroyed. -/
theorem enqueueCableDeactivation_dying (s : ZstSession) (c d : CableId) :
    CableDying (s.enqueueCableDeactivation c) d ↔ CableDying s d ∨ d = c ∧
      ((s.cableObjects c).syncStatus = .activated ∨
        (s.cableObjects c).syncStatus = .deactivating) := by
  unfold ZstSession.enqueueCableDeactivation CableDying
  split
  · rename_i hstatus
    by_cases hdc : d = c
    · simp [ZstSession.modifyCable, hdc, hstatus]
    · simp [ZstSession.modifyCable, hdc]
  · rename_i hstatus
    simp [hstatus]

/-- The events of a cable, one after the other. -/
theorem processCableEvents_eq (events : List SynchronisableEvent) (u : ZstSession) (c : CableId) :
    let v := events.foldl (fun s event => s.processCableEvent c event) u
    v.hierarchy = u.hierarchy ∧ v.nextCable = u.nextCable ∧ v.cables = u.cables ∧
      v.synchronisableEvents = u.synchronisableEvents ∧
      (∀ d, (v.cableObjects d).address = (u.cableObjects d).address ∧
        (v.cableObjects d).synchronisableEvents = (u.cableObjects d).synchronisableEvents) ∧
      ∀ d, d ∈ v.cleanupOps ↔ d ∈ u.cleanupOps ∨ d = c ∧ .destroyed ∈ events := by
  induction events generalizing u with
  | nil => simp
  | cons event events ih =>
    obtain ⟨hhierarchy, hnext, hcables, hqueue, hobjects, hcleanup⟩ := ih (u.processCableEvent c event)
    have hstatus : ∀ status d,
        ((u.modifyCable c fun x => { x with syncStatus := status }).cableObjects d).address =
          (u.cableObjects d).address ∧
        ((u.modifyCable c fun x => { x with syncStatus := status }).cableObjects
          d).synchronisableEvents = (u.cableObjects d).synchronisableEvents := by
      intro status d
      by_cases hdc : d = c
      · simp [ZstSession.modifyCable, hdc]
      · simp [ZstSession.modifyCable, hdc]
    cases event with
    | activated | deactivated =>
      refine ⟨hhierarchy, hnext, hcables, hqueue, fun d => ?_, fun d => ?_⟩
      · exact ⟨(hobjects d).1.trans (hstatus _ d).1, (hobjects d).2.trans (hstatus _ d).2⟩
      · rw [List.foldl_cons, hcleanup]
        simp [ZstSession.processCableEvent, ZstSession.modifyCable]
    | destroyed =>
      refine ⟨hhierarchy, hnext, hcables, hqueue, hobjects, fun d => ?_⟩
      rw [List.foldl_cons, hcleanup]
      simp [ZstSession.processCableEvent]
      tauto
    | updated =>
      refine ⟨hhierarchy, hnext, hcables, hqueue, hobjects, fun d => ?_⟩
      rw [List.foldl_cons, hcleanup]
      simp [ZstSession.processCableEvent]

/-- An item of the queue: the cable has no events any more, and if it was to be
destroyed the reaper has it. -/
theorem processCableItem_eq (s : ZstSession) (c : CableId) :
    (s.processCableItem c).hierarchy = s.hierarchy ∧
      (s.processCableItem c).nextCable = s.nextCable ∧
      (s.processCableItem c).cables = s.cables ∧
      (s.processCableItem c).synchronisableEvents = s.synchronisableEvents ∧
      (∀ d, ((s.processCableItem c).cableObjects d).address = (s.cableObjects d).address ∧
        ((s.processCableItem c).cableObjects d).synchronisableEvents =
          if d = c then [] else (s.cableObjects d).synchronisableEvents) ∧
      (∀ d ∈ (s.processCableItem c).cleanupOps, d ∈ s.cleanupOps ∨ d = c) ∧
      ∀ d, CableDying (s.processCableItem c) d ↔ CableDying s d := by
  obtain ⟨hhierarchy, hnext, hcables, hqueue, hobjects, hcleanup⟩ :=
    processCableEvents_eq (s.cableObjects c).synchronisableEvents
      (s.modifyCable c fun x => { x with synchronisableEvents := [] }) c
  have hevents : ∀ d, ((s.processCableItem c).cableObjects d).synchronisableEvents =
      if d = c then [] else (s.cableObjects d).synchronisableEvents := by
    intro d
    refine (hobjects d).2.trans ?_
    by_cases hdc : d = c
    · simp [ZstSession.modifyCable, hdc]
    · simp [ZstSession.modifyCable, hdc]
  refine ⟨hhierarchy, hnext, hcables, hqueue, fun d => ⟨?_, hevents d⟩, fun d hd => ?_,
    fun d => ?_⟩
  · refine (hobjects d).1.trans ?_
    by_cases hdc : d = c
    · simp [ZstSession.modifyCable, hdc]
    · simp [ZstSession.modifyCable, hdc]
  · exact ((hcleanup d).mp hd).imp id And.left
  · unfold CableDying
    rw [hevents]
    refine (or_congr_right (hcleanup d)).trans ?_
    by_cases hdc : d = c
    · subst hdc
      simp [ZstSession.modifyCable, or_comm]
    · simp [ZstSession.modifyCable, hdc]

/-- A cable gets another status. -/
theorem touches_status (s : ZstSession) (c : CableId) (status : ZstSyncStatus) :
    Touches s (s.modifyCable c fun x => { x with syncStatus := status }) := by
  have hobject : ∀ d,
      ((s.modifyCable c fun x => { x with syncStatus := status }).cableObjects d).address =
        (s.cableObjects d).address ∧
      ((s.modifyCable c fun x => { x with syncStatus := status }).cableObjects
        d).synchronisableEvents = (s.cableObjects d).synchronisableEvents := by
    intro d
    by_cases hdc : d = c
    · simp [ZstSession.modifyCable, hdc]
    · simp [ZstSession.modifyCable, hdc]
  exact ⟨rfl, rfl, rfl, fun d => (hobject d).1, fun _ hd => Or.inl hd, List.Subset.refl _,
    fun d => Or.inl (hobject d).2, fun d hd => (hobject d).2 ▸ hd⟩

end Cables

/-! ## What the session knows -/

section Traces

variable {a : ZstCableAddress} {i o : EntityId} {s t : ZstSession}

namespace CableTraced

theorem touches (traced : CableTraced a i o s) (hst : Touches s t)
    (knows : KnowsPlugs a i o t.hierarchy)
    (hin : (t.hierarchy.entities i).cables.Nodup) (hout : (t.hierarchy.entities o).cables.Nodup)
    (hlacks : Fading a t → Lacks a i o t) : CableTraced a i o t := by
  refine ⟨knows, hin, hout, fun c hc => ?_, fun c hc d hd hca hda => ?_, fun c hc hca hne => ?_,
    hlacks⟩
  · rw [hst.next]
    refine traced.known c ?_
    rw [hst.cables, hst.cleanupOps] at hc
    rcases hc with hc | hc | hc
    · exact Or.inl hc
    · exact (hst.pending c hc).elim (fun hc => Or.inr (Or.inl hc)) Or.inl
    · exact Or.inr (Or.inr hc)
  · rw [hst.cables] at hc hd
    rw [hst.address] at hca hda
    exact traced.single c hc d hd hca hda
  · rw [hst.cables] at hc
    rw [hst.address] at hca
    rcases hst.events c with hevents | hmem
    · exact hst.queue (traced.queued c hc hca (hevents ▸ hne))
    · exact hmem

/-- The plugs are left alone, and no cable is destroyed. -/
theorem spares (traced : CableTraced a i o s) (hst : Touches s t)
    (hhierarchy : t.hierarchy = s.hierarchy)
    (hdying : ∀ c, CableDying t c → CableDying s c) : CableTraced a i o t := by
  refine traced.touches hst (hhierarchy ▸ traced.knows) (hhierarchy ▸ traced.nodupInput)
    (hhierarchy ▸ traced.nodupOutput) fun hfading => ?_
  unfold Lacks
  rw [hhierarchy]
  refine traced.lacks fun c hc hca => hdying c (hfading c (hst.cables ▸ hc) ?_)
  rw [hst.address]
  exact hca

theorem activation (traced : CableTraced a i o s) {c : CableId} (hc : c ∈ s.cables) :
    CableTraced a i o (s.enqueueCableActivation c) :=
  traced.spares (enqueueCableActivation_touches hc) (s.enqueueCableActivation_hierarchy c)
    fun d => (enqueueCableActivation_dying s c d).mp

theorem status (traced : CableTraced a i o s) (c : CableId) (status : ZstSyncStatus) :
    CableTraced a i o (s.modifyCable c fun x => { x with syncStatus := status }) := by
  refine traced.spares (touches_status s c status) rfl fun d hd => hd.imp (fun hd => ?_) id
  by_cases hdc : d = c
  · subst hdc
    simpa [ZstSession.modifyCable] using hd
  · simpa [ZstSession.modifyCable, hdc] using hd

/-- The cable of the address is destroyed, or another one. -/
theorem destroyCableComplete (traced : CableTraced a i o s) {c : CableId} (hc : c ∈ s.cables) :
    CableTraced a i o (s.destroyCableComplete c) := by
  rw [ZstSession.destroyCableComplete_eq]
  generalize hb : (s.cableObjects c).address = b
  have hsession := s.unplug_session b
  have hc' : c ∈ (s.unplug b).cables := by
    rw [hsession]
    exact hc
  have htouches := (Touches.of_hierarchy hsession).trans (enqueueCableDeactivation_touches hc')
  have hhierarchy := ZstSession.enqueueCableDeactivation_hierarchy (s.unplug b) c
  refine traced.touches htouches ?_ ?_ ?_ fun hfading => ?_
  · rw [hhierarchy]
    exact traced.knows.unplug b
  · rw [hhierarchy]
    exact (unplug_plug s b i).1 traced.nodupInput
  · rw [hhierarchy]
    exact (unplug_plug s b o).1 traced.nodupOutput
  · unfold Lacks
    rw [hhierarchy]
    by_cases hba : b = a
    · rw [hba]
      exact unplug_lacks traced.knows traced.nodupInput traced.nodupOutput
    · -- another cable leaves this one as it was
      have hlacks : Lacks a i o s := traced.lacks fun d hd hda => by
        have hdying := hfading d (htouches.cables ▸ hd) ((htouches.address d).trans hda)
        have hdc : d ≠ c := by
          rintro rfl
          exact hba (hb.symm.trans hda)
        rw [enqueueCableDeactivation_dying] at hdying
        have hdying := hdying.resolve_right fun hdc' => hdc hdc'.1
        rw [hsession] at hdying
        exact hdying
      exact ⟨fun hmem => hlacks.1 ((unplug_plug s b i).2.1 hmem),
        fun hmem => hlacks.2 ((unplug_plug s b o).2.1 hmem)⟩

theorem cableItem (traced : CableTraced a i o s) {c : CableId} {rest : List CableId}
    (hqueue : s.synchronisableEvents = c :: rest) :
    CableTraced a i o ({ s with synchronisableEvents := rest }.processCableItem c) := by
  obtain ⟨hhierarchy, hnext, hcables, hevents, hobjects, hcleanup, hdying⟩ :=
    processCableItem_eq { s with synchronisableEvents := rest } c
  refine ⟨?_, ?_, ?_, fun d hd => ?_, fun d hd e he hda hea => ?_, fun d hd hda hne => ?_,
    fun hfading => ?_⟩
  · rw [hhierarchy]
    exact traced.knows
  · rw [hhierarchy]
    exact traced.nodupInput
  · rw [hhierarchy]
    exact traced.nodupOutput
  · rw [hnext]
    refine traced.known d ?_
    rw [hcables, hevents] at hd
    rw [hqueue]
    rcases hd with hd | hd | hd
    · exact Or.inl hd
    · exact Or.inr (Or.inl (List.mem_cons_of_mem _ hd))
    · rcases hcleanup d hd with hd | rfl
      · exact Or.inr (Or.inr hd)
      · exact Or.inr (Or.inl List.mem_cons_self)
  · rw [hcables] at hd he
    rw [(hobjects d).1] at hda
    rw [(hobjects e).1] at hea
    exact traced.single d hd e he hda hea
  · rw [hcables] at hd
    rw [(hobjects d).1] at hda
    rw [(hobjects d).2] at hne
    rw [hevents]
    split at hne
    · exact absurd rfl hne
    · rename_i hdc
      have hmem := traced.queued d hd hda hne
      rw [hqueue] at hmem
      exact (List.mem_cons.mp hmem).resolve_left hdc
  · unfold Lacks
    rw [hhierarchy]
    refine traced.lacks fun d hd hda => (hdying d).mp (hfading d ?_ ((hobjects d).1.trans hda))
    rw [hcables]
    exact hd

theorem reap (traced : CableTraced a i o s) : CableTraced a i o s.reapCables := by
  have hmem : ∀ {c}, c ∈ s.reapCables.cables → c ∈ s.cables := List.mem_of_mem_filter
  refine ⟨traced.knows, traced.nodupInput, traced.nodupOutput, fun c hc => traced.known c ?_,
    fun c hc d hd => traced.single c (hmem hc) d (hmem hd), fun c hc => traced.queued c (hmem hc),
    fun hfading => traced.lacks fun c hc hca => ?_⟩
  · rcases hc with hc | hc | hc
    · exact Or.inl (hmem hc)
    · exact Or.inr (Or.inl hc)
    · cases hc
  · by_cases hcleanup : c ∈ s.cleanupOps
    · exact Or.inr hcleanup
    · have hstill : c ∈ s.reapCables.cables := List.mem_filter.mpr ⟨hc, by simpa using hcleanup⟩
      rcases hfading c hstill hca with hdestroyed | hnone
      · exact Or.inl hdestroyed
      · cases hnone

/-- Without a cable of the address the plugs do not have it either. -/
theorem fading_of_free (hfree : s.findCable a = none) : Fading a s := fun c hc hca => by
  have hnone := (List.find?_eq_none.mp hfree) c hc
  simp [hca] at hnone

/-- The cable that is there is returned, and activated if it waits for that. -/
theorem createCable_found (knows : KnowsPlugs a i o s.hierarchy) {c : CableId}
    (hfind : s.findCable a = some c) :
    s.createCable i o =
      (if (s.cableObjects c).syncStatus = .activated then s else s.enqueueCableActivation c, c) := by
  unfold ZstSession.createCable
  simp only [knows.inputURI, knows.outputURI, hfind]

/-- A new cable is in the sets of both plugs, and stays. -/
theorem createCable_new (traced : CableTraced a i o s) (hfree : s.findCable a = none) :
    CableTraced a i o (s.createCable i o).1 ∧ PlugsHold a i o (s.createCable i o).1 ∧
      CableStays a (s.createCable i o).1 ∧
      (s.createCable i o).2 ∈ (s.createCable i o).1.cables := by
  have hne := traced.knows.ne
  have hlacks := traced.lacks (fading_of_free hfree)
  have hold : ∀ c ∈ s.cables, c ≠ s.nextCable := fun c hc =>
    Nat.ne_of_lt (traced.known c (Or.inl hc))
  have hothers : ∀ c ∈ s.cables, (s.cableObjects c).address ≠ a := fun c hc => by
    simpa using (List.find?_eq_none.mp hfree) c hc
  unfold ZstSession.createCable
  simp only [traced.knows.inputURI, traced.knows.outputURI, hfree]
  generalize hu : ({ s with
    cableObjects := Function.update s.cableObjects s.nextCable
      { address := a, input := i, output := o, syncStatus := .activated : ZstCable }
    nextCable := s.nextCable + 1
    cables := s.cables ++ [s.nextCable] } : ZstSession) = u
  have hhierarchy : u.hierarchy = s.hierarchy := by rw [← hu]
  have hin : (((u.plugAddCable i a).plugAddCable o a).hierarchy.entities i).cables =
      (s.hierarchy.entities i).cables ++ [a] := by
    rw [ZstSession.plugAddCable_cables, if_neg hne, ZstSession.plugAddCable_cables, if_pos rfl,
      hhierarchy, if_neg hlacks.1]
  have hout : (((u.plugAddCable i a).plugAddCable o a).hierarchy.entities o).cables =
      (s.hierarchy.entities o).cables ++ [a] := by
    rw [ZstSession.plugAddCable_cables, if_pos rfl, ZstSession.plugAddCable_cables,
      if_neg hne.symm, hhierarchy, if_neg hlacks.2]
  have hknows : KnowsPlugs a i o ((u.plugAddCable i a).plugAddCable o a).hierarchy := by
    have hknown : KnowsPlugs a i o u.hierarchy := hhierarchy ▸ traced.knows
    exact (hknown.modify i fun cables => if a ∈ cables then cables else cables ++ [a]).modify o
      fun cables => if a ∈ cables then cables else cables ++ [a]
  have hnodup : ∀ {cables : List ZstCableAddress}, cables.Nodup → a ∉ cables →
      (cables ++ [a]).Nodup := fun hcables ha =>
    List.nodup_append.mpr ⟨hcables, List.nodup_singleton a, fun b hb d hd hbd =>
      ha (List.mem_singleton.mp hd ▸ hbd ▸ hb)⟩
  have hholds : PlugsHold a i o ((u.plugAddCable i a).plugAddCable o a) := by
    unfold PlugsHold
    rw [hin, hout]
    exact ⟨by simp, by simp⟩
  have hnew : s.nextCable ∈ u.cables := by
    rw [← hu]
    simp
  have haddress : (u.cableObjects s.nextCable).address = a := by
    rw [← hu]
    simp
  have hcalm : ¬ CableDying u s.nextCable := by
    rw [← hu]
    rintro (hevents | hcleanup)
    · simp at hevents
    · exact Nat.lt_irrefl _ (traced.known _ (Or.inr (Or.inr hcleanup)))
  have hstays : CableStays a ((u.plugAddCable i a).plugAddCable o a) :=
    ⟨s.nextCable, hnew, haddress, hcalm⟩
  have hmem : ∀ {c}, c ∈ u.cables → c ∈ s.cables ∨ c = s.nextCable := fun {c} hc => by
    rw [← hu] at hc
    exact (List.mem_append.mp hc).imp id List.mem_singleton.mp
  have hobject : ∀ c ∈ s.cables, u.cableObjects c = s.cableObjects c := fun c hc => by
    rw [← hu]
    exact Function.update_of_ne (hold c hc) _ _
  refine ⟨⟨hknows, hin ▸ hnodup traced.nodupInput hlacks.1, hout ▸ hnodup traced.nodupOutput hlacks.2,
    fun c hc => ?_, fun c hc d hd hca hda => ?_, fun c hc hca hevents => ?_, fun hfading => ?_⟩,
    hholds, hstays, hnew⟩
  · have hlt : c < s.nextCable ∨ c = s.nextCable := by
      rcases hc with hc | hc | hc
      · exact (hmem hc).imp (fun hc => traced.known c (Or.inl hc)) id
      · rw [← hu] at hc
        exact Or.inl (traced.known c (Or.inr (Or.inl hc)))
      · rw [← hu] at hc
        exact Or.inl (traced.known c (Or.inr (Or.inr hc)))
    rw [← hu]
    rcases hlt with hlt | rfl
    · exact Nat.lt_succ_of_lt hlt
    · exact Nat.lt_succ_self s.nextCable
  · -- no other cable has the address
    have hthis : ∀ e ∈ u.cables, (u.cableObjects e).address = a → e = s.nextCable :=
      fun e he hea => (hmem he).elim
        (fun he => absurd (hobject e he ▸ hea) (hothers e he)) id
    exact (hthis c hc hca).trans (hthis d hd hda).symm
  · rcases hmem hc with hc | rfl
    · exact absurd (hobject c hc ▸ hca) (hothers c hc)
    · refine absurd ?_ hevents
      change (u.cableObjects s.nextCable).synchronisableEvents = []
      rw [← hu]
      simp
  · exact absurd (hfading s.nextCable hnew haddress) hcalm

theorem createCable (traced : CableTraced a i o s) :
    CableTraced a i o (s.createCable i o).1 ∧ (s.createCable i o).2 ∈
      (s.createCable i o).1.cables := by
  cases hfind : s.findCable a with
  | none =>
    obtain ⟨hnew, -, -, hmem⟩ := traced.createCable_new hfind
    exact ⟨hnew, hmem⟩
  | some c =>
    have hc : c ∈ s.cables := List.mem_of_find?_eq_some hfind
    rw [createCable_found traced.knows hfind]
    simp only
    split
    · exact ⟨traced, hc⟩
    · refine ⟨traced.activation hc, ?_⟩
      rw [(enqueueCableActivation_touches hc).cables]
      exact hc

/-- Every step keeps the traces of the cable. -/
theorem step {event : ClientEvent} (traced : CableTraced a i o s)
    (hkeeps : KeepsPlugs a i o s event)
    (hrun : ClientCables.step a s event = .ok t) : CableTraced a i o t := by
  cases event with
  | create =>
    obtain rfl := Except.ok.inj hrun
    unfold cableCreateHandler
    rw [traced.knows.findInputPlug, traced.knows.findOutputPlug]
    exact traced.createCable.1
  | destroy =>
    obtain rfl := Except.ok.inj hrun
    unfold cableDestroyHandler
    split
    · rename_i c hfind
      exact traced.destroyCableComplete (List.mem_of_find?_eq_some hfind)
    · exact traced
  | connect =>
    simp only [ClientCables.step, traced.knows.findInputPlug, traced.knows.findOutputPlug] at hrun
    obtain rfl := Except.ok.inj hrun
    unfold connectCable
    simp only
    split
    · exact traced.createCable.1.status _ _
    · exact traced
  | connected cable =>
    simp only [ClientCables.step] at hrun
    split at hrun
    · rename_i hc
      obtain rfl := Except.ok.inj hrun
      exact traced.activation hc
    · cases hrun
  | disconnected cable =>
    simp only [ClientCables.step] at hrun
    split at hrun
    · rename_i hc
      obtain rfl := Except.ok.inj hrun
      exact traced.destroyCableComplete hc
    · cases hrun
  | hierarchy h =>
    obtain rfl := Except.ok.inj hrun
    obtain ⟨hknows, hin, hout⟩ := hkeeps
    refine ⟨hknows, hin ▸ traced.nodupInput, hout ▸ traced.nodupOutput, traced.known,
      traced.single, traced.queued, fun hfading => ?_⟩
    unfold Lacks
    dsimp only
    rw [hin, hout]
    exact traced.lacks hfading
  | cableItem =>
    simp only [ClientCables.step] at hrun
    split at hrun
    · obtain rfl := Except.ok.inj hrun
      exact traced
    · rename_i c rest hqueue
      obtain rfl := Except.ok.inj hrun
      exact traced.cableItem hqueue
  | reap =>
    obtain rfl := Except.ok.inj hrun
    exact traced.reap

end CableTraced

/-! ## The queues are drained -/

/-- Draining the queues keeps what stays, brings back nothing, and does not touch the plugs. -/
theorem drain_keeps {event : ClientEvent} (hdrains : drains event = true)
    (hkeeps : KeepsPlugs a i o s event) (hrun : step a s event = .ok t) :
    (Fading a s → Fading a t) ∧ (CableStays a s → CableStays a t) ∧
      (t.hierarchy.entities i).cables = (s.hierarchy.entities i).cables ∧
      (t.hierarchy.entities o).cables = (s.hierarchy.entities o).cables := by
  cases event with
  | create | destroy | connect => cases hdrains
  | connected cable => cases hdrains
  | disconnected cable => cases hdrains
  | hierarchy h =>
    obtain rfl := Except.ok.inj hrun
    exact ⟨id, id, hkeeps.2.1, hkeeps.2.2⟩
  | cableItem =>
    simp only [step] at hrun
    split at hrun
    · obtain rfl := Except.ok.inj hrun
      exact ⟨id, id, rfl, rfl⟩
    · rename_i c rest hqueue
      obtain rfl := Except.ok.inj hrun
      obtain ⟨hhierarchy, -, hcables, -, hobjects, -, hdying⟩ :=
        processCableItem_eq { s with synchronisableEvents := rest } c
      refine ⟨fun hfading d hd hda => ?_, fun ⟨d, hd, hda, hstays⟩ => ?_, ?_, ?_⟩
      · rw [hcables] at hd
        rw [(hobjects d).1] at hda
        exact (hdying d).mpr (hfading d hd hda)
      · refine ⟨d, ?_, (hobjects d).1.trans hda, fun hd' => hstays ((hdying d).mp hd')⟩
        rw [hcables]
        exact hd
      · rw [hhierarchy]
      · rw [hhierarchy]
  | reap =>
    obtain rfl := Except.ok.inj hrun
    refine ⟨fun hfading c hc hca => ?_, fun ⟨c, hc, hca, hstays⟩ => ?_, rfl, rfl⟩
    · obtain ⟨hc, hkept⟩ := List.mem_filter.mp hc
      rcases hfading c hc hca with hdestroyed | hcleanup
      · exact Or.inl hdestroyed
      · simp [hcleanup] at hkept
    · obtain ⟨hcalm, hkept⟩ := not_or.mp hstays
      refine ⟨c, List.mem_filter.mpr ⟨hc, by simpa using hkept⟩, hca, not_or.mpr ⟨hcalm, ?_⟩⟩
      simp [ZstSession.reapCables]

theorem drains_keep (traced : CableTraced a i o s) {loop : List ClientEvent}
    (hdrains : ∀ event ∈ loop, drains event = true)
    (hkeeps : Library.Along (step a) (KeepsPlugs a i o) s loop)
    (hrun : Library.run (step a) s loop = .ok t) :
    CableTraced a i o t ∧ (Fading a s → Fading a t) ∧ (CableStays a s → CableStays a t) ∧
      (t.hierarchy.entities i).cables = (s.hierarchy.entities i).cables ∧
      (t.hierarchy.entities o).cables = (s.hierarchy.entities o).cables := by
  induction loop generalizing s with
  | nil =>
    obtain rfl : s = t := by simpa using hrun
    exact ⟨traced, id, id, rfl, rfl⟩
  | cons event loop ih =>
    obtain ⟨u, hu, hrest⟩ := Library.run_cons_ok.mp hrun
    obtain ⟨hfading, hstays, hin, hout⟩ :=
      drain_keeps (hdrains event List.mem_cons_self) hkeeps.1 hu
    obtain ⟨htraced, hfading', hstays', hin', hout'⟩ := ih (traced.step hkeeps.1 hu)
      (fun e he => hdrains e (List.mem_cons_of_mem _ he)) (hkeeps.2 u hu) hrest
    exact ⟨htraced, fun h => hfading' (hfading h), fun h => hstays' (hstays h),
      hin'.trans hin, hout'.trans hout⟩

/-- Nothing is left to be drained. -/
def NothingDeferred (s : ZstSession) : Prop :=
  s.synchronisableEvents = [] ∧ s.cleanupOps = []

/-- Once the queues are drained a dying cable is gone. -/
theorem CableTraced.gone (traced : CableTraced a i o s) (hdrained : NothingDeferred s)
    (hfading : Fading a s) :
    s.findCable a = none ∧ Lacks a i o s := by
  refine ⟨List.find?_eq_none.mpr fun c hc => ?_, traced.lacks hfading⟩
  simp only [decide_eq_true_eq]
  intro hca
  rcases hfading c hc hca with hdestroyed | hcleanup
  · have hqueued := traced.queued c hc hca (List.ne_nil_of_mem hdestroyed)
    rw [hdrained.1] at hqueued
    cases hqueued
  · rw [hdrained.2] at hcleanup
    cases hcleanup

theorem CableStays.found (hstays : CableStays a s) : (s.findCable a).isSome = true := by
  obtain ⟨c, hc, hca, -⟩ := hstays
  unfold ZstSession.findCable
  rw [List.find?_isSome]
  exact ⟨c, hc, by simpa using hca⟩

/-! ## The last message -/

/-- What the last message asks for. -/
def Granted (a : ZstCableAddress) (i o : EntityId) (s : ZstSession) : ClientEvent → Prop
  | .create => (s.findCable a).isSome = true ∧ PlugsHold a i o s
  | .destroy => s.findCable a = none ∧ Lacks a i o s
  | _ => True

/-- When the message to create the cable comes the client has none, or one that
is still plugged in. When the message to destroy it comes the client has none
that waits for its activation. -/
def ComesInTime (a : ZstCableAddress) (i o : EntityId) (s : ZstSession) : ClientEvent → Prop
  | .create => s.findCable a = none ∨ PlugsHold a i o s
  | .destroy => ∀ c ∈ s.findCable a, CableDying s c ∨ (s.cableObjects c).syncStatus = .activated ∨
      (s.cableObjects c).syncStatus = .deactivating
  | _ => True

/-- After a message to create the cable. -/
theorem granted_create {u : ZstSession} {loop : List ClientEvent} (traced : CableTraced a i o s)
    (hcreate : step a s .create = .ok t) (hdrains : ∀ event ∈ loop, drains event = true)
    (hkeeps : Library.Along (step a) (KeepsPlugs a i o) t loop)
    (hloop : Library.run (step a) t loop = .ok u) :
    Granted a i o u .create ↔ ComesInTime a i o s .create := by
  have hkept : KeepsPlugs a i o s .create := trivial
  have ht : CableTraced a i o t := traced.step hkept hcreate
  obtain ⟨hu, hfading, hstays, hin, hout⟩ := drains_keep ht hdrains hkeeps hloop
  have hholds : PlugsHold a i o u ↔ PlugsHold a i o t := by
    unfold PlugsHold
    rw [hin, hout]
  have hresult : cableCreateHandler s a = t := Except.ok.inj hcreate
  unfold cableCreateHandler at hresult
  rw [traced.knows.findInputPlug, traced.knows.findOutputPlug] at hresult
  obtain rfl : (s.createCable i o).1 = t := hresult
  cases hfind : s.findCable a with
  | none =>
    obtain ⟨-, hnew, hnewStays, -⟩ := traced.createCable_new hfind
    exact iff_of_true ⟨(hstays hnewStays).found, hholds.mpr hnew⟩ (Or.inl hfind)
  | some c =>
    have hc : c ∈ s.cables := List.mem_of_find?_eq_some hfind
    have hca : (s.cableObjects c).address = a := by
      simpa using List.find?_some hfind
    -- the cable that is there has its way
    have hsame : Touches s (s.createCable i o).1 ∧
        (s.createCable i o).1.hierarchy = s.hierarchy ∧
        ∀ d, CableDying (s.createCable i o).1 d ↔ CableDying s d := by
      rw [CableTraced.createCable_found traced.knows hfind]
      simp only
      split
      · exact ⟨.of_hierarchy rfl, rfl, fun _ => Iff.rfl⟩
      · exact ⟨enqueueCableActivation_touches hc, s.enqueueCableActivation_hierarchy c,
          enqueueCableActivation_dying s c⟩
    obtain ⟨htouches, hhierarchy, hdying⟩ := hsame
    have hholds' : PlugsHold a i o u ↔ PlugsHold a i o s := by
      rw [hholds]
      unfold PlugsHold
      rw [hhierarchy]
    have hintime : ComesInTime a i o s .create ↔ PlugsHold a i o s := by
      simp [ComesInTime, hfind]
    rw [hintime]
    refine ⟨fun hgranted => hholds'.mp hgranted.2, fun hthere => ⟨?_, hholds'.mpr hthere⟩⟩
    refine (hstays ⟨c, ?_, ?_, fun hdies => ?_⟩).found
    · rw [htouches.cables]
      exact hc
    · rw [htouches.address]
      exact hca
    · refine (traced.lacks fun d hd hda => ?_).1 hthere.1
      rw [traced.single d hd c hc hda hca]
      exact (hdying c).mp hdies

/-- After a message to destroy the cable. -/
theorem granted_destroy {u : ZstSession} {loop : List ClientEvent} (traced : CableTraced a i o s)
    (hdestroy : step a s .destroy = .ok t) (hdrains : ∀ event ∈ loop, drains event = true)
    (hkeeps : Library.Along (step a) (KeepsPlugs a i o) t loop)
    (hloop : Library.run (step a) t loop = .ok u) (hdrained : NothingDeferred u) :
    Granted a i o u .destroy ↔ ComesInTime a i o s .destroy := by
  have hkept : KeepsPlugs a i o s .destroy := trivial
  have ht : CableTraced a i o t := traced.step hkept hdestroy
  obtain ⟨hu, hfading, hstays, hin, hout⟩ := drains_keep ht hdrains hkeeps hloop
  have hresult : cableDestroyHandler s a = t := Except.ok.inj hdestroy
  unfold cableDestroyHandler at hresult
  cases hfind : s.findCable a with
  | none =>
    rw [hfind] at hresult
    obtain rfl : s = t := hresult
    refine iff_of_true
        (hu.gone hdrained (hfading (CableTraced.fading_of_free hfind))) fun c hc => ?_
    cases hfind.symm.trans hc
  | some c =>
    have hc : c ∈ s.cables := List.mem_of_find?_eq_some hfind
    have hca : (s.cableObjects c).address = a := by
      simpa using List.find?_some hfind
    rw [hfind] at hresult
    obtain rfl : (s.unplug a).enqueueCableDeactivation c = t := by
      rw [← hresult, ← hca]
      rfl
    have hsession := s.unplug_session a
    have hc' : c ∈ (s.unplug a).cables := by
      rw [hsession]
      exact hc
    have htouches := (Touches.of_hierarchy hsession).trans (enqueueCableDeactivation_touches hc')
    have hdying : CableDying ((s.unplug a).enqueueCableDeactivation c) c ↔ CableDying s c ∨
        (s.cableObjects c).syncStatus = .activated ∨
          (s.cableObjects c).syncStatus = .deactivating := by
      rw [enqueueCableDeactivation_dying, hsession]
      simp only [true_and]
      rfl
    have hintime : ComesInTime a i o s .destroy ↔
        CableDying ((s.unplug a).enqueueCableDeactivation c) c := by
      rw [hdying]
      simp [ComesInTime, hfind]
    rw [hintime]
    refine ⟨fun hgranted => ?_, fun hdies => hu.gone hdrained (hfading fun d hd hda => ?_)⟩
    · by_contra hlives
      have hfound := (hstays ⟨c, htouches.cables ▸ hc, (htouches.address c).trans hca, hlives⟩).found
      rw [hgranted.1] at hfound
      cases hfound
    · rw [htouches.cables] at hd
      rw [htouches.address] at hda
      rw [traced.single d hd c hc hda hca]
      exact hdies

/-- A client that knows the plugs and has no cable between them. -/
structure Unplugged (a : ZstCableAddress) (i o : EntityId) (s : ZstSession) : Prop where
  knows : KnowsPlugs a i o s.hierarchy
  nodupInput : (s.hierarchy.entities i).cables.Nodup
  nodupOutput : (s.hierarchy.entities o).cables.Nodup
  known : ∀ c, c ∈ s.cables ∨ c ∈ s.synchronisableEvents ∨ c ∈ s.cleanupOps → c < s.nextCable
  free : ∀ c ∈ s.cables, (s.cableObjects c).address ≠ a
  lacks : Lacks a i o s

theorem Unplugged.traced (unplugged : Unplugged a i o s) : CableTraced a i o s :=
  ⟨unplugged.knows, unplugged.nodupInput, unplugged.nodupOutput, unplugged.known,
    fun c hc _ _ hca => absurd hca (unplugged.free c hc),
    fun c hc hca => absurd hca (unplugged.free c hc), fun _ => unplugged.lacks⟩

/-- However messages and drains are interleaved, the client ends with what the
last message asks for if and only if that message comes in time. -/
theorem granted_iff_inTime (before loop : List ClientEvent) (last : ClientEvent)
    {start u : ZstSession} (hlast : last = .create ∨ last = .destroy)
    (hstart : Unplugged a i o start)
    (hkeeps : Library.Along (step a) (KeepsPlugs a i o) start (before ++ last :: loop))
    (hbefore : Library.run (step a) start before = .ok s)
    (hloop : Library.run (step a) s (last :: loop) = .ok u)
    (hdrains : ∀ event ∈ loop, drains event = true) (hdrained : NothingDeferred u) :
    Granted a i o u last ↔ ComesInTime a i o s last := by
  obtain ⟨hfirst, hlater⟩ := Library.along_append.mp hkeeps
  have htraced : CableTraced a i o s :=
    Library.run_invariant (fun _ _ _ hs hkept hrun => hs.step hkept hrun) hstart.traced hfirst
      hbefore
  have hlater := hlater s hbefore
  obtain ⟨t, ht, hrest⟩ := Library.run_cons_ok.mp hloop
  rcases hlast with rfl | rfl
  · exact granted_create htraced ht hdrains (hlater.2 t ht) hrest
  · exact granted_destroy htraced ht hdrains (hlater.2 t ht) hrest hdrained

end Traces

/-! ## The application polls -/

section Polls

theorem processCableItem_queue (s : ZstSession) (queue : List CableId) (c : CableId) :
    { s with synchronisableEvents := queue }.processCableItem c =
      { s.processCableItem c with synchronisableEvents := queue } := by
  have hevents : ∀ (events : List SynchronisableEvent) (u : ZstSession),
      events.foldl (fun s event => s.processCableEvent c event)
          { u with synchronisableEvents := queue } =
        { events.foldl (fun s event => s.processCableEvent c event) u with
          synchronisableEvents := queue } := by
    intro events
    induction events with
    | nil => exact fun _ => rfl
    | cons event events ih =>
      intro u
      have hlater := ih (u.processCableEvent c event)
      cases event <;> exact hlater
  exact hevents (s.cableObjects c).synchronisableEvents
    (s.modifyCable c fun x => { x with synchronisableEvents := [] })

/-- `process_events` of the client's session is a run of these steps. -/
theorem processEvents_run (a : ZstCableAddress) (v : Overrides) (fuel : Nat) (s : ZstSession) :
    Library.run (step a) s
        (.hierarchy (ZstClientHierarchy.processEvents v fuel s.hierarchy) ::
          List.replicate s.synchronisableEvents.length .cableItem ++ [.reap]) =
      .ok (processEvents v fuel s) := by
  have hitems : ∀ (queue : List CableId) (u : ZstSession), Library.run (step a)
      { u with synchronisableEvents := queue } (List.replicate queue.length .cableItem) =
        .ok (queue.foldl ZstSession.processCableItem { u with synchronisableEvents := [] }) := by
    intro queue
    induction queue with
    | nil => exact fun _ => rfl
    | cons c queue ih =>
      intro u
      refine Library.run_cons_ok.mpr ⟨_, rfl, ?_⟩
      rw [List.foldl_cons, processCableItem_queue u []]
      exact (congrArg (fun w => Library.run (step a) w _) (processCableItem_queue u queue c)).trans
        (ih (u.processCableItem c))
  have hitems := hitems s.synchronisableEvents
    { s with hierarchy := ZstClientHierarchy.processEvents v fuel s.hierarchy }
  exact Library.run_cons_ok.mpr ⟨_, rfl, Library.run_append_ok.mpr ⟨_, hitems, rfl⟩⟩

/-- The client `ada` with an input plug, and `bob` with an output plug. -/
def desk : ZstSession where
  hierarchy := ofList
    [{ entityType := .performer, uri := ["ada"] },
      { entityType := .plug, uri := ["ada", "in"], direction := .inJack },
      { entityType := .performer, uri := ["bob"], isProxy := true },
      { entityType := .plug, uri := ["bob", "out"], direction := .outJack, isProxy := true }]
    (some 0)
  cableObjects _ := { address := ⟨[], []⟩, input := 0, output := 0 }

def patch : ZstCableAddress :=
  ⟨["ada", "in"], ["bob", "out"]⟩

theorem desk_unplugged : Unplugged patch 1 3 desk :=
  ⟨⟨by decide, by decide, by decide, by decide, by decide, by decide⟩, by decide, by decide,
    by simp [desk], by simp [desk], by decide, by decide⟩

/-- The cable is destroyed and reaped before it is created again. -/
theorem granted_iff_inTime_patch : ∃ s u,
    Library.run (step patch) desk [.create, .destroy, .cableItem, .reap] = .ok s ∧
      Library.run (step patch) s [.create, .cableItem, .reap] = .ok u ∧ NothingDeferred u ∧
      Granted patch 1 3 u .create := by
  obtain ⟨s, u, hs, hu, hdrained, hfree⟩ : ∃ s u,
      Library.run (step patch) desk [.create, .destroy, .cableItem, .reap] = .ok s ∧
      Library.run (step patch) s [.create, .cableItem, .reap] = .ok u ∧ NothingDeferred u ∧
      s.findCable patch = none :=
    ⟨_, _, rfl, rfl, ⟨rfl, rfl⟩, rfl⟩
  refine ⟨s, u, hs, hu, hdrained,
    (granted_iff_inTime [.create, .destroy, .cableItem, .reap] [.cableItem, .reap] .create
      (Or.inl rfl) desk_unplugged ?_ hs hu (by decide) hdrained).mpr (Or.inl hfree)⟩
  simp [Library.Along, KeepsPlugs]

/-- The message to create the cable again comes before the application polls: the cable is lost. -/
theorem early_not_granted :
    ¬ ∀ (a : ZstCableAddress) (i o : EntityId) (before loop : List ClientEvent)
      (last : ClientEvent) (start s u : ZstSession), last = .create ∨ last = .destroy →
      Unplugged a i o start →
      Library.Along (step a) (KeepsPlugs a i o) start (before ++ last :: loop) →
      Library.run (step a) start before = .ok s → Library.run (step a) s (last :: loop) = .ok u →
      (∀ event ∈ loop, drains event = true) → NothingDeferred u → Granted a i o u last := by
  intro hall
  obtain ⟨s, u, hs, hu, hdrained, hgone⟩ : ∃ s u,
      Library.run (step patch) desk [.create, .destroy] = .ok s ∧
      Library.run (step patch) s [.create, .cableItem, .reap] = .ok u ∧ NothingDeferred u ∧
      u.findCable patch = none :=
    ⟨_, _, rfl, rfl, ⟨rfl, rfl⟩, rfl⟩
  have hgranted := hall patch 1 3 [.create, .destroy] [.cableItem, .reap] .create desk s u
    (Or.inl rfl) desk_unplugged (by simp [Library.Along, KeepsPlugs]) hs hu (by decide) hdrained
  have hfound := hgranted.1
  rw [hgone] at hfound
  cases hfound

end Polls

end Showtime.ClientCables
