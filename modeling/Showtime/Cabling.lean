import Showtime.Indexed
import Showtime.Naming
/-!
# The stage's cables

What a step of the stage does to the cables of its session, and what it tells
about them. A cable that is destroyed stays in the session until the reaper has
run, but is never activated again.
-/

namespace Showtime.Cabling

open ZstHierarchy ZstStageHierarchy ZstStageSession ZstStage Sending Naming
open ConnectReplies (plugged requestedCable makeRoom)

/-- No cable of this address is in use: those that are left wait for the reaper. -/
def NoneInUse (s : ZstSession) (a : ZstCableAddress) : Prop :=
  ∀ c ∈ s.cables, (s.cableObjects c).address = a → (s.cableObjects c).syncStatus ≠ .activated

/-- The session knows its cables by number and by address. -/
structure Cabled (s : ZstSession) : Prop where
  known : ∀ c, c ∈ s.cables ∨ c ∈ s.synchronisableEvents ∨ c ∈ s.cleanupOps → c < s.nextCable
  distinct : ∀ c ∈ s.cables, ∀ d ∈ s.cables,
    (s.cableObjects c).address = (s.cableObjects d).address → c = d
  quiet : ∀ c, .activated ∉ (s.cableObjects c).synchronisableEvents

/-- Some cables may be destroyed or gone, and none is new. -/
structure Unplugs (s t : ZstSession) : Prop where
  next : t.nextCable = s.nextCable
  cables : ∀ c ∈ t.cables, c ∈ s.cables
  pending : ∀ c, c ∈ t.synchronisableEvents ∨ c ∈ t.cleanupOps →
    c ∈ s.cables ∨ c ∈ s.synchronisableEvents ∨ c ∈ s.cleanupOps
  address : ∀ c, (t.cableObjects c).address = (s.cableObjects c).address
  status : ∀ c, (s.cableObjects c).syncStatus ≠ .activated →
    (t.cableObjects c).syncStatus ≠ .activated
  quiet : ∀ c, .activated ∉ (s.cableObjects c).synchronisableEvents →
    .activated ∉ (t.cableObjects c).synchronisableEvents

/-- One more cable is plugged in. -/
structure Plugs (s t : ZstSession) (a : ZstCableAddress) : Prop where
  next : t.nextCable = s.nextCable + 1
  cables : ∀ c ∈ t.cables, c ∈ s.cables ∨ c = s.nextCable
  pending : ∀ c, c ∈ t.synchronisableEvents ∨ c ∈ t.cleanupOps →
    c ∈ s.cables ∨ c ∈ s.synchronisableEvents ∨ c ∈ s.cleanupOps
  address : ∀ c, c ≠ s.nextCable → (t.cableObjects c).address = (s.cableObjects c).address
  status : ∀ c, c ≠ s.nextCable → (s.cableObjects c).syncStatus ≠ .activated →
    (t.cableObjects c).syncStatus ≠ .activated
  quiet : ∀ c, .activated ∉ (s.cableObjects c).synchronisableEvents →
    .activated ∉ (t.cableObjects c).synchronisableEvents
  new : (t.cableObjects s.nextCable).address = a

namespace Unplugs

variable {s t u : ZstSession}

/-- Nothing but the hierarchy has changed. -/
theorem of_hierarchy (ht : t = { s with hierarchy := t.hierarchy }) : Unplugs s t := by
  rw [ht]
  exact ⟨rfl, fun _ hc => hc, fun _ hc => Or.inr hc, fun _ => rfl, fun _ hc => hc,
    fun _ hc => hc⟩

theorem refl (s : ZstSession) : Unplugs s s :=
  of_hierarchy rfl

theorem trans (hst : Unplugs s t) (htu : Unplugs t u) : Unplugs s u := by
  refine ⟨htu.next.trans hst.next, fun c hc => hst.cables c (htu.cables c hc), fun c hc => ?_,
    fun c => (htu.address c).trans (hst.address c),
    fun c hc => htu.status c (hst.status c hc), fun c hc => htu.quiet c (hst.quiet c hc)⟩
  rcases htu.pending c hc with hc | hc
  · exact Or.inl (hst.cables c hc)
  · exact hst.pending c hc

theorem cabled (hst : Unplugs s t) (cabled : Cabled s) : Cabled t := by
  refine ⟨fun c hc => ?_, fun c hc d hd hcd => ?_, fun c => hst.quiet c (cabled.quiet c)⟩
  · rw [hst.next]
    refine cabled.known c ?_
    rcases hc with hc | hc
    · exact Or.inl (hst.cables c hc)
    · exact hst.pending c hc
  · rw [hst.address, hst.address] at hcd
    exact cabled.distinct c (hst.cables c hc) d (hst.cables d hd) hcd

theorem doomed (hst : Unplugs s t) {a : ZstCableAddress} (hs : NoneInUse s a) : NoneInUse t a := by
  intro c hc ha
  rw [hst.address] at ha
  exact hst.status c (hs c (hst.cables c hc) ha)

theorem plugs (hst : Unplugs s t) {a : ZstCableAddress} (htu : Plugs t u a) : Plugs s u a := by
  refine ⟨by rw [htu.next, hst.next], fun c hc => ?_, fun c hc => ?_, fun c hc => ?_,
    fun c hne hc => htu.status c (hst.next ▸ hne) (hst.status c hc),
    fun c hc => htu.quiet c (hst.quiet c hc), by rw [← hst.next]; exact htu.new⟩
  · rcases htu.cables c hc with hc | hc
    · exact Or.inl (hst.cables c hc)
    · exact Or.inr (hst.next ▸ hc)
  · rcases htu.pending c hc with hc | hc
    · exact Or.inl (hst.cables c hc)
    · exact hst.pending c hc
  · exact (htu.address c (hst.next ▸ hc)).trans (hst.address c)

end Unplugs

namespace Plugs

variable {s t u : ZstSession} {a : ZstCableAddress}

theorem trans (hst : Plugs s t a) (ht : u = { t with hierarchy := u.hierarchy }) :
    Plugs s u a := by
  rw [ht]
  exact ⟨hst.next, hst.cables, hst.pending, hst.address, hst.status, hst.quiet, hst.new⟩

theorem cabled (hst : Plugs s t a) (cabled : Cabled s) (hfree : s.findCable a = none) :
    Cabled t := by
  have hold : ∀ c ∈ s.cables, c ≠ s.nextCable := fun c hc =>
    Nat.ne_of_lt (cabled.known c (Or.inl hc))
  have hother : ∀ c ∈ s.cables, (t.cableObjects c).address ≠ a := fun c hc => by
    rw [hst.address c (hold c hc)]
    simpa using (List.find?_eq_none.mp hfree) c hc
  refine ⟨fun c hc => ?_, fun c hc d hd hcd => ?_, fun c => hst.quiet c (cabled.quiet c)⟩
  · rw [hst.next]
    rcases hc with hc | hc
    · rcases hst.cables c hc with hc | hc
      · exact Nat.lt_succ_of_lt (cabled.known c (Or.inl hc))
      · exact hc ▸ Nat.lt_succ_self s.nextCable
    · exact Nat.lt_succ_of_lt (cabled.known c (hst.pending c hc))
  · rcases hst.cables c hc with hc | rfl
    · rcases hst.cables d hd with hd | rfl
      · rw [hst.address c (hold c hc), hst.address d (hold d hd)] at hcd
        exact cabled.distinct c hc d hd hcd
      · rw [hst.new] at hcd
        exact absurd hcd (hother c hc)
    · rcases hst.cables d hd with hd | rfl
      · rw [hst.new] at hcd
        exact absurd hcd.symm (hother d hd)
      · rfl

/-- Other cables that are doomed stay so. -/
theorem doomed (hst : Plugs s t a) (cabled : Cabled s) {b : ZstCableAddress} (hne : b ≠ a)
    (hs : NoneInUse s b) : NoneInUse t b := by
  intro c hc hb
  rcases hst.cables c hc with hc | rfl
  · have hold : c ≠ s.nextCable := Nat.ne_of_lt (cabled.known c (Or.inl hc))
    rw [hst.address c hold] at hb
    exact hst.status c hold (hs c hc hb)
  · exact absurd (hb.symm.trans hst.new) hne

end Plugs

/-! ## Plugging and unplugging -/

section Cables

variable {s : ZstSession}

theorem modifyCable_object (s : ZstSession) (c d : CableId) (f : ZstCable → ZstCable) :
    (s.modifyCable c f).cableObjects d = if d = c then f (s.cableObjects c)
      else s.cableObjects d := by
  simp [ZstSession.modifyCable, Function.update_apply]

theorem enqueueCableDeactivation_unplugs {c : CableId} (hc : c ∈ s.cables) :
    Unplugs s (s.enqueueCableDeactivation c) := by
  unfold ZstSession.enqueueCableDeactivation
  split
  · refine ⟨rfl, fun _ hd => hd, fun d hd => ?_, fun d => ?_, fun d hd => ?_, fun d hd => ?_⟩
    · rcases hd with hd | hd
      · rcases List.mem_append.mp hd with hd | hd
        · exact Or.inr (Or.inl hd)
        · exact Or.inl (List.mem_singleton.mp hd ▸ hc)
      · exact Or.inr (Or.inr hd)
    · rw [modifyCable_object]
      split
      · rename_i hdc
        rw [hdc]
      · rfl
    · rw [modifyCable_object]
      split
      · simp
      · exact hd
    · rw [modifyCable_object]
      split
      · rename_i hdc
        simpa [hdc] using hd
      · exact hd
  · exact .refl s

theorem enqueueCableDeactivation_status (s : ZstSession) (c : CableId) :
    ((s.enqueueCableDeactivation c).cableObjects c).syncStatus ≠ .activated := by
  unfold ZstSession.enqueueCableDeactivation
  split
  · simp [ZstSession.modifyCable]
  · rename_i hstatus
    exact fun hactivated => hstatus (Or.inl hactivated)

/-- Unplugging itself only concerns the plugs. -/
theorem destroyCableComplete_eq (s : ZstSession) (c : CableId) :
    ∃ u : ZstSession, u = { s with hierarchy := u.hierarchy } ∧
      s.destroyCableComplete c = u.enqueueCableDeactivation c := by
  unfold ZstSession.destroyCableComplete
  simp only
  generalize (s.cableObjects c).address = address
  cases s.findInputPlug address.inputURI with
  | none =>
    simp only
    split
    · exact ⟨s.plugRemoveCable _ address, rfl, rfl⟩
    · exact ⟨s, rfl, rfl⟩
  | some input =>
    simp only
    split
    · exact ⟨(s.plugRemoveCable input address).plugRemoveCable _ address, rfl, rfl⟩
    · exact ⟨s.plugRemoveCable input address, rfl, rfl⟩

theorem destroyCable_unplugs {c : CableId} (hc : c ∈ s.cables) :
    Unplugs s (destroyCable s c) ∧
      ((destroyCable s c).cableObjects c).syncStatus ≠ .activated := by
  unfold destroyCable
  obtain ⟨u, hu, hcomplete⟩ := destroyCableComplete_eq (onHierarchy s fun h =>
    broadcast h (.cableDestroyRequest (s.cableObjects c).address)) c
  rw [hcomplete]
  have hsu : Unplugs s u := .of_hierarchy hu
  have hmem : c ∈ u.cables := by
    rw [hu]
    exact hc
  exact ⟨hsu.trans (enqueueCableDeactivation_unplugs hmem), enqueueCableDeactivation_status u c⟩

/-- What destroying some cables does, and what it tells. -/
theorem destroyCables_unplugs (cables : List CableId) (hcables : ∀ c ∈ cables, c ∈ s.cables) :
    let t := cables.foldl destroyCable s
    Unplugs s t ∧ (∀ c ∈ cables, (t.cableObjects c).syncStatus ≠ .activated) ∧
      Sends (fun m => ∃ c ∈ cables, m.content = .cableDestroyRequest (s.cableObjects c).address)
        s.hierarchy t.hierarchy := by
  induction cables generalizing s with
  | nil => exact ⟨.refl s, by simp, .refl _⟩
  | cons c cables ih =>
    obtain ⟨hfirst, hstatus⟩ := destroyCable_unplugs (hcables c List.mem_cons_self)
    have hsame := (ConnectReplies.destroyCable_keeps s c).2
    obtain ⟨hrest, hothers, hsends⟩ := ih (s := destroyCable s c) fun d hd => by
      rw [hsame.cables]
      exact hcables d (List.mem_cons_of_mem _ hd)
    refine ⟨hfirst.trans hrest, fun d hd => ?_, .trans ?_ (hsends.mono fun m hm => ?_)⟩
    · rcases List.mem_cons.mp hd with rfl | hd
      · exact hrest.status d hstatus
      · exact hothers d hd
    · exact (destroyCable_sends s c).mono fun m hm => ⟨c, List.mem_cons_self, hm⟩
    · obtain ⟨d, hd, hcontent⟩ := hm
      exact ⟨d, List.mem_cons_of_mem _ hd, by rw [hcontent, hsame.address]⟩

/-- The clients are told of doomed cables only. -/
theorem destroyCables_doomed (cabled : Cabled s) (cables : List CableId)
    (hcables : ∀ c ∈ cables, c ∈ s.cables) :
    let t := cables.foldl destroyCable s
    Unplugs s t ∧ Sends (fun m => ∃ c ∈ s.cables,
        m.content = .cableDestroyRequest (s.cableObjects c).address ∧
          NoneInUse t (s.cableObjects c).address) s.hierarchy t.hierarchy := by
  obtain ⟨hunplugs, hstatus, hsends⟩ := destroyCables_unplugs cables hcables
  refine ⟨hunplugs, hsends.mono fun m hm => ?_⟩
  obtain ⟨c, hc, hcontent⟩ := hm
  refine ⟨c, hcables c hc, hcontent, fun d hd hdc => ?_⟩
  rw [hunplugs.address] at hdc
  rw [cabled.distinct d (hunplugs.cables d hd) c (hcables c hc) hdc]
  exact hstatus c hc

theorem mem_getChildCables (s : ZstSession) (e : EntityId) :
    ∀ c ∈ s.getChildCables e, c ∈ s.cables := by
  unfold ZstSession.getChildCables
  refine List.foldlRecOn (motive := fun (bundle : List CableId) => ∀ c ∈ bundle, c ∈ s.cables) _ _
    (by simp) fun bundle hbundle d _ => ?_
  exact ZstSession.mem_cables_of_mem_plugCables hbundle

theorem makeRoom_doomed (cabled : Cabled s) (input : EntityId) :
    Unplugs s (makeRoom s input) ∧ Sends (fun m => ∃ c ∈ s.cables,
        m.content = .cableDestroyRequest (s.cableObjects c).address ∧
          NoneInUse (makeRoom s input) (s.cableObjects c).address) s.hierarchy
        (makeRoom s input).hierarchy := by
  unfold makeRoom
  split
  · exact destroyCables_doomed cabled _ (mem_getChildCables s input)
  · exact ⟨.refl s, .refl _⟩

/-- A cable between plugs that have none yet is a new one. -/
theorem createCable_plugs {input output : EntityId}
    (hfree : s.findCable ⟨(s.hierarchy.entities input).uri, (s.hierarchy.entities output).uri⟩ =
      none) :
    Plugs s (s.createCable input output).1
        ⟨(s.hierarchy.entities input).uri, (s.hierarchy.entities output).uri⟩ ∧
      (s.createCable input output).2 = s.nextCable := by
  unfold ZstSession.createCable
  simp only [hfree]
  refine ⟨⟨rfl, fun c hc => ?_, fun c hc => Or.inr hc, fun c hc => ?_, fun c hc hstatus => ?_,
    fun c hc => ?_, ?_⟩, trivial⟩
  · rcases List.mem_append.mp hc with hc | hc
    · exact Or.inl hc
    · exact Or.inr (List.mem_singleton.mp hc)
  all_goals
    simp only [ZstSession.plugAddCable, ZstSession.modifyPlug_cableObjects]
  · rw [Function.update_of_ne hc]
  · rw [Function.update_of_ne hc]
    exact hstatus
  · rw [Function.update_apply]
    split
    · simp
    · exact hc
  · rw [Function.update_self]

/-- A cable whose object changes, but for its address, on its way out. -/
theorem Unplugs.modifyCable {t : ZstSession} (hst : Unplugs s t) (c : CableId)
    (f : ZstCable → ZstCable) (haddress : ∀ x, (f x).address = x.address)
    (hstatus : ∀ x, x.syncStatus ≠ .activated → (f x).syncStatus ≠ .activated)
    (hquiet : ∀ x, .activated ∉ x.synchronisableEvents → .activated ∉ (f x).synchronisableEvents) :
    Unplugs s (t.modifyCable c f) := by
  refine ⟨hst.next, hst.cables, hst.pending, fun d => ?_, fun d hd => ?_, fun d hd => ?_⟩
  all_goals
    rw [modifyCable_object]
    split
  · rename_i hdc
    rw [haddress, hdc]
    exact hst.address c
  · exact hst.address d
  · rename_i hdc
    exact hstatus _ (hdc ▸ hst.status d hd)
  · exact hst.status d hd
  · rename_i hdc
    exact hquiet _ (hdc ▸ hst.quiet d hd)
  · exact hst.quiet d hd

/-- An event of a cable that is not about to be activated. -/
theorem Unplugs.processCableEvent {t : ZstSession} (hst : Unplugs s t) {c : CableId}
    (hc : c ∈ s.synchronisableEvents) {event : SynchronisableEvent} (hevent : event ≠ .activated) :
    Unplugs s (t.processCableEvent c event) := by
  cases event with
  | activated => exact absurd rfl hevent
  | deactivated =>
    exact hst.modifyCable c (fun x => { x with syncStatus := .deactivated }) (fun _ => rfl)
      (fun _ _ => by simp) fun _ hx => hx
  | destroyed =>
    refine ⟨hst.next, hst.cables, fun d hd => ?_, hst.address, hst.status, hst.quiet⟩
    rcases hd with hd | hd
    · exact hst.pending d (Or.inl hd)
    · rcases List.mem_append.mp hd with hd | hd
      · exact hst.pending d (Or.inr hd)
      · exact Or.inr (Or.inl (List.mem_singleton.mp hd ▸ hc))
  | updated => exact hst

theorem Unplugs.processCableItem {t : ZstSession} (hst : Unplugs s t) {c : CableId}
    (hc : c ∈ s.synchronisableEvents)
    (hquiet : .activated ∉ (t.cableObjects c).synchronisableEvents) :
    Unplugs s (t.processCableItem c) := by
  unfold ZstSession.processCableItem
  have hpopped : Unplugs s (t.modifyCable c fun x => { x with synchronisableEvents := [] }) :=
    hst.modifyCable c _ (fun _ => rfl) (fun _ hx => hx) fun _ _ => by simp
  refine List.foldlRecOn (motive := Unplugs s) _ _ hpopped fun u hu event hevent => ?_
  exact hu.processCableEvent hc fun heq => hquiet (heq ▸ hevent)

theorem cableEvents_unplugs (cabled : Cabled s) : Unplugs s s.processCableItems.reapCables := by
  have hpopped : Unplugs s { s with synchronisableEvents := [] } :=
    ⟨rfl, fun _ hc => hc, fun c hc => Or.inr (hc.imp (fun hc => by simp at hc) id),
      fun _ => rfl, fun _ hc => hc, fun _ hc => hc⟩
  have hitems : Unplugs s s.processCableItems :=
    List.foldlRecOn (motive := Unplugs s) _ _ hpopped fun t ht c hc =>
      ht.processCableItem hc (ht.quiet c (cabled.quiet c))
  refine ⟨hitems.next, fun c hc => hitems.cables c (List.mem_of_mem_filter hc), fun c hc => ?_,
    hitems.address, hitems.status, hitems.quiet⟩
  rcases hc with hc | hc
  · exact hitems.pending c (Or.inl hc)
  · exact absurd hc (by simp [ZstSession.reapCables])

end Cables

/-! ## Steps -/

/-- A request for a cable that passes the checks. -/
def Accepts (s : ZstSession) (a : ZstCableAddress) : StageEvent → Prop
  | .receive msg =>
    msg.content = .cableCreateRequest a ∧
      (getClientFromEndpointUUID s.hierarchy msg.originEndpointUUID).isSome ∧
      s.findCable a = none ∧ (s.findInputPlug a.inputURI).isSome ∧
      (s.findOutputPlug a.outputURI).isSome
  | _ => False

instance (s : ZstSession) (a : ZstCableAddress) : ∀ event, Decidable (Accepts s a event)
  | .receive _ => inferInstanceAs (Decidable (_ ∧ _ ∧ _ ∧ _ ∧ _))
  | .respond _ _ | .heartbeatTimer | .hierarchyEvent | .synchronisableEvent | .cleanup
  | .forgetDead | .cableEvents => inferInstanceAs (Decidable False)

/-- The cable of the request whose handshake a step completes with an OK. -/
def completed (h : ZstHierarchy) : StageEvent → Option CableId
  | .respond message response =>
    match callback h message with
    | some (.clientsConnected _ _ (.cable cable _ _)) =>
      if verifySignal response .ok then some cable else none
    | _ => none
  | _ => none

/-- A cable that is told of is one that was just accepted or connected, and a
cable whose end is told is doomed. -/
def News (s : ZstSession) (event : StageEvent) (t : ZstSession) (m : Outgoing) : Prop :=
  (∀ a, m.content = .cableCreateRequest a → Accepts s a event ∨
    ∃ cable ∈ s.cables, (s.cableObjects cable).address = a ∧
      completed s.hierarchy event = some cable) ∧
  ∀ a, m.content = .cableDestroyRequest a → NoneInUse t a

section Steps

variable {s t : ZstSession}

/-- The message is not about a cable. -/
def Cableless (m : Outgoing) : Prop :=
  match m.content with
  | .cableCreateRequest _ | .cableDestroyRequest _ => False
  | _ => True

theorem cableless_of_hierarchical {m : Outgoing} (hm : Hierarchical m) : Cableless m := by
  unfold Hierarchical at hm
  unfold Cableless
  split
  all_goals
    simp_all

theorem cableless_of_handshake {m : Outgoing} (hm : IsHandshake m) : Cableless m := by
  unfold IsHandshake at hm
  unfold Cableless
  split
  all_goals
    simp_all

theorem Cableless.news {m : Outgoing} (hm : Cableless m) (s : ZstSession) (event : StageEvent)
    (t : ZstSession) : News s event t m := by
  unfold Cableless at hm
  refine ⟨fun a ha => ?_, fun a ha => ?_⟩
  all_goals
    rw [ha] at hm
    exact hm.elim

/-- A step of the session that leaves its cables alone. -/
def Hushed (s t : ZstSession) : Prop :=
  t = { s with hierarchy := t.hierarchy } ∧ Sends Cableless s.hierarchy t.hierarchy

namespace Hushed

variable {u : ZstSession}

theorem refl (s : ZstSession) : Hushed s s :=
  ⟨rfl, .refl _⟩

theorem trans (hst : Hushed s t) (htu : Hushed t u) : Hushed s u := by
  refine ⟨?_, hst.2.trans htu.2⟩
  rw [htu.1, hst.1]

theorem of_onlySends (hst : OnlySends IsHandshake s t) : Hushed s t := by
  obtain ⟨messages, hmessages, rfl⟩ := hst
  exact ⟨rfl, messages, fun m hm => cableless_of_handshake (hmessages m hm), rfl⟩

theorem onHierarchy {f : ZstHierarchy → ZstHierarchy}
    (hsends : Sends Cableless s.hierarchy (f s.hierarchy)) :
    Hushed s (ZstStageSession.onHierarchy s f) :=
  ⟨rfl, hsends⟩

end Hushed

/-- What a callback or a handler says once the clients are connected. -/
theorem cableConnectFinished_sends {cable : CableId} {sender : EntityId} {id : ZstMsgID}
    {signal : Signal} (hrun : cableConnectFinished s cable sender id signal = .ok t) :
    t = { s with hierarchy := t.hierarchy } ∧
      Sends (fun m => Hierarchical m ∨
        cable ∈ s.cables ∧ m.content = .cableCreateRequest (s.cableObjects cable).address)
        s.hierarchy t.hierarchy := by
  obtain ⟨told, htold, -, rfl⟩ := cableConnectFinished_succeeded hrun
  have hreply : Sends Hierarchical told (replyWithSignal told sender signal id) := by
    refine (Sends.whisperTo told sender _ _ _).mono fun m hm => ?_
    rw [Hierarchical, hm]
    trivial
  refine ⟨rfl, .trans ?_ (hreply.mono fun _ => Or.inl)⟩
  rcases htold with ⟨-, hmem, rfl⟩ | ⟨-, rfl⟩
  · exact (Sends.broadcast s.hierarchy _ none).mono fun m hm => Or.inr ⟨hmem, hm⟩
  · exact .refl _

/-- The new cable of an accepted request, and the cables it displaces. -/
theorem plugged_plugs (cabled : Cabled s) {input output : EntityId} {a : ZstCableAddress}
    (ha : a = ⟨(s.hierarchy.entities input).uri, (s.hierarchy.entities output).uri⟩)
    (hfree : s.findCable a = none) :
    Plugs s (plugged s input output) a ∧ requestedCable s input output = s.nextCable ∧
      Sends
        (fun m => ∃ b, m.content = .cableDestroyRequest b ∧ NoneInUse (plugged s input output) b)
        s.hierarchy (plugged s input output).hierarchy := by
  obtain ⟨hroom, hsends⟩ := makeRoom_doomed cabled input
  obtain ⟨hkeeps, hsame⟩ := ConnectReplies.makeRoom_keeps s input
  have huri := hkeeps.field Entity.uri fun _ => rfl
  have hfree' : (makeRoom s input).findCable
      ⟨((makeRoom s input).hierarchy.entities input).uri,
        ((makeRoom s input).hierarchy.entities output).uri⟩ = none := by
    rw [huri, huri, hsame.findCable, ← ha]
    exact hfree
  have hplugs := (createCable_plugs hfree').1
  rw [huri, huri, ← ha] at hplugs
  refine ⟨hroom.plugs hplugs, ?_, .trans (hsends.mono fun m hm => ?_) (.silent ?_)⟩
  · rw [requestedCable, ← ha, hfree]
    rfl
  · obtain ⟨c, hc, hcontent, hdoomed⟩ := hm
    refine ⟨_, hcontent, hplugs.doomed (hroom.cabled cabled) ?_ hdoomed⟩
    simpa using (List.find?_eq_none.mp hfree) c hc
  · exact (Mute.createCable _ input output).sent

/-- What a cable request does. -/
theorem createCableHandler_cables (cabled : Cabled s) (indexed : Indexed s.hierarchy)
    {msg : ZstStageMessage} {a : ZstCableAddress} {sender : EntityId} {response : Signal}
    (hcontent : msg.content = .cableCreateRequest a)
    (hclient : getClientFromEndpointUUID s.hierarchy msg.originEndpointUUID = some sender)
    (hrun : createCableHandler s msg a sender = .ok (t, response)) :
    (t = s ∨ Accepts s a (.receive msg) ∧ Plugs s t a) ∧
      Sends (News s (.receive msg) t) s.hierarchy t.hierarchy := by
  rcases createCableHandler_ok hrun with
    ⟨-, rfl⟩ | ⟨-, input, output, p, q, hfree, hinput, houtput, -, -, hfinish⟩
  · exact ⟨Or.inl rfl, .refl _⟩
  have haccepts : Accepts s a (.receive msg) :=
    ⟨hcontent, by rw [hclient]; rfl, hfree, by rw [hinput]; rfl, by rw [houtput]; rfl⟩
  have ha : a = ⟨(s.hierarchy.entities input).uri, (s.hierarchy.entities output).uri⟩ := by
    rw [indexed.findEntity_uri (Option.filter_eq_some_iff.mp hinput).1,
      indexed.findEntity_uri (Option.filter_eq_some_iff.mp houtput).1]
  obtain ⟨hplugs, -, hsends⟩ := plugged_plugs cabled ha hfree
  have haddress := plugged_address s input output
  rw [← ha] at haddress
  have hlater : ∀ {u : ZstSession}, u = { plugged s input output with hierarchy := u.hierarchy } →
      Sends (News s (.receive msg) u) s.hierarchy (plugged s input output).hierarchy :=
    fun {u} hu => hsends.mono fun m hm => by
      obtain ⟨b, hb, hdoomed⟩ := hm
      refine ⟨fun c hc => ?_, fun c hc => ?_⟩
      · rw [hb] at hc
        cases hc
      · rw [hb] at hc
        cases hc
        exact (Unplugs.of_hierarchy hu).doomed hdoomed
  split at hfinish
  · obtain ⟨ht, hfinished⟩ := cableConnectFinished_sends hfinish
    refine ⟨Or.inr ⟨haccepts, hplugs.trans ht⟩, (hlater ht).trans (hfinished.mono fun m hm => ?_)⟩
    rcases hm with hm | ⟨-, hm⟩
    · exact (cableless_of_hierarchical hm).news s _ t
    · refine ⟨fun b hb => Or.inl ?_, fun b hb => ?_⟩
      · rw [hm, haddress] at hb
        cases hb
        exact haccepts
      · rw [hm] at hb
        cases hb
  · have honly := connectClients_sends (plugged s input output) p q
      (.cable (requestedCable s input output) sender msg.id)
    rw [← hfinish] at honly
    obtain ⟨messages, hmessages, ht⟩ := honly
    have hu : t = { plugged s input output with hierarchy := t.hierarchy } := by
      rw [ht]
      rfl
    refine ⟨Or.inr ⟨haccepts, hplugs.trans hu⟩, (hlater hu).trans ⟨messages, fun m hm => ?_, ?_⟩⟩
    · exact (cableless_of_handshake (hmessages m hm)).news s _ t
    · rw [ht]
      rfl

/-- The clients are told of the cables that go. -/
theorem leaving_cables (cabled : Cabled s) (cables : List CableId)
    (hcables : ∀ c ∈ cables, c ∈ s.cables) (event : StageEvent) :
    Unplugs s (cables.foldl destroyCable s) ∧
      Sends (News s event (cables.foldl destroyCable s)) s.hierarchy
        (cables.foldl destroyCable s).hierarchy := by
  obtain ⟨hunplugs, hsends⟩ := destroyCables_doomed cabled cables hcables
  refine ⟨hunplugs, hsends.mono fun m hm => ?_⟩
  obtain ⟨c, -, hcontent, hdoomed⟩ := hm
  refine ⟨fun a ha => ?_, fun a ha => ?_⟩
  all_goals
    rw [hcontent] at ha
    cases ha
  exact hdoomed

/-- A request to destroy a cable dooms it. -/
theorem destroyCableHandler_cables (cabled : Cabled s) (a : ZstCableAddress) (event : StageEvent) :
    Unplugs s (destroyCableHandler s a).1 ∧
      Sends (News s event (destroyCableHandler s a).1) s.hierarchy
        (destroyCableHandler s a).1.hierarchy := by
  unfold destroyCableHandler
  split
  · rename_i c hfind
    exact leaving_cables cabled [c] (by simpa using List.mem_of_find?_eq_some hfind) event
  · exact ⟨.refl s, .refl _⟩

theorem observeEntityHandler_hushed {msg : ZstStageMessage} {path : ZstURI} {sender : EntityId}
    {response : Signal} (hrun : observeEntityHandler s msg path sender = .ok (t, response)) :
    Hushed s t := by
  by_cases hpath : path = []
  · unfold observeEntityHandler firstSegment at hrun
    rw [if_pos hpath] at hrun
    cases hrun
  rw [ConnectReplies.observeEntityHandler_eq s msg path sender hpath] at hrun
  split at hrun
  · obtain ⟨rfl, -⟩ := Prod.mk.inj (Except.ok.inj hrun)
    exact .refl s
  · split at hrun
    · obtain ⟨rfl, -⟩ := Prod.mk.inj (Except.ok.inj hrun)
      exact .refl s
    · split at hrun
      · obtain ⟨rfl, -⟩ := Prod.mk.inj (Except.ok.inj hrun)
        exact .refl s
      · obtain ⟨rfl, -⟩ := Prod.mk.inj (Except.ok.inj hrun)
        exact .of_onlySends (connectClients_sends s _ _ _)

theorem aquireEntityOwnershipHandler_hushed {path newOwner : ZstURI} {response : Signal}
    (hrun : aquireEntityOwnershipHandler s path newOwner = .ok (t, response)) : Hushed s t := by
  have htold : ∀ (u : ZstSession) entity owner, Hushed u (onHierarchy u fun h =>
      broadcast h (.entityTakeOwnershipRequest (h.entities entity).uri owner)) :=
    fun u entity owner => .onHierarchy <| (Sends.broadcast u.hierarchy _ none).mono fun m hm => by
      rw [Cableless, hm]
      trivial
  unfold aquireEntityOwnershipHandler at hrun
  split at hrun
  · obtain ⟨rfl, -⟩ := Prod.mk.inj (Except.ok.inj hrun)
    exact .refl s
  rename_i entity hentity
  dsimp only at hrun
  split at hrun
  · obtain ⟨found, -, hrun⟩ := Library.bind_ok.mp hrun
    obtain ⟨rfl, -⟩ := Prod.mk.inj (Except.ok.inj hrun)
    exact (Hushed.onHierarchy (.silent rfl)).trans (htold _ entity [])
  · split at hrun
    · obtain ⟨rfl, -⟩ := Prod.mk.inj (Except.ok.inj hrun)
      exact .refl s
    · rename_i owner howner
      obtain ⟨found, -, hrun⟩ := Library.bind_ok.mp hrun
      obtain ⟨rfl, -⟩ := Prod.mk.inj (Except.ok.inj hrun)
      have howned : Hushed s (onHierarchy s fun h =>
          h.modify entity fun x => setOwner x (h.entities owner).uri) :=
        .onHierarchy (.silent rfl)
      refine (howned.trans (.of_onlySends ?_)).trans (htold _ entity newOwner)
      exact OnlySends.foldl (fun s receiver => connectClients_sends s receiver owner .none) found _

/-- What a step does to the cables. -/
def Recables (s : ZstSession) (event : StageEvent) (t : ZstSession) : Prop :=
  Unplugs s t ∨ ∃ a, Accepts s a event ∧ Plugs s t a

/-- What the handlers of the session do to the cables, and what they tell, but
for the graph snapshot. -/
theorem sessionDispatch_cables (cabled : Cabled s) (indexed : Indexed s.hierarchy)
    {msg : ZstStageMessage} {sender : EntityId} {response : Signal}
    (hclient : getClientFromEndpointUUID s.hierarchy msg.originEndpointUUID = some sender)
    (hrun : ZstStageSession.dispatch s msg sender = .ok (t, response)) :
    Recables s (.receive msg) t ∧ (syncer s (.receive msg) = none →
      Sends (News s (.receive msg) t) s.hierarchy t.hierarchy) := by
  have hhushed : Hushed s t → Recables s (.receive msg) t ∧ (syncer s (.receive msg) = none →
      Sends (News s (.receive msg) t) s.hierarchy t.hierarchy) := fun hst =>
    ⟨Or.inl (.of_hierarchy hst.1), fun _ => hst.2.mono fun m hm => hm.news s _ t⟩
  unfold ZstStageSession.dispatch at hrun
  split at hrun
  · rename_i signal hcontent
    unfold ZstStageSession.signalHandler at hrun
    split at hrun
    · rename_i hsignal
      obtain ⟨rfl, -⟩ := Prod.mk.inj (Except.ok.inj hrun)
      refine ⟨Or.inl (.of_hierarchy rfl), fun hsync => ?_⟩
      simp [syncer, hcontent, hsignal, hclient] at hsync
    · obtain ⟨rfl, -⟩ := Prod.mk.inj (Except.ok.inj hrun)
      exact hhushed (.refl s)
  · rename_i cable hcontent
    obtain ⟨hcables, hnews⟩ :=
      createCableHandler_cables cabled indexed hcontent hclient hrun
    refine ⟨?_, fun _ => hnews⟩
    rcases hcables with rfl | ⟨haccepts, hplugs⟩
    · exact Or.inl (.refl _)
    · exact Or.inr ⟨cable, haccepts, hplugs⟩
  · rename_i cable hcontent
    obtain rfl : (destroyCableHandler s cable).1 = t := congrArg Prod.fst (Except.ok.inj hrun)
    obtain ⟨hcables, hnews⟩ := destroyCableHandler_cables cabled cable (.receive msg)
    exact ⟨Or.inl hcables, fun _ => hnews⟩
  · exact hhushed (observeEntityHandler_hushed hrun)
  · exact hhushed (aquireEntityOwnershipHandler_hushed hrun)
  · obtain ⟨rfl, -⟩ := Prod.mk.inj (Except.ok.inj hrun)
    exact hhushed (.refl s)

theorem receive_cables (cabled : Cabled s) (indexed : Indexed s.hierarchy)
    {msg : ZstStageMessage} (hrun : receive s msg = .ok t) :
    Recables s (.receive msg) t ∧ (syncer s (.receive msg) = none →
      Sends (News s (.receive msg) t) s.hierarchy t.hierarchy) := by
  obtain ⟨u, hsession, hrun⟩ := Library.bind_ok.mp hrun
  obtain ⟨k, hhierarchy, hrun⟩ := Library.bind_ok.mp hrun
  obtain rfl := Except.ok.inj hrun
  have hlast := hierarchyReceive_hierarchical hhierarchy
  -- what follows the session's own handler leaves the cables alone
  have hfinish : ∀ {w : ZstSession}, u = { w with hierarchy := u.hierarchy } →
      Sends Cableless w.hierarchy u.hierarchy →
      (Recables s (.receive msg) w ∧ (syncer s (.receive msg) = none →
        Sends (News s (.receive msg) w) s.hierarchy w.hierarchy)) →
      Recables s (.receive msg) { u with hierarchy := k } ∧ (syncer s (.receive msg) = none →
        Sends (News s (.receive msg) { u with hierarchy := k }) s.hierarchy k) := by
    intro w hw hsends hdone
    have heq : ({ u with hierarchy := k } : ZstSession) = { w with hierarchy := k } := by rw [hw]
    have hcables : Unplugs w { u with hierarchy := k } := heq ▸ .of_hierarchy rfl
    refine ⟨hdone.1.imp (fun hst => hst.trans hcables) fun ⟨a, ha, hst⟩ => ⟨a, ha, hst.trans heq⟩,
      fun hsync => ?_⟩
    refine .trans ((hdone.2 hsync).mono fun m hm => ⟨hm.1, fun a ha => ?_⟩)
      (.trans (k := u.hierarchy) ?_ ?_)
    · exact hcables.doomed (hm.2 a ha)
    · exact hsends.mono fun m hm => hm.news s _ _
    · exact hlast.mono fun m hm => (cableless_of_hierarchical hm).news s _ _
  unfold ZstStageSession.onReceiveMsg at hsession
  split at hsession
  · obtain rfl := Except.ok.inj hsession
    exact hfinish rfl (.refl _) ⟨Or.inl (.refl s), fun _ => .refl _⟩
  · rename_i sender hclient
    obtain ⟨⟨w, response⟩, hdispatch, hrespond⟩ := Library.bind_ok.mp hsession
    obtain rfl := Except.ok.inj hrespond
    refine hfinish rfl ?_ (sessionDispatch_cables cabled indexed hclient hdispatch)
    exact (Sends.respond w.hierarchy msg response).mono fun _ => cableless_of_hierarchical

/-- A response tells of the cable whose handshake it completes. -/
theorem respond_cables {message : Nat} {response : Option Content}
    (hrun : step s (.respond message response) = .ok t) :
    t = { s with hierarchy := t.hierarchy } ∧
      Sends (News s (.respond message response) t) s.hierarchy t.hierarchy := by
  have hhushed : Hushed s t → t = { s with hierarchy := t.hierarchy } ∧
      Sends (News s (.respond message response) t) s.hierarchy t.hierarchy := fun hst =>
    ⟨hst.1, hst.2.mono fun m hm => hm.news s _ t⟩
  simp only [ZstStage.step] at hrun
  split at hrun
  · rename_i action hcallback
    unfold onRecvResponse at hrun
    split at hrun
    · obtain ⟨k, hfactory, hrun⟩ := Library.bind_ok.mp hrun
      obtain rfl := Except.ok.inj hrun
      refine hhushed ⟨rfl, ?_⟩
      exact (factoryEntityCreated_hierarchical hfactory).mono fun _ => cableless_of_hierarchical
    · rename_i output input follow
      by_cases hok : verifySignal response .ok = true
      · obtain ⟨-, -, hfollow⟩ := clientsConnected_succeeded hok hrun
        have hstop : Hushed s (completeClientConnection s output input) := by
          rw [completeClientConnection_eq]
          refine .onHierarchy ⟨_, fun m hm => ?_, rfl⟩
          unfold Cableless
          rw [whisperMessages_content hm]
          trivial
        unfold onConnected at hfollow
        split at hfollow
        · obtain rfl := Except.ok.inj hfollow
          exact hhushed hstop
        · rename_i cable sender id
          obtain ⟨ht, hsends⟩ := cableConnectFinished_sends hfollow
          refine ⟨by rw [ht, hstop.1], ?_⟩
          refine (hstop.2.mono fun m hm => hm.news s _ t).trans (hsends.mono fun m hm => ?_)
          rcases hm with hm | ⟨hcable, hm⟩
          · exact (cableless_of_hierarchical hm).news s _ t
          · refine ⟨fun a ha => Or.inr ⟨cable, hcable, ?_, ?_⟩, fun a ha => ?_⟩
            case refine_2 => simp only [completed, hcallback, hok, if_true]
            all_goals
              rw [hm] at ha
              cases ha
            rfl
        · rename_i sender id
          obtain ⟨sender, -, hfollow⟩ := Library.bind_ok.mp hfollow
          obtain rfl := Except.ok.inj hfollow
          refine hhushed (hstop.trans (.onHierarchy ?_))
          refine (Sends.whisperTo _ sender _ _ _).mono fun m hm => ?_
          rw [Cableless, hm]
          trivial
      · unfold clientsConnected at hrun
        rw [if_neg hok] at hrun
        obtain rfl := Except.ok.inj hrun
        exact hhushed (.refl s)
    · obtain rfl := Except.ok.inj hrun
      exact hhushed (.refl s)
  · obtain rfl := Except.ok.inj hrun
    exact hhushed (.refl s)

/-- The event loop unplugs what leaves. -/
theorem hierarchyEvent_cables (cabled : Cabled s) (hrun : step s .hierarchyEvent = .ok t) :
    Unplugs s t ∧ Sends (News s .hierarchyEvent t) s.hierarchy t.hierarchy := by
  have hhushed : Hushed s t →
      Unplugs s t ∧ Sends (News s .hierarchyEvent t) s.hierarchy t.hierarchy := fun hst =>
    ⟨.of_hierarchy hst.1, hst.2.mono fun m hm => hm.news s _ t⟩
  simp only [ZstStage.step] at hrun
  split at hrun
  · obtain rfl := Except.ok.inj hrun
    exact hhushed (.refl s)
  · rename_i event rest hevents
    have harriving : ∀ e, Sends Cableless s.hierarchy
        (onEntityArriving { s.hierarchy with hierarchyEvents := rest } e) := fun e =>
      (Sends.silent rfl).trans ((onEntityArriving_hierarchical _ e).mono
        fun _ => cableless_of_hierarchical)
    cases event with
    | entityArriving e | performerArriving e =>
      obtain ⟨e, -, hrun⟩ := Library.bind_ok.mp hrun
      obtain rfl := Except.ok.inj hrun
      refine hhushed ⟨rfl, (harriving e).trans (.silent ?_)⟩
      exact (Mute.registerEntity _ e).sent
    | factoryArriving e =>
      obtain ⟨e, -, hrun⟩ := Library.bind_ok.mp hrun
      obtain rfl := Except.ok.inj hrun
      exact hhushed ⟨rfl, harriving e⟩
    | entityLeaving path | performerLeaving path =>
      obtain rfl := Except.ok.inj hrun
      unfold disconnectCables
      split
      · exact ⟨.of_hierarchy rfl, .silent rfl⟩
      · rename_i e hfind
        have hpopped : Cabled (onHierarchy s fun h => { h with hierarchyEvents := rest }) :=
          (Unplugs.of_hierarchy rfl).cabled cabled
        obtain ⟨hcables, hnews⟩ := leaving_cables hpopped _ (mem_getChildCables _ e) .hierarchyEvent
        exact ⟨(Unplugs.of_hierarchy rfl).trans hcables, hnews⟩
    | factoryLeaving path | entityUpdated e =>
      obtain rfl := Except.ok.inj hrun
      exact ⟨.of_hierarchy rfl, .silent rfl⟩

/-- What any step does to the cables, and what it tells, but for the graph snapshot. -/
theorem step_cables (cabled : Cabled s) (indexed : Indexed s.hierarchy) {event : StageEvent}
    (hrun : step s event = .ok t) :
    Recables s event t ∧ (syncer s event = none →
      Sends (News s event t) s.hierarchy t.hierarchy) := by
  cases event with
  | receive msg => exact receive_cables cabled indexed hrun
  | respond message response =>
    obtain ⟨ht, hnews⟩ := respond_cables hrun
    exact ⟨Or.inl (.of_hierarchy ht), fun _ => hnews⟩
  | heartbeatTimer =>
    obtain rfl := Except.ok.inj hrun
    exact ⟨Or.inl (.of_hierarchy rfl), fun _ => .silent (stageHeartbeatTimer_sent s.hierarchy)⟩
  | hierarchyEvent =>
    obtain ⟨hcables, hnews⟩ := hierarchyEvent_cables cabled hrun
    exact ⟨Or.inl hcables, fun _ => hnews⟩
  | synchronisableEvent =>
    obtain rfl := Except.ok.inj hrun
    exact ⟨Or.inl (.of_hierarchy rfl), fun _ => .silent (Mute.processItems 1 s.hierarchy).sent⟩
  | cleanup =>
    obtain rfl := Except.ok.inj hrun
    exact ⟨Or.inl (.of_hierarchy rfl), fun _ => .silent (Mute.reapAll 1 s.hierarchy).sent⟩
  | forgetDead =>
    obtain rfl := Except.ok.inj hrun
    exact ⟨Or.inl (.of_hierarchy rfl), fun _ => .silent rfl⟩
  | cableEvents =>
    obtain rfl := Except.ok.inj hrun
    refine ⟨Or.inl (cableEvents_unplugs cabled), fun _ => .silent ?_⟩
    rw [Standing.cableEvents_hierarchy]

/-- Who is accepted has no cable yet. -/
theorem Accepts.free {a : ZstCableAddress} {event : StageEvent} (haccepts : Accepts s a event) :
    s.findCable a = none := by
  cases event with
  | receive msg => exact haccepts.2.2.1
  | _ => exact haccepts.elim

theorem Cabled.step (cabled : Cabled s) (indexed : Indexed s.hierarchy) {event : StageEvent}
    (hrun : ZstStage.step s event = .ok t) : Cabled t := by
  rcases (step_cables cabled indexed hrun).1 with hst | ⟨a, haccepts, hst⟩
  · exact hst.cabled cabled
  · exact hst.cabled cabled haccepts.free

/-- A doomed cable stays so until a request for it is accepted. -/
theorem NoneInUse.step (cabled : Cabled s) (indexed : Indexed s.hierarchy) {event : StageEvent}
    {a : ZstCableAddress} (hdoomed : NoneInUse s a) (hrun : ZstStage.step s event = .ok t) :
    Accepts s a event ∨ NoneInUse t a := by
  rcases (step_cables cabled indexed hrun).1 with hst | ⟨b, haccepts, hst⟩
  · exact Or.inr (hst.doomed hdoomed)
  · by_cases hab : a = b
    · exact Or.inl (hab ▸ haccepts)
    · exact Or.inr (hst.doomed cabled hab hdoomed)

theorem cabled_opened : Cabled opened := by
  refine ⟨fun c hc => ?_, fun c hc => ?_, fun c => ?_⟩
  all_goals
    simp_all [opened]

end Steps

/-! ## Runs -/

/-- What the cables rely on along any run. -/
structure Wired (s : ZstSession) : Prop where
  cabled : Cabled s
  indexed : Indexed s.hierarchy
  owned : Owned s.hierarchy

namespace Wired

variable {s t : ZstSession}

theorem step {event : StageEvent} (wired : Wired s) (hrun : ZstStage.step s event = .ok t) :
    Wired t :=
  ⟨wired.cabled.step wired.indexed hrun, wired.indexed.step wired.owned hrun,
    wired.owned.step hrun⟩

theorem opened : Wired ZstStage.opened :=
  ⟨cabled_opened, .opened, owned_opened⟩

theorem run {events : List StageEvent} (wired : Wired s)
    (hrun : Library.run ZstStage.step s events = .ok t) : Wired t :=
  Library.run_history (fun _ u => Wired u) (fun _ _ _ _ hu hstep => hu.step hstep) wired hrun

end Wired

/-- The stage with a plug of `ada` and one of `bob`. -/
def plugs : List StageEvent :=
  [joining "ada" 1, joining "bob" 2,
    .receive
      { content := .entityCreateRequest
          { entityType := .plug, uri := ["ada", "out"], direction := .outJack }
        id := 1
        originEndpointUUID := 1 },
    .receive
      { content := .entityCreateRequest
          { entityType := .plug, uri := ["bob", "in"], direction := .inJack }
        id := 2
        originEndpointUUID := 2 }]

def lead : ZstCableAddress :=
  ⟨["bob", "in"], ["ada", "out"]⟩

def plugging (id : ZstMsgID) : ZstStageMessage :=
  { content := .cableCreateRequest lead, id, originEndpointUUID := 1 }

end Showtime.Cabling
