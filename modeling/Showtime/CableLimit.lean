import Mathlib.Data.List.Nodup
import Showtime.CableSets
/-!
# Input plugs with a limit

An input plug that is full gives up its cables for a new one. It is asked for
them by way of the session's adaptor, which it has once the event loop has
announced it.
-/

namespace Showtime.CableLimit

open ZstHierarchy ZstStageHierarchy ZstStageSession ZstStage Cabling CableSets Sending
open ConnectReplies (plugged makeRoom Replugged)

/-- The plug has as many cables as it may have. -/
def Full (x : Entity) : Prop :=
  x.cables.length ≥ x.maxConnectedCablesSize

instance (x : Entity) : Decidable (Full x) :=
  inferInstanceAs (Decidable (_ ≥ _))

/-- No input plug has more cables than its limit, if it has one. -/
def Within (s : ZstSession) : Prop :=
  ∀ path e, s.findInputPlug path = some e → 1 ≤ (s.hierarchy.entities e).maxConnectedCables →
    ((s.hierarchy.entities e).cables.length : Int) ≤
      (s.hierarchy.entities e).maxConnectedCables

/-- The new cable of a request that passes the checks is at its input plug. -/
def PlugsAccepted (s : ZstSession) (event : StageEvent) : Prop :=
  ∀ a, Accepts s a event → ∀ t, step s event = .ok t →
    ∃ e, t.findInputPlug a.inputURI = some e ∧ a ∈ (t.hierarchy.entities e).cables

/-- The limits hold at every moment of the run, and every accepted cable is plugged in. -/
def Limits (events : List StageEvent) : Prop :=
  ∀ first last s, events = first ++ last → Library.run step opened first = .ok s →
    Within s ∧ ∀ event ∈ last.head?, PlugsAccepted s event

/-- The cable that a message asks for. -/
def requested : StageEvent → Option ZstCableAddress
  | .receive msg =>
    match msg.content with
    | .cableCreateRequest a => some a
    | _ => none
  | _ => none

/-- A cable for a full plug is only accepted once the plug was announced. -/
def FullPlugAnnounced (s : ZstSession) (event : StageEvent) : Prop :=
  ∀ a ∈ requested event, Accepts s a event → ∀ e ∈ s.findInputPlug a.inputURI,
    Full (s.hierarchy.entities e) → (s.hierarchy.entities e).sessionAdaptor = true

instance (s : ZstSession) (event : StageEvent) : Decidable (FullPlugAnnounced s event) :=
  inferInstanceAs (Decidable (∀ a ∈ requested event, _))

/-! ## A full plug -/

section Full

variable {s t : ZstSession}

/-- A plug with the session's adaptor hands out a cable for each of its addresses. -/
theorem plugCables_all {e : EntityId} (hplug : (s.hierarchy.entities e).entityType = .plug)
    (hadaptor : (s.hierarchy.entities e).sessionAdaptor = true) (bundle : List CableId)
    {a : ZstCableAddress} (ha : a ∈ (s.hierarchy.entities e).cables)
    (hcable : (s.findCable a).isSome) :
    ∃ c ∈ s.plugCables bundle e, (s.cableObjects c).address = a := by
  unfold ZstSession.plugCables
  simp only [hplug, hadaptor, and_self, if_true]
  generalize (s.hierarchy.entities e).cables = addresses at ha ⊢
  induction addresses generalizing bundle with
  | nil => cases ha
  | cons address addresses ih =>
    rw [List.foldl_cons]
    rcases List.mem_cons.mp ha with rfl | ha
    · -- once there is one of this address in the bundle it stays there
      refine List.foldlRecOn (motive := fun (bundle : List CableId) =>
        ∃ c ∈ bundle, (s.cableObjects c).address = a) _ _ ?_ fun bundle hbundle address _ => ?_
      · obtain ⟨c, hc⟩ := Option.isSome_iff_exists.mp hcable
        simp only [hc]
        split
        · rename_i hany
          obtain ⟨b, hb, hba⟩ := List.any_eq_true.mp hany
          exact ⟨b, hb, of_decide_eq_true hba⟩
        · refine ⟨c, by simp, ?_⟩
          simpa using List.find?_some hc
      · obtain ⟨c, hc, hca⟩ := hbundle
        split
        · split
          · exact ⟨c, hc, hca⟩
          · exact ⟨c, List.mem_append_left _ hc, hca⟩
        · exact ⟨c, hc, hca⟩
    · exact ih _ ha

theorem active_of_unplugs (hst : Unplugs s t) {a : ZstCableAddress} (ha : Active t a) :
    Active s a := by
  obtain ⟨c, hc, hca, hactivated⟩ := ha
  refine ⟨c, hst.cables c hc, (hst.address c).symm.trans hca, ?_⟩
  by_contra hnot
  exact hst.status c hnot hactivated

/-- Whoever gives up cables has no new ones. -/
theorem makeRoom_subset (linked : CablesLinked s) (cabled : Cabled s) (input e : EntityId) :
    ∀ a ∈ ((makeRoom s input).hierarchy.entities e).cables,
      a ∈ (s.hierarchy.entities e).cables := by
  intro a ha
  obtain ⟨hactive, hend⟩ := ((linked.makeRoom cabled input).plugs e a).mp ha
  rw [Replugged.endOf (ConnectReplies.makeRoom_keeps s input).1] at hend
  exact (linked.plugs e a).mpr ⟨active_of_unplugs (makeRoom_doomed cabled input).1 hactive, hend⟩

/-- A full plug that was announced has no cables afterwards. -/
theorem makeRoom_empty (linked : CablesLinked s) (cabled : Cabled s) {input : EntityId}
    (hplug : (s.hierarchy.entities input).isInputPlug = true)
    (hfull : Full (s.hierarchy.entities input))
    (hadaptor : (s.hierarchy.entities input).sessionAdaptor = true) :
    ((makeRoom s input).hierarchy.entities input).cables = [] := by
  have htype : (s.hierarchy.entities input).entityType = .plug := by
    simpa using (Bool.and_eq_true_iff.mp hplug).1
  refine List.eq_nil_iff_forall_not_mem.mpr fun a ha => ?_
  have hold := makeRoom_subset linked cabled input input a ha
  obtain ⟨c, hc, hca, hactivated⟩ := ((linked.makeRoom cabled input).plugs input a).mp ha |>.1
  unfold Full at hfull
  unfold ConnectReplies.makeRoom at hc hca hactivated
  rw [if_pos hfull] at hc hca hactivated
  obtain ⟨hunplugs, hgone, -⟩ :=
    destroyCables_unplugs (s.getChildCables input) (mem_getChildCables s input)
  have hmem := hunplugs.cables c hc
  rw [hunplugs.address] at hca
  have hcable : (s.findCable a).isSome := List.find?_isSome.mpr ⟨c, hmem, by simpa using hca⟩
  obtain ⟨d, hd, hda⟩ := plugCables_all htype hadaptor [] hold hcable
  have hchild : d ∈ s.getChildCables input := by
    unfold ZstSession.getChildCables
    rw [getChildEntities_of_not_component _ _ (by simp [Entity.isComponent, htype])]
    exact hd
  obtain rfl := cabled.distinct d (mem_getChildCables s input d hchild) c hmem (hda.trans hca.symm)
  exact hgone d hchild hactivated

/-- What the plugs list once the requested cable is plugged in. -/
theorem mem_plugged (wired : Wired s) {a : ZstCableAddress} {input output : EntityId}
    (hfree : s.findCable a = none) (hin : s.findInputPlug a.inputURI = some input)
    (hout : s.findOutputPlug a.outputURI = some output) (e : EntityId) (b : ZstCableAddress) :
    b ∈ ((plugged s input output).hierarchy.entities e).cables ↔
      b ∈ ((makeRoom s input).hierarchy.entities e).cables ∨
        b = a ∧ (e = input ∨ e = output) := by
  obtain ⟨hkeeps, hsame⟩ := ConnectReplies.makeRoom_keeps s input
  have huri := hkeeps.field Entity.uri fun _ => rfl
  have ha : a = ⟨((makeRoom s input).hierarchy.entities input).uri,
      ((makeRoom s input).hierarchy.entities output).uri⟩ := by
    rw [huri, huri, wired.indexed.findEntity_uri (Option.filter_eq_some_iff.mp hin).1,
      wired.indexed.findEntity_uri (Option.filter_eq_some_iff.mp hout).1]
  have hroom : (makeRoom s input).findCable a = none := (hsame.findCable a).trans hfree
  rw [ha] at hroom
  unfold ConnectReplies.plugged
  rw [mem_createCable hroom, ← ha]

theorem size_le {x : Entity} (hlimit : 1 ≤ x.maxConnectedCables) :
    (x.maxConnectedCablesSize : Int) ≤ x.maxConnectedCables := by
  unfold Entity.maxConnectedCablesSize
  omega

/-- The room that a full plug makes is enough for the new cable. -/
theorem plugged_length (tidy : ListsCablesInUse s) (wired : Wired s) {a : ZstCableAddress}
    {input output : EntityId} (hfree : s.findCable a = none)
    (hin : s.findInputPlug a.inputURI = some input)
    (hout : s.findOutputPlug a.outputURI = some output)
    (hlimit : 1 ≤ (s.hierarchy.entities input).maxConnectedCables)
    (hannounced : Full (s.hierarchy.entities input) →
      (s.hierarchy.entities input).sessionAdaptor = true) :
    (((plugged s input output).hierarchy.entities input).cables.length : Int) ≤
      (s.hierarchy.entities input).maxConnectedCables := by
  have hplug := (Option.filter_eq_some_iff.mp hin).2
  have hroom : ((makeRoom s input).hierarchy.entities input).cables.length + 1 ≤
      (s.hierarchy.entities input).maxConnectedCables := by
    by_cases hfull : Full (s.hierarchy.entities input)
    · rw [makeRoom_empty tidy.linked wired.cabled hplug hfull (hannounced hfull)]
      simpa using hlimit
    · have hsize := size_le hlimit
      unfold Full at hfull
      unfold ConnectReplies.makeRoom
      rw [if_neg hfull]
      omega
  have hnew : ∀ b ∈ ((plugged s input output).hierarchy.entities input).cables,
      b ∈ a :: ((makeRoom s input).hierarchy.entities input).cables := fun b hb => by
    rcases (mem_plugged wired hfree hin hout input b).mp hb with hb | ⟨hba, -⟩
    · exact List.mem_cons_of_mem a hb
    · rw [hba]
      exact List.mem_cons_self
  have hsets := (tidy.plugged wired.cabled wired.indexed hfree hin hout).linked.sets input
  have hlength := (List.subperm_of_subset hsets hnew).length_le
  rw [List.length_cons] at hlength
  omega

end Full

/-! ## Plugs that are found -/

/-- Plugs are still found where they were, and with the same limit. -/
structure PlugsStay (s t : ZstSession) : Prop where
  input : ∀ path e, s.findInputPlug path = some e → t.findInputPlug path = some e
  output : ∀ path e, s.findOutputPlug path = some e → t.findOutputPlug path = some e
  limit : ∀ path e, s.findInputPlug path = some e →
    (t.hierarchy.entities e).maxConnectedCables = (s.hierarchy.entities e).maxConnectedCables

section Steps

variable {s t : ZstSession}

theorem PlugsStay.of_same
    (hfind : ∀ path, t.hierarchy.findEntity path = s.hierarchy.findEntity path)
    (hinput : ∀ e, (t.hierarchy.entities e).isInputPlug = (s.hierarchy.entities e).isInputPlug)
    (houtput : ∀ e, (t.hierarchy.entities e).isOutputPlug = (s.hierarchy.entities e).isOutputPlug)
    (hlimit : ∀ e, (t.hierarchy.entities e).maxConnectedCables =
      (s.hierarchy.entities e).maxConnectedCables) : PlugsStay s t where
  input path e he := by
    rw [← he]
    simp only [ZstSession.findInputPlug, hfind, hinput]
  output path e he := by
    rw [← he]
    simp only [ZstSession.findOutputPlug, hfind, houtput]
  limit _ e _ := hlimit e

theorem PlugsStay.of_standing (hst : Standing s.hierarchy t.hierarchy) : PlugsStay s t :=
  .of_same hst.findEntity_eq (hst.field Entity.isInputPlug fun _ => rfl)
    (hst.field Entity.isOutputPlug fun _ => rfl)
    (hst.field Entity.maxConnectedCables fun _ => rfl)

theorem PlugsStay.of_rests (hst : Rests s.hierarchy t.hierarchy) : PlugsStay s t :=
  .of_same hst.findEntity_eq (hst.field Entity.isInputPlug fun _ => rfl)
    (hst.field Entity.isOutputPlug fun _ => rfl) (hst.field Entity.maxConnectedCables fun _ => rfl)

theorem PlugsStay.arrive (keyed : Keyed s.hierarchy) {x : Entity}
    (hnew : s.hierarchy.findEntity x.uri = none)
    (ht : Rests (s.hierarchy.arrive x) t.hierarchy) : PlugsStay s t := by
  have hold : ∀ path e, s.hierarchy.findEntity path = some e →
      t.hierarchy.findEntity path = some e ∧ e ≠ s.hierarchy.next := fun path e he => by
    refine ⟨?_, Nat.ne_of_lt (keyed.allocated path e he)⟩
    rw [ht.findEntity_eq, keyed.findEntity_arrive hnew, if_neg]
    · exact he
    · rintro rfl
      rw [hnew] at he
      cases he
  refine ⟨fun path e he => ?_, fun path e he => ?_, fun path e he => ?_⟩
  all_goals
    obtain ⟨hfind, hkind⟩ := Option.filter_eq_some_iff.mp he
    obtain ⟨hfound, hne⟩ := hold path e hfind
  · refine Option.filter_eq_some_iff.mpr ⟨hfound, ?_⟩
    rw [ht.field Entity.isInputPlug fun _ => rfl,
      arrive_field x hne Entity.isInputPlug fun _ => rfl]
    exact hkind
  · refine Option.filter_eq_some_iff.mpr ⟨hfound, ?_⟩
    rw [ht.field Entity.isOutputPlug fun _ => rfl,
      arrive_field x hne Entity.isOutputPlug fun _ => rfl]
    exact hkind
  · rw [ht.field Entity.maxConnectedCables fun _ => rfl,
      arrive_field x hne Entity.maxConnectedCables fun _ => rfl]

/-- A stage that is being built keeps its plugs. -/
theorem stays_of_builds (built : Built s) {event : StageEvent} (hevent : Builds event)
    (hrun : step s event = .ok t) : PlugsStay s t := by
  cases event with
  | receive msg =>
    rcases hevent with hcable | harrives
    · refine .of_standing (receive_calm ?_ hrun)
      cases hcontent : msg.content with
      | cableCreateRequest | cableDestroyRequest => trivial
      | _ =>
        rw [hcontent] at hcable
        exact hcable.elim
    · obtain ⟨-, hk | ⟨x, -, hnew, -, -, hk⟩⟩ := receive_arrives_ok built.sound.keyed harrives hrun
      · exact .of_rests hk
      · exact .arrive built.sound.keyed hnew hk
  | heartbeatTimer => exact hevent.elim
  | respond message response =>
    simp only [ZstStage.step] at hrun
    split at hrun
    · exact .of_rests (onRecvResponse_rests hrun)
    · obtain rfl := Except.ok.inj hrun
      exact .of_rests (.refl _)
  | hierarchyEvent =>
    simp only [ZstStage.step] at hrun
    split at hrun
    · obtain rfl := Except.ok.inj hrun
      exact .of_rests (.refl _)
    · rename_i event rest hevents
      have hk := Standing.processHierarchyEvent hrun
      exact .of_same (fun path => hk.findEntity_eq path) (hk.field Entity.isInputPlug fun _ => rfl)
        (hk.field Entity.isOutputPlug fun _ => rfl) (hk.field Entity.maxConnectedCables fun _ => rfl)
  | synchronisableEvent =>
    obtain rfl := Except.ok.inj hrun
    exact .of_standing (Standing.processItems 1 s.hierarchy)
  | cleanup =>
    obtain rfl := Except.ok.inj hrun
    refine .of_rests ?_
    have hnone : reapAll stageOverrides 1 s.hierarchy = s.hierarchy := by
      simp only [reapAll, built.tidy.steady.kept]
    dsimp only [onHierarchy]
    rw [hnone]
    exact .refl _
  | forgetDead =>
    obtain rfl := Except.ok.inj hrun
    exact .of_rests ⟨fun _ => rfl, rfl, rfl, rfl, rfl⟩
  | cableEvents =>
    obtain rfl := Except.ok.inj hrun
    refine .of_standing ?_
    rw [Standing.cableEvents_hierarchy]
    exact .refl _

/-! ## Steps -/

/-- A cable of an input plug is one that was in use at the same plug. -/
theorem mem_of_active (built : Built s) (after : Built t) (stays : PlugsStay s t) {path : ZstURI}
    {e : EntityId} (he : t.findInputPlug path = some e) {a : ZstCableAddress}
    (ha : a ∈ (t.hierarchy.entities e).cables) (hactive : Active s a) :
    s.findInputPlug path = some e ∧ a ∈ (s.hierarchy.entities e).cables := by
  obtain ⟨hfind, hkind⟩ := Option.filter_eq_some_iff.mp he
  obtain ⟨hin, hout⟩ := built.tidy.linked.ends a hactive
  obtain ⟨i, hi⟩ := Option.isSome_iff_exists.mp hin
  obtain ⟨o, ho⟩ := Option.isSome_iff_exists.mp hout
  have hend : s.findInputPlug a.inputURI = some e := by
    rcases ((after.tidy.linked.plugs e a).mp ha).2 with hend | hend
    · rw [stays.input _ i hi] at hend
      rw [hi, hend]
    · have hjack := (Option.filter_eq_some_iff.mp hend).2
      simp only [Entity.isInputPlug, Entity.isOutputPlug, Bool.and_eq_true, beq_iff_eq,
        bne_iff_ne] at hkind hjack
      exact absurd hkind.2 hjack.2
  have hpath : path = a.inputURI := by
    have hthere := (Option.filter_eq_some_iff.mp (stays.input _ e hend)).1
    rw [← after.wired.indexed.findEntity_uri hfind, after.wired.indexed.findEntity_uri hthere]
  exact ⟨hpath ▸ hend, (built.tidy.linked.plugs e a).mpr ⟨hactive, Or.inl hend⟩⟩

/-- Whoever has a new plug or fewer cables stays within the limit. -/
theorem within_of_active (built : Built s) (after : Built t) (stays : PlugsStay s t)
    (hactive : ∀ a, Active t a → Active s a) (hwithin : Within s) : Within t := by
  intro path e he hlimit
  have hsub : ∀ a ∈ (t.hierarchy.entities e).cables,
      s.findInputPlug path = some e ∧ a ∈ (s.hierarchy.entities e).cables := fun a ha =>
    mem_of_active built after stays he ha (hactive a ((after.tidy.linked.plugs e a).mp ha).1)
  cases hempty : (t.hierarchy.entities e).cables with
  | nil =>
    rw [List.length_nil]
    omega
  | cons a cables =>
    have hold := (hsub a (hempty ▸ List.mem_cons_self)).1
    have hlength := (List.subperm_of_subset (after.tidy.linked.sets e)
      fun a ha => (hsub a ha).2).length_le
    rw [← hempty]
    rw [stays.limit path e hold] at hlimit ⊢
    have hbound := hwithin path e hold hlimit
    omega

/-- What a request for a cable comes to. -/
theorem receive_create {msg : ZstStageMessage} {a : ZstCableAddress}
    (hcontent : msg.content = .cableCreateRequest a) (hrun : receive s msg = .ok t) :
    (¬ Accepts s a (.receive msg) ∧ Rests s.hierarchy t.hierarchy ∧
        t = { s with hierarchy := t.hierarchy }) ∨
      ∃ input output, s.findCable a = none ∧ s.findInputPlug a.inputURI = some input ∧
        s.findOutputPlug a.outputURI = some output ∧
        Rests (plugged s input output).hierarchy t.hierarchy := by
  cases hclient : getClientFromEndpointUUID s.hierarchy msg.originEndpointUUID with
  | none =>
    obtain ⟨u, hsession, hrun⟩ := Library.bind_ok.mp hrun
    rw [onReceiveMsg_cableRequest u.hierarchy (by rw [hcontent]; trivial)] at hrun
    obtain rfl := Except.ok.inj hrun
    unfold ZstStageSession.onReceiveMsg at hsession
    rw [hclient] at hsession
    obtain rfl := Except.ok.inj hsession
    refine Or.inl ⟨?_, .refl _, rfl⟩
    rintro ⟨-, hthere, -⟩
    rw [hclient] at hthere
    cases hthere
  | some sender =>
    obtain ⟨w, signal, hhandler, rfl⟩ :=
      CableFailure.receive_cableRequest hcontent hclient hrun
    have hrespond : Rests w.hierarchy (onHierarchy w fun h => respond h msg signal).hierarchy := by
      simp only [onHierarchy, respond_eq]
      exact .sends w.hierarchy _
    rcases createCableHandler_ok hhandler with
      ⟨hrefused, rfl⟩ | ⟨-, input, output, p, q, hfree, hin, hout, -, -, hfinish⟩
    · refine Or.inl ⟨?_, hrespond, rfl⟩
      rintro ⟨-, -, hfree, hin, hout⟩
      rcases hrefused with hrefused | hrefused | hrefused
      all_goals simp_all
    · refine Or.inr ⟨input, output, hfree, hin, hout, .trans ?_ hrespond⟩
      split at hfinish
      · exact cableConnectFinished_rests hfinish
      · rw [hfinish, connectClients_eq]
        exact .sends _ _

theorem jacks_differ {x : Entity} (hin : x.isInputPlug = true) (hout : x.isOutputPlug = true) :
    False := by
  simp only [Entity.isInputPlug, Entity.isOutputPlug, Bool.and_eq_true, beq_iff_eq,
    bne_iff_ne] at hin hout
  exact hout.2 hin.2

/-- A request for a cable keeps to the limit of a plug that was announced. -/
theorem within_create (built : Built s) (stays : PlugsStay s t)
    {msg : ZstStageMessage} {a : ZstCableAddress} (haccepts : Accepts s a (.receive msg))
    (hannounced : FullPlugAnnounced s (.receive msg)) (hwithin : Within s)
    (hrun : receive s msg = .ok t) : Within t := by
  have hcontent : msg.content = .cableCreateRequest a := haccepts.1
  rcases receive_create hcontent hrun with ⟨hnot, -, -⟩ | ⟨input, output, hfree, hin, hout, hk⟩
  · exact absurd haccepts hnot
  intro path e he hlimit
  have hkeeps := (ConnectReplies.plugged_keeps s input output).1
  have hold : s.findInputPlug path = some e := by
    rw [← he, ← Replugged.findInputPlug hkeeps]
    simp only [ZstSession.findInputPlug, hk.findEntity_eq, hk.field Entity.isInputPlug fun _ => rfl]
  have hcables := hk.field Entity.cables (fun _ => rfl) e
  rw [hcables]
  rw [stays.limit path e hold] at hlimit ⊢
  by_cases hinput : e = input
  · subst hinput
    have hrequested : a ∈ requested (.receive msg) := by
      simp [requested, hcontent]
    exact plugged_length built.tidy built.wired hfree hin hout hlimit
      (hannounced a hrequested haccepts e hin)
  · have hsub : ∀ b ∈ ((plugged s input output).hierarchy.entities e).cables,
        b ∈ (s.hierarchy.entities e).cables := fun b hb => by
      rcases (mem_plugged built.wired hfree hin hout e b).mp hb with hb | ⟨-, heq | heq⟩
      · exact makeRoom_subset built.tidy.linked built.wired.cabled input e b hb
      · exact absurd heq hinput
      · exact (jacks_differ (Option.filter_eq_some_iff.mp hold).2
          (heq ▸ (Option.filter_eq_some_iff.mp hout).2)).elim
    have hsets := (built.tidy.plugged built.wired.cabled built.wired.indexed hfree hin
      hout).linked.sets e
    have hlength := (List.subperm_of_subset hsets hsub).length_le
    have hbound := hwithin path e hold hlimit
    omega

/-- The other steps take no cable into use. -/
theorem within_step (built : Built s) {event : StageEvent} (hevent : Builds event)
    (hannounced : FullPlugAnnounced s event) (hwithin : Within s) (hrun : step s event = .ok t) :
    Within t := by
  have after := built.step hevent hrun
  have stays := stays_of_builds built hevent hrun
  rcases (step_cables built.wired.cabled built.wired.indexed hrun).1 with hst | ⟨a, haccepts, -⟩
  · exact within_of_active built after stays (fun a ha => active_of_unplugs hst ha) hwithin
  · cases event with
    | receive msg => exact within_create built stays haccepts hannounced hwithin hrun
    | _ => exact haccepts.elim

theorem lists_of_accepts (built : Built s) (event : StageEvent) : PlugsAccepted s event := by
  intro a haccepts t hrun
  cases event with
  | receive msg =>
    rcases receive_create haccepts.1 hrun with ⟨hnot, -⟩ | ⟨input, output, hfree, hin, hout, hk⟩
    · exact absurd haccepts hnot
    · have hkeeps := (ConnectReplies.plugged_keeps s input output).1
      refine ⟨input, ?_, ?_⟩
      · rw [← hin, ← Replugged.findInputPlug hkeeps]
        simp only [ZstSession.findInputPlug, hk.findEntity_eq,
          hk.field Entity.isInputPlug fun _ => rfl]
      · rw [hk.field Entity.cables fun _ => rfl]
        exact (mem_plugged built.wired hfree hin hout input a).mpr (Or.inr ⟨rfl, Or.inl rfl⟩)
  | _ => exact haccepts.elim

end Steps

/-! ## Runs -/

/-- If no full plug is asked for a cable before it was announced, every plug
keeps to its limit, and every accepted cable is plugged in. -/
theorem limits_of_announced (events : List StageEvent) (hevents : ∀ event ∈ events, Builds event)
    (hannounced : Library.Along step FullPlugAnnounced opened events) : Limits events := by
  rintro first last s rfl hrun
  have hboth : Library.Along step (fun s event => Builds event ∧ FullPlugAnnounced s event)
      opened first :=
    Library.along_of_forall fun before event after u hsplit hu => by
      subst hsplit
      exact ⟨hevents event (by simp), Library.along_append_cons
        (Library.along_append.mp hannounced).1 hu⟩
  have hfirst : Within opened := fun path e he => by
    simp [ZstSession.findInputPlug, opened, ofList, findEntity] at he
  have hkept : ∀ s event t, (Built s ∧ Within s) → (Builds event ∧ FullPlugAnnounced s event) →
      step s event = .ok t → Built t ∧ Within t := fun s event t hs hcondition hstep =>
    ⟨hs.1.step hcondition.1 hstep, within_step hs.1 hcondition.1 hcondition.2 hs.2 hstep⟩
  obtain ⟨built, hwithin⟩ := Library.run_invariant hkept ⟨built_opened, hfirst⟩ hboth hrun
  exact ⟨hwithin, fun event _ => lists_of_accepts built event⟩

/-- Two outputs of `ada` and an input of `bob` that takes one cable. -/
def narrow : List StageEvent :=
  [joining "ada" 1, joining "bob" 2,
    .receive
      { content := .entityCreateRequest
          { entityType := .plug, uri := ["ada", "out"], direction := .outJack }
        id := 1
        originEndpointUUID := 1 },
    .receive
      { content := .entityCreateRequest
          { entityType := .plug, uri := ["ada", "other"], direction := .outJack }
        id := 2
        originEndpointUUID := 1 },
    .receive
      { content := .entityCreateRequest
          { entityType := .plug, uri := ["bob", "in"], direction := .inJack, maxCables := 1 }
        id := 3
        originEndpointUUID := 2 }]

/-- The second cable is asked for in the place of the first. -/
def replacing : StageEvent :=
  .receive
    { content := .cableCreateRequest ⟨["bob", "in"], ["ada", "other"]⟩
      id := 5
      originEndpointUUID := 1 }

def announcing : List StageEvent :=
  List.replicate 5 .hierarchyEvent

theorem limits_of_announced_replacing :
    Limits (narrow ++ announcing ++ [.receive (plugging 4), replacing]) :=
  limits_of_announced _
    (by simp [narrow, announcing, replacing, Builds, Arrives, IsCableRequest, joining, plugging])
    (by decide +kernel)

/-- Before the plugs are announced the first cable is not found, and stays. -/
theorem unannounced_not_limits :
    ¬ ∀ events : List StageEvent, (∀ event ∈ events, Builds event) → Limits events := by
  intro hall
  have hlimits := hall (narrow ++ [.receive (plugging 4), replacing])
    (by simp [narrow, replacing, Builds, Arrives, IsCableRequest, joining, plugging])
  obtain ⟨s, hs, hfind, hlimit, hlength⟩ : ∃ s,
      Library.run step opened (narrow ++ [.receive (plugging 4), replacing]) = .ok s ∧
      s.findInputPlug ["bob", "in"] = some 4 ∧
      (s.hierarchy.entities 4).maxConnectedCables = 1 ∧
      (s.hierarchy.entities 4).cables.length = 2 :=
    ⟨_, rfl, rfl, rfl, rfl⟩
  have hbound := (hlimits _ [] s (List.append_nil _).symm hs).1 ["bob", "in"] 4 hfind (by omega)
  omega

end Showtime.CableLimit
