import Showtime.CableFailure
/-!
# A cable and its plugs

A cable that is in use is kept three times: the session owns it, and its input
and its output plug list its address. One is taken out when it is destroyed,
the other only by the reaper. This module says what the three have in common
while nobody leaves.
-/

namespace Showtime.CableSets

open ZstHierarchy ZstStageHierarchy ZstStageSession ZstStage Cabling Sending
open CableFailure (NoneLeaving Muted)
open ConnectReplies (plugged makeRoom Replugged)

/-- The session has a cable of this address that is in use. -/
def Active (s : ZstSession) (a : ZstCableAddress) : Prop :=
  ∃ c ∈ s.cables, (s.cableObjects c).address = a ∧ (s.cableObjects c).syncStatus = .activated

/-- The plug is found at an end of the address. -/
def EndOf (s : ZstSession) (a : ZstCableAddress) (e : EntityId) : Prop :=
  s.findInputPlug a.inputURI = some e ∨ s.findOutputPlug a.outputURI = some e

/-- The plugs list the cables that are in use, and the session has one cable of
an address at most. -/
structure CablesAgree (s : ZstSession) : Prop where
  input : ∀ a i o, s.findInputPlug a.inputURI = some i → s.findOutputPlug a.outputURI = some o →
    (a ∈ (s.hierarchy.entities i).cables ↔ a ∈ (s.hierarchy.entities o).cables)
  output : ∀ a i o, s.findInputPlug a.inputURI = some i → s.findOutputPlug a.outputURI = some o →
    (a ∈ (s.hierarchy.entities o).cables ↔ Active s a)
  apart : (Snapshot.addresses s).Nodup

/-- Every cable in use has its two plugs, which list it and nothing else. -/
structure CablesLinked (s : ZstSession) : Prop where
  nodup : s.cables.Nodup
  ends : ∀ a, Active s a →
    (s.findInputPlug a.inputURI).isSome ∧ (s.findOutputPlug a.outputURI).isSome
  plugs : ∀ e a, a ∈ (s.hierarchy.entities e).cables ↔ Active s a ∧ EndOf s a e
  sets : ∀ e, (s.hierarchy.entities e).cables.Nodup
  calm : ∀ c ∈ s.cables, (s.cableObjects c).syncStatus = .activated →
    (s.cableObjects c).synchronisableEvents = [] ∧ c ∉ s.cleanupOps

/-- Whoever is found stays where it is, and the sets of cables are as before. -/
structure Grows (h k : ZstHierarchy) : Prop where
  found : ∀ path e, h.findEntity path = some e → k.findEntity path = some e
  input : ∀ path e, h.findEntity path = some e →
    (k.entities e).isInputPlug = (h.entities e).isInputPlug
  output : ∀ path e, h.findEntity path = some e →
    (k.entities e).isOutputPlug = (h.entities e).isOutputPlug
  cables : ∀ e, (k.entities e).cables = (h.entities e).cables

/-- Nobody is on the way out. -/
structure NobodyLeaving (h : ZstHierarchy) : Prop where
  noneLeaving : NoneLeaving h
  calm : ∀ e, ∀ event ∈ (h.entities e).synchronisableEvents,
    event = .activated ∨ event = .updated
  kept : h.cleanupOps = []

theorem CablesLinked.agree {s : ZstSession} (linked : CablesLinked s) (cabled : Cabled s) :
    CablesAgree s := by
  refine ⟨fun a i o hi ho => ?_, fun a i o hi ho => ?_, ?_⟩
  · rw [linked.plugs, linked.plugs]
    exact and_congr_right fun _ => ⟨fun _ => Or.inr ho, fun _ => Or.inl hi⟩
  · rw [linked.plugs]
    exact and_iff_left (Or.inr ho)
  · unfold Snapshot.addresses
    exact linked.nodup.map_on fun c hc d hd hcd => cabled.distinct c hc d hd hcd

/-! ## What leaves the sets alone -/

namespace Grows

variable {h k l : ZstHierarchy} {s t : ZstSession}

theorem refl (h : ZstHierarchy) : Grows h h :=
  ⟨fun _ _ he => he, fun _ _ _ => rfl, fun _ _ _ => rfl, fun _ => rfl⟩

theorem trans (hk : Grows h k) (kl : Grows k l) : Grows h l where
  found path e he := kl.found path e (hk.found path e he)
  input path e he := (kl.input path e (hk.found path e he)).trans (hk.input path e he)
  output path e he := (kl.output path e (hk.found path e he)).trans (hk.output path e he)
  cables e := (kl.cables e).trans (hk.cables e)

theorem of_standing (hk : Standing h k)
    (hcables : ∀ e, (k.entities e).cables = (h.entities e).cables) : Grows h k where
  found path _ he := (hk.findEntity_eq path).trans he
  input _ e _ := hk.field Entity.isInputPlug (fun _ => rfl) e
  output _ e _ := hk.field Entity.isOutputPlug (fun _ => rfl) e
  cables := hcables

theorem findInputPlug (hk : Grows s.hierarchy t.hierarchy) {path : ZstURI} {e : EntityId}
    (he : s.findInputPlug path = some e) : t.findInputPlug path = some e := by
  obtain ⟨hfind, hkind⟩ := Option.filter_eq_some_iff.mp he
  refine Option.filter_eq_some_iff.mpr ⟨hk.found path e hfind, ?_⟩
  rw [hk.input path e hfind]
  exact hkind

theorem findOutputPlug (hk : Grows s.hierarchy t.hierarchy) {path : ZstURI} {e : EntityId}
    (he : s.findOutputPlug path = some e) : t.findOutputPlug path = some e := by
  obtain ⟨hfind, hkind⟩ := Option.filter_eq_some_iff.mp he
  refine Option.filter_eq_some_iff.mpr ⟨hk.found path e hfind, ?_⟩
  rw [hk.output path e hfind]
  exact hkind

end Grows

/-- Arrivals and messages change nothing about the cables. -/
theorem CablesLinked.grows {s t : ZstSession} (linked : CablesLinked s)
    (ht : t = { s with hierarchy := t.hierarchy }) (hk : Grows s.hierarchy t.hierarchy) :
    CablesLinked t := by
  have hactive : ∀ a, Active t a ↔ Active s a := fun a => by
    unfold Active
    rw [ht]
  refine ⟨by rw [ht]; exact linked.nodup, fun a ha => ?_, fun e a => ?_, fun e => ?_, ?_⟩
  · obtain ⟨hin, hout⟩ := linked.ends a ((hactive a).mp ha)
    obtain ⟨i, hi⟩ := Option.isSome_iff_exists.mp hin
    obtain ⟨o, ho⟩ := Option.isSome_iff_exists.mp hout
    rw [hk.findInputPlug hi, hk.findOutputPlug ho]
    exact ⟨rfl, rfl⟩
  · rw [hk.cables, linked.plugs, hactive]
    refine and_congr_right fun ha => ?_
    obtain ⟨hin, hout⟩ := linked.ends a ha
    obtain ⟨i, hi⟩ := Option.isSome_iff_exists.mp hin
    obtain ⟨o, ho⟩ := Option.isSome_iff_exists.mp hout
    unfold EndOf
    rw [hk.findInputPlug hi, hk.findOutputPlug ho, hi, ho]
  · rw [hk.cables]
    exact linked.sets e
  · rw [ht]
    exact linked.calm

/-! ## Unplugging and plugging -/

section Plugs

variable {s t : ZstSession} {a : ZstCableAddress} {c : CableId}

theorem Replugged.findEntity (hst : Replugged s t) (path : ZstURI) :
    t.hierarchy.findEntity path = s.hierarchy.findEntity path := by
  simp only [ZstHierarchy.findEntity, hst.root, hst.lookup, hst.field Entity.uri fun _ => rfl]

theorem Replugged.findInputPlug (hst : Replugged s t) (path : ZstURI) :
    t.findInputPlug path = s.findInputPlug path := by
  simp only [ZstSession.findInputPlug, Replugged.findEntity hst,
    hst.field Entity.isInputPlug fun _ => rfl]

theorem Replugged.findOutputPlug (hst : Replugged s t) (path : ZstURI) :
    t.findOutputPlug path = s.findOutputPlug path := by
  simp only [ZstSession.findOutputPlug, Replugged.findEntity hst,
    hst.field Entity.isOutputPlug fun _ => rfl]

theorem Replugged.endOf (hst : Replugged s t) (a : ZstCableAddress) (e : EntityId) :
    EndOf t a e ↔ EndOf s a e := by
  unfold EndOf
  rw [Replugged.findInputPlug hst, Replugged.findOutputPlug hst]

/-- The plugs' sets have no duplicates. -/
def Sets (s : ZstSession) : Prop :=
  ∀ e, (s.hierarchy.entities e).cables.Nodup

theorem plugRemoveCable_sets (hsets : Sets s) (e : EntityId) (a : ZstCableAddress) :
    Sets (s.plugRemoveCable e a) := by
  intro d
  rw [ZstSession.plugRemoveCable_cables]
  split
  · exact (hsets d).erase a
  · exact hsets d

theorem mem_plugRemoveCable (hsets : Sets s) (e d : EntityId) (a b : ZstCableAddress) :
    b ∈ ((s.plugRemoveCable e a).hierarchy.entities d).cables ↔
      b ∈ (s.hierarchy.entities d).cables ∧ ¬ (b = a ∧ d = e) := by
  rw [ZstSession.plugRemoveCable_cables]
  split
  · rename_i hde
    rw [(hsets d).mem_erase_iff, and_comm]
    simp [hde]
  · rename_i hde
    simp [hde]

theorem unplug_keeps (s : ZstSession) (a : ZstCableAddress) :
    Replugged s (s.unplug a) ∧ (s.unplug a) = { s with hierarchy := (s.unplug a).hierarchy } :=
  ⟨ZstSession.unplug_rule (P := Replugged s) a
    (fun t e ht => ht.trans (ConnectReplies.replugged_plugRemoveCable t e a)) (.refl s),
    s.unplug_session a⟩

theorem unplug_sets (hsets : Sets s) (a : ZstCableAddress) : Sets (s.unplug a) :=
  ZstSession.unplug_rule a (fun _ e ht => plugRemoveCable_sets ht e a) hsets

/-- Both ends of the address forget it, and nobody forgets anything else. -/
theorem mem_unplug (hsets : Sets s) (a b : ZstCableAddress) (e : EntityId) :
    b ∈ ((s.unplug a).hierarchy.entities e).cables ↔
      b ∈ (s.hierarchy.entities e).cables ∧ ¬ (b = a ∧ EndOf s a e) := by
  unfold ZstSession.unplug EndOf
  cases hin : s.findInputPlug a.inputURI with
  | none =>
    dsimp only
    cases hout : s.findOutputPlug a.outputURI with
    | none => simp
    | some o => simp [mem_plugRemoveCable hsets, eq_comm]
  | some i =>
    dsimp only
    rw [Replugged.findOutputPlug (ConnectReplies.replugged_plugRemoveCable s i a)]
    cases hout : s.findOutputPlug a.outputURI with
    | none => simp [mem_plugRemoveCable hsets, eq_comm]
    | some o =>
      simp only [mem_plugRemoveCable (plugRemoveCable_sets hsets i a), mem_plugRemoveCable hsets,
        Option.some.injEq]
      tauto

theorem enqueueCableDeactivation_object (s : ZstSession) {c d : CableId} (hdc : d ≠ c) :
    (s.enqueueCableDeactivation c).cableObjects d = s.cableObjects d := by
  unfold ZstSession.enqueueCableDeactivation
  split
  · dsimp only
    rw [modifyCable_object, if_neg hdc]
  · rfl

/-- No cable of its address is in use any more. -/
theorem enqueueCableDeactivation_active (cabled : Cabled s) (hc : c ∈ s.cables)
    (b : ZstCableAddress) : Active (s.enqueueCableDeactivation c) b ↔
      Active s b ∧ b ≠ (s.cableObjects c).address := by
  have hsame := (ConnectReplies.enqueueCableDeactivation_keeps s c).2
  have hstatus := enqueueCableDeactivation_status s c
  constructor
  · rintro ⟨d, hd, hdb, hactivated⟩
    have hdc : d ≠ c := fun hdc => hstatus (hdc ▸ hactivated)
    rw [hsame.cables] at hd
    rw [enqueueCableDeactivation_object s hdc] at hdb hactivated
    refine ⟨⟨d, hd, hdb, hactivated⟩, fun hbc => hdc ?_⟩
    exact cabled.distinct d hd c hc (hdb.trans hbc)
  · rintro ⟨⟨d, hd, hdb, hactivated⟩, hbc⟩
    have hdc : d ≠ c := fun hdc => hbc (by rw [← hdb, hdc])
    refine ⟨d, hsame.cables ▸ hd, ?_⟩
    rw [enqueueCableDeactivation_object s hdc]
    exact ⟨hdb, hactivated⟩

theorem enqueueCableDeactivation_calm
    (hcalm : ∀ d ∈ s.cables, (s.cableObjects d).syncStatus = .activated →
      (s.cableObjects d).synchronisableEvents = [] ∧ d ∉ s.cleanupOps) (c d : CableId)
    (hd : d ∈ (s.enqueueCableDeactivation c).cables)
    (hactivated : ((s.enqueueCableDeactivation c).cableObjects d).syncStatus = .activated) :
    ((s.enqueueCableDeactivation c).cableObjects d).synchronisableEvents = [] ∧
      d ∉ (s.enqueueCableDeactivation c).cleanupOps := by
  have hdc : d ≠ c := fun hdc => enqueueCableDeactivation_status s c (hdc ▸ hactivated)
  rw [enqueueCableDeactivation_object s hdc] at hactivated ⊢
  rw [(ConnectReplies.enqueueCableDeactivation_keeps s c).2.cables] at hd
  refine ⟨(hcalm d hd hactivated).1, ?_⟩
  unfold ZstSession.enqueueCableDeactivation
  split
  · exact (hcalm d hd hactivated).2
  · exact (hcalm d hd hactivated).2

theorem CablesLinked.destroyCableComplete (linked : CablesLinked s) (cabled : Cabled s)
    (hc : c ∈ s.cables) :
    CablesLinked (s.destroyCableComplete c) := by
  rw [ZstSession.destroyCableComplete_eq]
  obtain ⟨hkeeps, hu⟩ := unplug_keeps s (s.cableObjects c).address
  have hmem := mem_unplug linked.sets (s.cableObjects c).address
  have hsets := unplug_sets linked.sets (s.cableObjects c).address
  generalize s.unplug (s.cableObjects c).address = u at hkeeps hu hmem hsets ⊢
  have hcables : Cabled u := (Unplugs.of_hierarchy hu).cabled cabled
  have hobjects : u.cableObjects = s.cableObjects := by rw [hu]
  have hlist : u.cables = s.cables := by rw [hu]
  have hactive : ∀ b, Active (u.enqueueCableDeactivation c) b ↔
      Active s b ∧ b ≠ (s.cableObjects c).address := fun b => by
    rw [enqueueCableDeactivation_active hcables (hlist ▸ hc), hobjects]
    unfold Active
    rw [hobjects, hlist]
  have hhierarchy := ZstSession.enqueueCableDeactivation_hierarchy u c
  have hfind : Replugged s (u.enqueueCableDeactivation c) :=
    hkeeps.trans (.of_hierarchy_eq hhierarchy)
  refine ⟨?_, fun b hb => ?_, fun e b => ?_, fun e => ?_, ?_⟩
  · rw [(ConnectReplies.enqueueCableDeactivation_keeps u c).2.cables, hlist]
    exact linked.nodup
  · rw [Replugged.findInputPlug hfind, Replugged.findOutputPlug hfind]
    exact linked.ends b ((hactive b).mp hb).1
  · rw [hhierarchy, hmem, linked.plugs, hactive, Replugged.endOf hfind]
    constructor
    · rintro ⟨⟨hb, hend⟩, hother⟩
      exact ⟨⟨hb, fun hbc => hother ⟨hbc, hbc ▸ hend⟩⟩, hend⟩
    · rintro ⟨⟨hb, hbc⟩, hend⟩
      exact ⟨⟨hb, hend⟩, fun hboth => hbc hboth.1⟩
  · rw [hhierarchy]
    exact hsets e
  · exact enqueueCableDeactivation_calm (by rw [hu]; exact linked.calm) c

theorem Grows.sends (h : ZstHierarchy) (sent : List Outgoing) : Grows h { h with sent } :=
  ⟨fun _ _ he => he, fun _ _ _ => rfl, fun _ _ _ => rfl, fun _ => rfl⟩

theorem CablesLinked.destroyCable (linked : CablesLinked s) (cabled : Cabled s)
    (hc : c ∈ s.cables) :
    CablesLinked (ZstStageSession.destroyCable s c) := by
  have htold : CablesLinked (onHierarchy s fun h =>
      broadcast h (.cableDestroyRequest (s.cableObjects c).address)) := by
    refine linked.grows rfl ?_
    simp only [onHierarchy, broadcast_eq]
    exact .sends s.hierarchy _
  exact htold.destroyCableComplete ((Unplugs.of_hierarchy rfl).cabled cabled) hc

/-- Destroying some cables one after the other. -/
theorem CablesLinked.destroyCables (linked : CablesLinked s) (cabled : Cabled s)
    (cables : List CableId)
    (hcables : ∀ c ∈ cables, c ∈ s.cables) :
    CablesLinked (cables.foldl ZstStageSession.destroyCable s) := by
  induction cables generalizing s with
  | nil => exact linked
  | cons c cables ih =>
    have hc := hcables c List.mem_cons_self
    refine ih (linked.destroyCable cabled hc) ((destroyCable_unplugs hc).1.cabled cabled)
      fun d hd => ?_
    rw [(ConnectReplies.destroyCable_keeps s c).2.cables]
    exact hcables d (List.mem_cons_of_mem c hd)

theorem CablesLinked.makeRoom (linked : CablesLinked s) (cabled : Cabled s) (input : EntityId) :
    CablesLinked (ConnectReplies.makeRoom s input) := by
  unfold ConnectReplies.makeRoom
  split
  · exact linked.destroyCables cabled _ (mem_getChildCables s input)
  · exact linked

theorem mem_plugAddCable (s : ZstSession) (e d : EntityId) (a b : ZstCableAddress) :
    b ∈ ((s.plugAddCable e a).hierarchy.entities d).cables ↔
      b ∈ (s.hierarchy.entities d).cables ∨ b = a ∧ d = e := by
  rw [ZstSession.plugAddCable_cables]
  by_cases hde : d = e
  · by_cases hold : a ∈ (s.hierarchy.entities d).cables
    · rw [if_pos hde, if_pos hold]
      exact (or_iff_left_of_imp fun hnew => hnew.1 ▸ hold).symm
    · rw [if_pos hde, if_neg hold]
      simp [hde]
  · rw [if_neg hde]
    exact (or_iff_left_of_imp fun hnew => absurd hnew.2 hde).symm

theorem plugAddCable_sets (hsets : Sets s) (e : EntityId) (a : ZstCableAddress) :
    Sets (s.plugAddCable e a) := by
  intro d
  rw [ZstSession.plugAddCable_cables]
  split
  · split
    · exact hsets d
    · rename_i hnew
      exact List.nodup_append.mpr ⟨hsets d, List.nodup_singleton a, fun b hb c hc hbc =>
        hnew (List.mem_singleton.mp hc ▸ hbc ▸ hb)⟩
  · exact hsets d

/-- What the plugs list once a new cable is plugged in. -/
theorem mem_createCable {input output : EntityId}
    (hfree : s.findCable ⟨(s.hierarchy.entities input).uri, (s.hierarchy.entities output).uri⟩ =
      none) (e : EntityId) (b : ZstCableAddress) :
    b ∈ ((s.createCable input output).1.hierarchy.entities e).cables ↔
      b ∈ (s.hierarchy.entities e).cables ∨
        b = ⟨(s.hierarchy.entities input).uri, (s.hierarchy.entities output).uri⟩ ∧
          (e = input ∨ e = output) := by
  simp only [ZstSession.createCable, hfree, mem_plugAddCable]
  tauto

/-- A new cable is in use, and its plugs list it. -/
theorem CablesLinked.createCable (linked : CablesLinked s) (cabled : Cabled s)
    {input output : EntityId}
    (hfree : s.findCable ⟨(s.hierarchy.entities input).uri, (s.hierarchy.entities output).uri⟩ =
      none)
    (hin : s.findInputPlug (s.hierarchy.entities input).uri = some input)
    (hout : s.findOutputPlug (s.hierarchy.entities output).uri = some output) :
    CablesLinked (s.createCable input output).1 := by
  have hkeeps := (ConnectReplies.createCable_keeps s input output).1
  have hset := mem_createCable hfree
  generalize ha : (⟨(s.hierarchy.entities input).uri, (s.hierarchy.entities output).uri⟩ :
    ZstCableAddress) = a at hfree hset
  have hends : ∀ e, EndOf s a e ↔ e = input ∨ e = output := fun e => by
    unfold EndOf
    rw [← ha, hin, hout]
    simp [eq_comm]
  have hfresh : s.nextCable ∉ s.cables := fun hmem =>
    Nat.lt_irrefl _ (cabled.known _ (Or.inl hmem))
  have hnone : ¬ Active s a := by
    rintro ⟨c, hc, hca, -⟩
    simpa [hca] using List.find?_eq_none.mp hfree c hc
  have hobject : ∀ c, c ≠ s.nextCable →
      (s.createCable input output).1.cableObjects c = s.cableObjects c := fun c hne => by
    simp only [ZstSession.createCable, ha, hfree, ZstSession.plugAddCable,
      ZstSession.modifyPlug_cableObjects, Function.update_of_ne hne]
  have hnew : (s.createCable input output).1.cableObjects s.nextCable =
      { address := a, input, output, syncStatus := .activated } := by
    simp only [ZstSession.createCable, ha, hfree, ZstSession.plugAddCable,
      ZstSession.modifyPlug_cableObjects, Function.update_self]
  have hlist : (s.createCable input output).1.cables = s.cables ++ [s.nextCable] := by
    simp only [ZstSession.createCable, ha, hfree, ZstSession.plugAddCable,
      ZstSession.modifyPlug_cables]
  have hactive : ∀ b, Active (s.createCable input output).1 b ↔ Active s b ∨ b = a := by
    intro b
    unfold Active
    simp only [hlist, List.mem_append, List.mem_singleton]
    constructor
    · rintro ⟨c, hc | rfl, hcb, hactivated⟩
      · rw [hobject c (ne_of_mem_of_not_mem hc hfresh)] at hcb hactivated
        exact Or.inl ⟨c, hc, hcb, hactivated⟩
      · rw [hnew] at hcb
        exact Or.inr hcb.symm
    · rintro (⟨c, hc, hcb, hactivated⟩ | rfl)
      · refine ⟨c, Or.inl hc, ?_⟩
        rw [hobject c (ne_of_mem_of_not_mem hc hfresh)]
        exact ⟨hcb, hactivated⟩
      · refine ⟨s.nextCable, Or.inr rfl, ?_⟩
        rw [hnew]
        exact ⟨rfl, rfl⟩
  refine ⟨?_, fun b hb => ?_, fun e b => ?_, ?_, fun c hc hactivated => ?_⟩
  · rw [hlist]
    exact List.nodup_append.mpr ⟨linked.nodup, List.nodup_singleton _, fun c hc d hd hcd =>
      hfresh (List.mem_singleton.mp hd ▸ hcd ▸ hc)⟩
  · rw [Replugged.findInputPlug hkeeps, Replugged.findOutputPlug hkeeps]
    rcases (hactive b).mp hb with hb | rfl
    · exact linked.ends b hb
    · rw [← ha, hin, hout]
      exact ⟨rfl, rfl⟩
  · rw [hset, hactive, Replugged.endOf hkeeps, linked.plugs, or_and_right]
    refine or_congr_right ?_
    constructor
    · rintro ⟨rfl, he⟩
      exact ⟨rfl, (hends e).mpr he⟩
    · rintro ⟨rfl, he⟩
      exact ⟨rfl, (hends e).mp he⟩
  · simp only [ZstSession.createCable, ha, hfree]
    exact plugAddCable_sets (plugAddCable_sets linked.sets input a) output a
  · have hops : (s.createCable input output).1.cleanupOps = s.cleanupOps := by
      simp only [ZstSession.createCable, ha, hfree, ZstSession.plugAddCable, ZstSession.modifyPlug]
    rw [hlist] at hc
    rw [hops]
    rcases List.mem_append.mp hc with hc | hc
    · rw [hobject c (ne_of_mem_of_not_mem hc hfresh)] at hactivated ⊢
      exact linked.calm c hc hactivated
    · rw [List.mem_singleton.mp hc, hnew]
      exact ⟨rfl, fun hmem => Nat.lt_irrefl _ (cabled.known _ (Or.inr (Or.inr hmem)))⟩

/-! ## The queue of the cables -/

/-- The second session has the same cables in use. -/
structure SameInUse (s t : ZstSession) : Prop where
  hierarchy : t.hierarchy = s.hierarchy
  cables : t.cables = s.cables
  address : ∀ c, (t.cableObjects c).address = (s.cableObjects c).address
  status : ∀ c ∈ s.cables, (t.cableObjects c).syncStatus = .activated ↔
    (s.cableObjects c).syncStatus = .activated
  calm : ∀ c ∈ s.cables, (t.cableObjects c).syncStatus = .activated →
    (t.cableObjects c).synchronisableEvents = [] ∧ c ∉ t.cleanupOps

theorem SameInUse.popped (hst : SameInUse s t) (c : CableId) :
    SameInUse s (t.modifyCable c fun x => { x with synchronisableEvents := [] }) := by
  refine ⟨hst.hierarchy, hst.cables, fun d => ?_, fun d hd => ?_, fun d hd hactivated => ?_⟩
  all_goals rw [modifyCable_object] at *
  · split
    · rename_i hdc
      rw [hdc]
      exact hst.address c
    · exact hst.address d
  · split
    · rename_i hdc
      rw [hdc] at hd ⊢
      exact hst.status c hd
    · exact hst.status d hd
  · split at hactivated
    · rename_i hdc
      rw [if_pos hdc]
      exact ⟨rfl, (hst.calm d hd (hdc ▸ hactivated)).2⟩
    · rename_i hdc
      rw [if_neg hdc]
      exact hst.calm d hd hactivated

/-- An event of a cable that is no longer in use. -/
theorem SameInUse.processCableEvent (hst : SameInUse s t)
    (hgone : c ∈ s.cables → (s.cableObjects c).syncStatus ≠ .activated)
    {event : SynchronisableEvent} (hevent : event ≠ .activated) :
    SameInUse s (t.processCableEvent c event) := by
  cases event with
  | activated => exact absurd rfl hevent
  | deactivated =>
    refine ⟨hst.hierarchy, hst.cables, fun d => ?_, fun d hd => ?_, fun d hd hactivated => ?_⟩
    all_goals simp only [ZstSession.processCableEvent, modifyCable_object] at *
    · split
      · rename_i hdc
        rw [hdc]
        exact hst.address c
      · exact hst.address d
    · split
      · rename_i hdc
        simp [hdc, hgone (hdc ▸ hd)]
      · exact hst.status d hd
    · split at hactivated
      · cases hactivated
      · rename_i hdc
        rw [if_neg hdc]
        exact hst.calm d hd hactivated
  | destroyed =>
    refine ⟨hst.hierarchy, hst.cables, hst.address, hst.status, fun d hd hactivated => ?_⟩
    refine ⟨(hst.calm d hd hactivated).1, fun hmem => ?_⟩
    rcases List.mem_append.mp hmem with hmem | hmem
    · exact (hst.calm d hd hactivated).2 hmem
    · obtain rfl := List.mem_singleton.mp hmem
      exact hgone hd ((hst.status d hd).mp hactivated)
  | updated => exact hst

theorem SameInUse.processCableItem (hst : SameInUse s t) (c : CableId)
    (hquiet : .activated ∉ (t.cableObjects c).synchronisableEvents) :
    SameInUse s (t.processCableItem c) := by
  unfold ZstSession.processCableItem
  by_cases hused : c ∈ s.cables ∧ (s.cableObjects c).syncStatus = .activated
  · rw [(hst.calm c hused.1 ((hst.status c hused.1).mpr hused.2)).1]
    exact hst.popped c
  · refine List.foldlRecOn (motive := SameInUse s) _ _ (hst.popped c) fun u hu event hevent => ?_
    exact hu.processCableEvent (fun hc hactivated => hused ⟨hc, hactivated⟩)
      fun heq => hquiet (heq ▸ hevent)

/-- The drain of the session's queue leaves the cables in use alone. -/
theorem CablesLinked.processCableItems (linked : CablesLinked s) (cabled : Cabled s) :
    SameInUse s s.processCableItems := by
  have hempty : Unplugs s { s with synchronisableEvents := [] } :=
    ⟨rfl, fun _ hc => hc, fun c hc => Or.inr (hc.imp (fun hc => by simp at hc) id),
      fun _ => rfl, fun _ hc => hc, fun _ hc => hc⟩
  have hsame : SameInUse s { s with synchronisableEvents := [] } :=
    ⟨rfl, rfl, fun _ => rfl, fun _ _ => Iff.rfl, linked.calm⟩
  refine (List.foldlRecOn (motive := fun (t : ZstSession) => SameInUse s t ∧ Unplugs s t) _ _
    ⟨hsame, hempty⟩ fun t ht c hc => ⟨?_, ?_⟩).1
  · exact ht.1.processCableItem c (ht.2.quiet c (cabled.quiet c))
  · exact ht.2.processCableItem hc (ht.2.quiet c (cabled.quiet c))

/-- The reaper only erases what is not in use. -/
theorem CablesLinked.cableEvents (linked : CablesLinked s) (cabled : Cabled s) :
    CablesLinked s.processCableItems.reapCables := by
  have hitems := linked.processCableItems cabled
  generalize s.processCableItems = t at hitems ⊢
  have hlist : ∀ c, c ∈ t.reapCables.cables ↔ c ∈ s.cables ∧ c ∉ t.cleanupOps := fun c => by
    simp [ZstSession.reapCables, hitems.cables]
  have hactive : ∀ a, Active t.reapCables a ↔ Active s a := by
    intro a
    constructor
    · rintro ⟨c, hc, hca, hactivated⟩
      have hmem := ((hlist c).mp hc).1
      exact ⟨c, hmem, (hitems.address c).symm.trans hca, (hitems.status c hmem).mp hactivated⟩
    · rintro ⟨c, hc, hca, hactivated⟩
      have hstill := (hitems.status c hc).mpr hactivated
      exact ⟨c, (hlist c).mpr ⟨hc, (hitems.calm c hc hstill).2⟩, (hitems.address c).trans hca,
        hstill⟩
  have hhierarchy : t.reapCables.hierarchy = s.hierarchy := hitems.hierarchy
  have hkeeps : Replugged s t.reapCables := .of_hierarchy_eq hhierarchy
  refine ⟨?_, fun a ha => ?_, fun e a => ?_, fun e => ?_, fun c hc hactivated => ⟨?_, ?_⟩⟩
  · simp only [ZstSession.reapCables, hitems.cables]
    exact linked.nodup.filter _
  · rw [Replugged.findInputPlug hkeeps, Replugged.findOutputPlug hkeeps]
    exact linked.ends a ((hactive a).mp ha)
  · rw [hactive, Replugged.endOf hkeeps, hhierarchy]
    exact linked.plugs e a
  · rw [hhierarchy]
    exact linked.sets e
  · exact (hitems.calm c ((hlist c).mp hc).1 hactivated).1
  · simp [ZstSession.reapCables]

end Plugs

/-! ## Nobody leaves -/

/-- An entity without the data that callbacks and arrivals change. -/
def plain (x : Entity) : Entity :=
  { x with sessionAdaptor := false, stageProxy := none }

/-- The second hierarchy has the same entities, and no other events to process. -/
structure Rests (h k : ZstHierarchy) : Prop where
  entities : ∀ e, plain (k.entities e) = plain (h.entities e)
  lookup : k.lookup = h.lookup
  root : k.root = h.root
  hierarchyEvents : k.hierarchyEvents = h.hierarchyEvents
  cleanupOps : k.cleanupOps = h.cleanupOps

namespace Rests

variable {h k l : ZstHierarchy}

theorem refl (h : ZstHierarchy) : Rests h h :=
  ⟨fun _ => rfl, rfl, rfl, rfl, rfl⟩

theorem trans (hk : Rests h k) (kl : Rests k l) : Rests h l :=
  ⟨fun e => (kl.entities e).trans (hk.entities e), kl.lookup.trans hk.lookup,
    kl.root.trans hk.root, kl.hierarchyEvents.trans hk.hierarchyEvents,
    kl.cleanupOps.trans hk.cleanupOps⟩

theorem sends (h : ZstHierarchy) (sent : List Outgoing) : Rests h { h with sent } :=
  ⟨fun _ => rfl, rfl, rfl, rfl, rfl⟩

theorem modify (h : ZstHierarchy) (e : EntityId) (f : Entity → Entity)
    (hf : ∀ x, plain (f x) = plain x) : Rests h (h.modify e f) := by
  refine ⟨fun d => ?_, rfl, rfl, rfl, rfl⟩
  rw [modify_entities]
  split
  · rename_i hde
    rw [hf, hde]
  · rfl

theorem foldl {α : Type} {f : ZstHierarchy → α → ZstHierarchy} (hf : ∀ h a, Rests h (f h a))
    (items : List α) (h : ZstHierarchy) : Rests h (items.foldl f h) := by
  induction items generalizing h with
  | nil => exact .refl h
  | cons a items ih => exact (hf h a).trans (ih (f h a))

theorem field {β : Type} (hk : Rests h k) (f : Entity → β) (hf : ∀ x, f (plain x) = f x)
    (e : EntityId) : f (k.entities e) = f (h.entities e) := by
  rw [← hf, hk.entities e, hf]

theorem findEntity_eq (hk : Rests h k) (path : ZstURI) : k.findEntity path = h.findEntity path := by
  simp only [findEntity, hk.root, hk.lookup, hk.field Entity.uri fun _ => rfl]

theorem grows (hk : Rests h k) : Grows h k where
  found path _ he := (hk.findEntity_eq path).trans he
  input _ e _ := hk.field Entity.isInputPlug (fun _ => rfl) e
  output _ e _ := hk.field Entity.isOutputPlug (fun _ => rfl) e
  cables := hk.field Entity.cables fun _ => rfl

theorem steady (hk : Rests h k) (steady : NobodyLeaving h) : NobodyLeaving k where
  noneLeaving := by
    unfold NoneLeaving
    rw [hk.hierarchyEvents]
    exact steady.noneLeaving
  calm e := by
    rw [hk.field Entity.synchronisableEvents fun _ => rfl]
    exact steady.calm e
  kept := hk.cleanupOps.trans steady.kept

end Rests

/-! ## Steps -/

section Steps

variable {s t : ZstSession}

/-- The plugs list exactly the cables in use, and nobody is on the way out. -/
structure ListsCablesInUse (s : ZstSession) : Prop where
  linked : CablesLinked s
  steady : NobodyLeaving s.hierarchy

theorem ListsCablesInUse.rests (tidy : ListsCablesInUse s)
    (ht : t = { s with hierarchy := t.hierarchy })
    (hk : Rests s.hierarchy t.hierarchy) : ListsCablesInUse t :=
  ⟨tidy.linked.grows ht hk.grows, hk.steady tidy.steady⟩

theorem broadcast_rests (h : ZstHierarchy) (content : Content) (excluded : Option EntityId) :
    Rests h (broadcast h content excluded) := by
  rw [broadcast_eq]
  exact .sends h _

theorem whisperTo_rests (h : ZstHierarchy) (performer : EntityId) (content : Content)
    (msgID : Option ZstMsgID) (action : Option ResponseAction) :
    Rests h (whisperTo h performer content msgID action) := by
  rw [whisperTo_eq]
  exact .sends h _

theorem cableConnectFinished_rests {cable : CableId} {sender : EntityId} {id : ZstMsgID}
    {signal : Signal} (hrun : cableConnectFinished s cable sender id signal = .ok t) :
    Rests s.hierarchy t.hierarchy := by
  obtain ⟨told, htold, -, rfl⟩ := cableConnectFinished_succeeded hrun
  refine .trans ?_ (whisperTo_rests told sender _ _ _)
  rcases htold with ⟨-, -, rfl⟩ | ⟨-, rfl⟩
  · exact broadcast_rests s.hierarchy _ none
  · exact .refl _

theorem onRecvResponse_rests {action : ResponseAction} {response : Option Content}
    (hrun : onRecvResponse s action response = .ok t) : Rests s.hierarchy t.hierarchy := by
  unfold onRecvResponse at hrun
  split at hrun
  · obtain ⟨k, hfactory, hrun⟩ := Library.bind_ok.mp hrun
    obtain rfl := Except.ok.inj hrun
    unfold factoryEntityCreated at hfactory
    obtain ⟨performer, -, hfactory⟩ := Library.bind_ok.mp hfactory
    obtain rfl := Except.ok.inj hfactory
    dsimp only
    split
    · exact whisperTo_rests _ _ _ _ _
    · exact (whisperTo_rests _ _ _ _ _).trans (whisperTo_rests _ _ _ _ _)
  · rename_i output input follow
    by_cases hok : verifySignal response .ok = true
    · obtain ⟨-, -, hfollow⟩ := clientsConnected_succeeded hok hrun
      have hsubscribed : Rests s.hierarchy (completeClientConnection s output input).hierarchy := by
        rw [completeClientConnection_eq]
        refine .trans (.modify s.hierarchy output _ fun x => ?_) (.sends _ _)
        rfl
      refine hsubscribed.trans ?_
      cases follow with
      | none =>
        obtain rfl := Except.ok.inj hfollow
        exact .refl _
      | cable cable sender id => exact cableConnectFinished_rests hfollow
      | observe sender id =>
        unfold onConnected at hfollow
        obtain ⟨sender, -, hreply⟩ := Library.bind_ok.mp hfollow
        obtain rfl := Except.ok.inj hreply
        exact whisperTo_rests _ sender _ _ _
    · unfold clientsConnected at hrun
      rw [if_neg hok] at hrun
      obtain rfl := Except.ok.inj hrun
      exact .refl _
  · obtain rfl := Except.ok.inj hrun
    exact .refl _

theorem NobodyLeaving.modify {h : ZstHierarchy} (steady : NobodyLeaving h) (e : EntityId)
    (f : Entity → Entity)
    (hf : ∀ x, (f x).synchronisableEvents = x.synchronisableEvents) :
    NobodyLeaving (h.modify e f) := by
  refine ⟨steady.noneLeaving, fun d => ?_, steady.kept⟩
  rw [modify_entities]
  split
  · rw [hf]
    exact steady.calm e
  · exact steady.calm d

theorem NobodyLeaving.plugRemoveCable (steady : NobodyLeaving s.hierarchy) (e : EntityId)
    (a : ZstCableAddress) : NobodyLeaving (s.plugRemoveCable e a).hierarchy := by
  unfold ZstSession.plugRemoveCable
  rw [ZstSession.modifyPlug_hierarchy]
  exact steady.modify e _ fun _ => rfl

theorem NobodyLeaving.plugAddCable (steady : NobodyLeaving s.hierarchy) (e : EntityId)
    (a : ZstCableAddress) :
    NobodyLeaving (s.plugAddCable e a).hierarchy := by
  unfold ZstSession.plugAddCable
  rw [ZstSession.modifyPlug_hierarchy]
  exact steady.modify e _ fun _ => rfl

theorem NobodyLeaving.destroyCable (steady : NobodyLeaving s.hierarchy) (c : CableId) :
    NobodyLeaving (ZstStageSession.destroyCable s c).hierarchy := by
  unfold ZstStageSession.destroyCable
  rw [ZstSession.destroyCableComplete_eq, ZstSession.enqueueCableDeactivation_hierarchy]
  refine ZstSession.unplug_rule (P := fun (t : ZstSession) => NobodyLeaving t.hierarchy) _
    (fun _ e ht => ht.plugRemoveCable e _) ?_
  exact (broadcast_rests s.hierarchy _ none).steady steady

theorem NobodyLeaving.makeRoom (steady : NobodyLeaving s.hierarchy) (input : EntityId) :
    NobodyLeaving (ConnectReplies.makeRoom s input).hierarchy := by
  unfold ConnectReplies.makeRoom
  split
  · exact List.foldlRecOn (motive := fun (t : ZstSession) => NobodyLeaving t.hierarchy) _ _ steady
      fun t ht c _ => ht.destroyCable c
  · exact steady

theorem NobodyLeaving.createCable (steady : NobodyLeaving s.hierarchy) (input output : EntityId) :
    NobodyLeaving (s.createCable input output).1.hierarchy := by
  unfold ZstSession.createCable
  dsimp only
  split
  · split
    · exact steady
    · rw [ZstSession.enqueueCableActivation_hierarchy]
      exact steady
  · refine plugAddCable (plugAddCable ?_ input _) output _
    exact steady

theorem ListsCablesInUse.plugged (tidy : ListsCablesInUse s) (cabled : Cabled s)
    (indexed : Indexed s.hierarchy)
    {a : ZstCableAddress} {input output : EntityId} (hfree : s.findCable a = none)
    (hin : s.findInputPlug a.inputURI = some input)
    (hout : s.findOutputPlug a.outputURI = some output) :
    ListsCablesInUse (ConnectReplies.plugged s input output) := by
  obtain ⟨hkeeps, hsame⟩ := ConnectReplies.makeRoom_keeps s input
  have huri := hkeeps.field Entity.uri fun _ => rfl
  have hinput : (s.hierarchy.entities input).uri = a.inputURI :=
    indexed.findEntity_uri (Option.filter_eq_some_iff.mp hin).1
  have houtput : (s.hierarchy.entities output).uri = a.outputURI :=
    indexed.findEntity_uri (Option.filter_eq_some_iff.mp hout).1
  refine ⟨?_, (tidy.steady.makeRoom input).createCable input output⟩
  refine (tidy.linked.makeRoom cabled input).createCable ((makeRoom_doomed cabled input).1.cabled
    cabled) ?_ ?_ ?_
  · rw [huri, huri, hinput, houtput, hsame.findCable]
    exact hfree
  · rw [huri, hinput, Replugged.findInputPlug hkeeps]
    exact hin
  · rw [huri, houtput, Replugged.findOutputPlug hkeeps]
    exact hout

theorem ListsCablesInUse.createCableHandler (tidy : ListsCablesInUse s) (wired : Wired s)
    {msg : ZstStageMessage}
    {a : ZstCableAddress} {sender : EntityId} {response : Signal}
    (hrun : createCableHandler s msg a sender = .ok (t, response)) : ListsCablesInUse t := by
  rcases createCableHandler_ok hrun with
    ⟨-, rfl⟩ | ⟨-, input, output, p, q, hfree, hin, hout, -, -, hfinish⟩
  · exact tidy
  · have hplugged := tidy.plugged wired.cabled wired.indexed hfree hin hout
    split at hfinish
    · exact hplugged.rests (cableConnectFinished_sends hfinish).1 (cableConnectFinished_rests hfinish)
    · rw [hfinish, connectClients_eq]
      exact hplugged.rests rfl (.sends _ _)

theorem ListsCablesInUse.destroyCableHandler (tidy : ListsCablesInUse s) (wired : Wired s)
    (a : ZstCableAddress) :
    ListsCablesInUse (destroyCableHandler s a).1 := by
  unfold ZstStageSession.destroyCableHandler
  split
  · rename_i c hfind
    exact ⟨tidy.linked.destroyCable wired.cabled (List.mem_of_find?_eq_some hfind),
      tidy.steady.destroyCable c⟩
  · exact tidy

/-! ### The event loop -/

theorem Grows.modify (h : ZstHierarchy) (e : EntityId) (f : Entity → Entity)
    (hf : ∀ x, lasting (f x) = lasting x) (hcables : ∀ x, (f x).cables = x.cables) :
    Grows h (h.modify e f) := by
  refine .of_standing (.modify h e f hf) fun d => ?_
  rw [modify_entities]
  split
  · rename_i hde
    rw [hcables, hde]
  · rfl

/-- The event of an entity that stays. -/
theorem processEvent_stays {h : ZstHierarchy} (steady : NobodyLeaving h) (e : EntityId)
    {event : SynchronisableEvent} (hevent : event = .activated ∨ event = .updated) :
    Grows h (processEvent stageOverrides h e event) ∧
      NobodyLeaving (processEvent stageOverrides h e event) := by
  rcases hevent with rfl | rfl
  · have hset : Grows h (h.setActivationStatus e .activated) :=
      .modify h e _ (fun _ => rfl) fun _ => rfl
    have hstays : NobodyLeaving (h.setActivationStatus e .activated) :=
        steady.modify e _ fun _ => rfl
    refine ⟨hset.trans (.modify _ e onActivation ?_ ?_), hstays.modify e onActivation ?_⟩
    all_goals
      intro x
      unfold onActivation
      split <;> rfl
  · exact ⟨.refl h, steady⟩

theorem processItem_stays {h : ZstHierarchy} (steady : NobodyLeaving h) (e : EntityId) :
    Grows h (processItem stageOverrides h e) ∧ NobodyLeaving (processItem stageOverrides h e) := by
  unfold processItem
  split
  · exact ⟨.refl h, steady⟩
  · refine processOwnEvents_rule stageOverrides
      (P := fun k => Grows h k ∧ NobodyLeaving k) (fun k event rest hk hown => ?_) _ ⟨?_, ?_⟩
    · have hevent := hk.2.calm e event (hown ▸ List.mem_cons_self)
      have hpopped :
          NobodyLeaving (k.modify e fun x => { x with synchronisableEvents := rest }) := by
        refine ⟨hk.2.noneLeaving, fun d event hd => ?_, hk.2.kept⟩
        rw [modify_entities] at hd
        split at hd
        · exact hk.2.calm e event (hown ▸ List.mem_cons_of_mem _ hd)
        · exact hk.2.calm d event hd
      have hpop : Grows k (k.modify e fun x => { x with synchronisableEvents := rest }) :=
        .modify k e _ (fun _ => rfl) fun _ => rfl
      obtain ⟨hgrows, hsteady⟩ := processEvent_stays hpopped e hevent
      exact ⟨(hk.1.trans hpop).trans hgrows, hsteady⟩
    · exact ⟨fun _ _ he => he, fun _ _ _ => rfl, fun _ _ _ => rfl, fun _ => rfl⟩
    · exact ⟨steady.noneLeaving, steady.calm, steady.kept⟩

theorem processItems_stays {h : ZstHierarchy} (steady : NobodyLeaving h) (fuel : Nat) :
    Grows h (processItems stageOverrides fuel h) ∧
      NobodyLeaving (processItems stageOverrides fuel h) := by
  refine processItems_rule stageOverrides (P := fun k => Grows h k ∧ NobodyLeaving k)
    (fun k e rest hk _ => ?_) fuel ⟨.refl h, steady⟩
  have hpopped : NobodyLeaving { k with synchronisableEvents := rest } :=
    ⟨hk.2.noneLeaving, hk.2.calm, hk.2.kept⟩
  have hrest : Grows k { k with synchronisableEvents := rest } :=
    ⟨fun _ _ he => he, fun _ _ _ => rfl, fun _ _ _ => rfl, fun _ => rfl⟩
  obtain ⟨hgrows, hsteady⟩ := processItem_stays hpopped e
  exact ⟨(hk.1.trans hrest).trans hgrows, hsteady⟩

theorem registerEntity_rests (s : ZstSession) (e : EntityId) :
    Rests s.hierarchy (s.registerEntity e).hierarchy := by
  unfold ZstSession.registerEntity
  exact .foldl (f := fun h c => h.modify c fun x => { x with sessionAdaptor := true })
    (fun h c => .modify h c _ fun _ => rfl) _ _

theorem onEntityArriving_rests (h : ZstHierarchy) (e : EntityId) :
    Rests h (onEntityArriving h e) := by
  unfold onEntityArriving
  dsimp only
  split
  · exact .refl h
  · exact broadcast_rests h _ _

theorem ListsCablesInUse.hierarchyEvent (tidy : ListsCablesInUse s)
    (hrun : step s .hierarchyEvent = .ok t) : ListsCablesInUse t := by
  simp only [ZstStage.step] at hrun
  split at hrun
  · obtain rfl := Except.ok.inj hrun
    exact tidy
  · rename_i event rest hevents
    have hpopped :
        ListsCablesInUse (onHierarchy s fun h => { h with hierarchyEvents := rest }) := by
      refine ⟨tidy.linked.grows rfl ?_, fun event hevent => ?_, tidy.steady.calm, tidy.steady.kept⟩
      · exact ⟨fun _ _ he => he, fun _ _ _ => rfl, fun _ _ _ => rfl, fun _ => rfl⟩
      · exact tidy.steady.noneLeaving event (hevents ▸ List.mem_cons_of_mem _ hevent)
    have hnone := tidy.steady.noneLeaving event (hevents ▸ List.mem_cons_self)
    generalize (onHierarchy s fun h => { h with hierarchyEvents := rest }) = u at hrun hpopped
    cases event with
    | entityArriving e | performerArriving e =>
      obtain ⟨e, -, hrun⟩ := Library.bind_ok.mp hrun
      obtain rfl := Except.ok.inj hrun
      have harrived : ListsCablesInUse (onHierarchy u fun h => onEntityArriving h e) :=
        hpopped.rests rfl (onEntityArriving_rests u.hierarchy e)
      exact harrived.rests rfl (registerEntity_rests _ e)
    | factoryArriving e =>
      obtain ⟨e, -, hrun⟩ := Library.bind_ok.mp hrun
      obtain rfl := Except.ok.inj hrun
      exact hpopped.rests rfl (onEntityArriving_rests _ e)
    | entityLeaving path => exact absurd rfl (hnone path).1
    | performerLeaving path => exact absurd rfl (hnone path).2
    | factoryLeaving path | entityUpdated e =>
      obtain rfl := Except.ok.inj hrun
      exact hpopped

/-- The message asks for a cable or for the end of one. -/
def IsCableRequest : Content → Prop
  | .cableCreateRequest _ | .cableDestroyRequest _ => True
  | _ => False

/-- The hierarchy has nothing to do with such a message. -/
theorem onReceiveMsg_cableRequest (h : ZstHierarchy) {msg : ZstStageMessage}
    (hmsg : IsCableRequest msg.content) : ZstStageHierarchy.onReceiveMsg h msg = .ok h := by
  unfold ZstStageHierarchy.onReceiveMsg ZstStageHierarchy.dispatch
  cases hcontent : msg.content with
  | cableCreateRequest path => rfl
  | cableDestroyRequest path => rfl
  | _ =>
    rw [hcontent] at hmsg
    exact hmsg.elim

theorem ListsCablesInUse.dispatch (tidy : ListsCablesInUse s) (wired : Wired s)
    {msg : ZstStageMessage}
    {sender : EntityId} {response : Signal} (hmsg : IsCableRequest msg.content)
    (hrun : ZstStageSession.dispatch s msg sender = .ok (t, response)) : ListsCablesInUse t := by
  unfold ZstStageSession.dispatch at hrun
  cases hcontent : msg.content with
  | cableCreateRequest path =>
    rw [hcontent] at hrun
    exact tidy.createCableHandler wired hrun
  | cableDestroyRequest path =>
    rw [hcontent] at hrun
    obtain rfl : (ZstStageSession.destroyCableHandler s path).1 = t :=
      congrArg Prod.fst (Except.ok.inj hrun)
    exact tidy.destroyCableHandler wired path
  | _ =>
    rw [hcontent] at hmsg
    exact hmsg.elim

theorem ListsCablesInUse.receive (tidy : ListsCablesInUse s) (wired : Wired s)
    {msg : ZstStageMessage}
    (hmsg : IsCableRequest msg.content) (hrun : receive s msg = .ok t) : ListsCablesInUse t := by
  obtain ⟨u, hsession, hrun⟩ := Library.bind_ok.mp hrun
  rw [onReceiveMsg_cableRequest u.hierarchy hmsg] at hrun
  obtain rfl := Except.ok.inj hrun
  unfold ZstStageSession.onReceiveMsg at hsession
  split at hsession
  · obtain rfl := Except.ok.inj hsession
    exact tidy
  · obtain ⟨⟨w, response⟩, hdispatch, hrespond⟩ := Library.bind_ok.mp hsession
    obtain rfl := Except.ok.inj hrespond
    refine (tidy.dispatch wired hmsg hdispatch).rests rfl ?_
    simp only [onHierarchy, respond_eq]
    exact .sends w.hierarchy _

/-- A request for a cable, a response, or a step of the event loop or the reaper. -/
def Rewires : StageEvent → Prop
  | .receive msg => IsCableRequest msg.content
  | .heartbeatTimer => False
  | _ => True

/-- A step keeps the session and the plugs in agreement. -/
theorem ListsCablesInUse.step (tidy : ListsCablesInUse s) (wired : Wired s) {event : StageEvent}
    (hevent : Rewires event)
    (hrun : step s event = .ok t) : ListsCablesInUse t := by
  cases event with
  | receive msg => exact tidy.receive wired hevent hrun
  | heartbeatTimer => exact hevent.elim
  | respond message response =>
    have ht := (respond_cables hrun).1
    simp only [ZstStage.step] at hrun
    split at hrun
    · exact tidy.rests ht (onRecvResponse_rests hrun)
    · obtain rfl := Except.ok.inj hrun
      exact tidy
  | hierarchyEvent => exact tidy.hierarchyEvent hrun
  | synchronisableEvent =>
    obtain rfl := Except.ok.inj hrun
    obtain ⟨hgrows, hsteady⟩ := processItems_stays tidy.steady 1
    exact ⟨tidy.linked.grows rfl hgrows, hsteady⟩
  | cleanup =>
    obtain rfl := Except.ok.inj hrun
    have hnone : reapAll stageOverrides 1 s.hierarchy = s.hierarchy := by
      simp only [reapAll, tidy.steady.kept]
    refine tidy.rests rfl ?_
    dsimp only [onHierarchy]
    rw [hnone]
    exact .refl _
  | forgetDead =>
    obtain rfl := Except.ok.inj hrun
    exact tidy.rests rfl ⟨fun _ => rfl, rfl, rfl, rfl, rfl⟩
  | cableEvents =>
    obtain rfl := Except.ok.inj hrun
    refine ⟨tidy.linked.cableEvents wired.cabled, ?_⟩
    rw [Standing.cableEvents_hierarchy]
    exact tidy.steady

/-! ### Arrivals -/

def childless (x : Entity) : Entity :=
  { x with children := [] }

/-- An arrival leaves everyone else as they are, but for the children. -/
theorem arrive_field {β : Type} {h : ZstHierarchy} (x : Entity) {e : EntityId} (he : e ≠ h.next)
    (f : Entity → β) (hf : ∀ y, f (childless y) = f y) :
    f ((h.arrive x).entities e) = f (h.entities e) := by
  have hsame : childless ((h.arrive x).entities e) = childless (h.entities e) := by
    simp only [ZstHierarchy.arrive, he, if_false]
    split <;> rfl
  rw [← hf, hsame, hf]

theorem arrive_next (h : ZstHierarchy) (x : Entity) :
    ((h.arrive x).entities h.next).cables = x.cables ∧
      ((h.arrive x).entities h.next).synchronisableEvents = x.synchronisableEvents := by
  simp only [ZstHierarchy.arrive, if_true, placed]
  split
  · split
    · exact ⟨rfl, rfl⟩
    · split <;> exact ⟨rfl, rfl⟩
  · exact ⟨rfl, rfl⟩

theorem arrivedEvent_arriving {e : EntityId} {kind : ZstEntityType} {event : HierarchyEvent}
    (hevent : event ∈ arrivedEvent e kind) (path : ZstURI) :
    event ≠ .entityLeaving path ∧ event ≠ .performerLeaving path := by
  cases kind with
  | none => cases hevent
  | component | plug | factory | performer =>
    obtain rfl := List.mem_singleton.mp hevent
    exact ⟨by simp, by simp⟩

/-- Who arrives under a new path brings no cables. -/
theorem CablesLinked.grows_arrive (linked : CablesLinked s) (keyed : Keyed s.hierarchy) {x : Entity}
    (hnew : s.hierarchy.findEntity x.uri = none) (hcables : x.cables = []) :
    Grows s.hierarchy (s.hierarchy.arrive x) := by
  have hfound : ∀ path e, s.hierarchy.findEntity path = some e → e ≠ s.hierarchy.next :=
    fun path e he => Nat.ne_of_lt (keyed.allocated path e he)
  have hbare : (s.hierarchy.entities s.hierarchy.next).cables = [] := by
    refine List.eq_nil_iff_forall_not_mem.mpr fun a ha => ?_
    rcases ((linked.plugs _ a).mp ha).2 with hend | hend
    · exact hfound _ _ (Option.filter_eq_some_iff.mp hend).1 rfl
    · exact hfound _ _ (Option.filter_eq_some_iff.mp hend).1 rfl
  refine ⟨fun path e he => ?_, fun path e he => ?_, fun path e he => ?_, fun e => ?_⟩
  · rw [keyed.findEntity_arrive hnew, if_neg]
    · exact he
    · rintro rfl
      rw [hnew] at he
      cases he
  · exact arrive_field x (hfound path e he) Entity.isInputPlug fun _ => rfl
  · exact arrive_field x (hfound path e he) Entity.isOutputPlug fun _ => rfl
  · by_cases hne : e = s.hierarchy.next
    · rw [hne, hbare, (arrive_next _ x).1, hcables]
    · exact arrive_field x hne Entity.cables fun _ => rfl

theorem ListsCablesInUse.arrive (tidy : ListsCablesInUse s) (keyed : Keyed s.hierarchy) {x : Entity}
    (hnew : s.hierarchy.findEntity x.uri = none) (hcables : x.cables = [])
    (hevents : x.synchronisableEvents = []) :
    ListsCablesInUse { s with hierarchy := s.hierarchy.arrive x } := by
  have hgrows := tidy.linked.grows_arrive keyed hnew hcables
  refine ⟨tidy.linked.grows rfl hgrows, fun event hevent => ?_, fun e => ?_, tidy.steady.kept⟩
  · rcases List.mem_append.mp hevent with hevent | hevent
    · exact tidy.steady.noneLeaving event hevent
    · exact arrivedEvent_arriving hevent
  · by_cases hne : e = s.hierarchy.next
    · rw [hne, (arrive_next _ x).2, hevents]
      simp
    · dsimp only
      rw [arrive_field x hne Entity.synchronisableEvents fun _ => rfl]
      exact tidy.steady.calm e

/-- A performer with a path joins, or an entity is created. -/
def Arrives : Content → Prop
  | .clientJoinRequest performer _ => performer.uri ≠ []
  | .entityCreateRequest _ => True
  | _ => False

/-- What the handlers of the hierarchy make of an arrival. -/
theorem receive_arrives_ok (keyed : Keyed s.hierarchy) {msg : ZstStageMessage}
    (hmsg : Arrives msg.content) (hrun : receive s msg = .ok t) :
    t = { s with hierarchy := t.hierarchy } ∧ (Rests s.hierarchy t.hierarchy ∨
      ∃ x : Entity, x.uri ≠ [] ∧ s.hierarchy.findEntity x.uri = none ∧ x.cables = [] ∧
        x.synchronisableEvents = [] ∧ Rests (s.hierarchy.arrive x) t.hierarchy) := by
  have hcalm : ¬ EntityPreserving msg.content := by
    cases hcontent : msg.content with
    | clientJoinRequest | entityCreateRequest => exact not_false
    | _ =>
      rw [hcontent] at hmsg
      exact hmsg.elim
  obtain ⟨l, response, hdispatch, rfl⟩ := receive_not_calm hcalm hrun
  have hrespond : Rests l (respond l msg response) := by
    rw [respond_eq]
    exact .sends l _
  refine ⟨rfl, ?_⟩
  unfold ZstStageHierarchy.dispatch at hdispatch
  cases hcontent : msg.content with
  | clientJoinRequest performer address =>
    rw [hcontent] at hdispatch hmsg
    rcases createClientHandler_ok hdispatch with rfl | ⟨hfind, hadd⟩
    · exact Or.inl hrespond
    · obtain rfl := eq_arrive_of_ok (keyed.above _) (unplaced_performerStageProxy _ _ _) hadd
      have hnamed : performer.uri ≠ [] := hmsg
      exact Or.inr ⟨_, hnamed, hfind, rfl, rfl, hrespond⟩
  | entityCreateRequest buffer =>
    rw [hcontent] at hdispatch
    rcases createEntityHandler_ok hdispatch with rfl | ⟨x, hx, hadd⟩
    · exact Or.inl hrespond
    · obtain ⟨hfind, rfl⟩ := createProxyEntity_eq_some hx
      obtain rfl := eq_arrive_of_ok (keyed.above _) (unplaced_unpack buffer) hadd
      exact Or.inr ⟨_, createEntityHandler_uri hdispatch, hfind, rfl, rfl, hrespond⟩
  | _ =>
    rw [hcontent] at hmsg
    exact hmsg.elim

theorem ListsCablesInUse.receive_arrives (tidy : ListsCablesInUse s) (keyed : Keyed s.hierarchy)
    {msg : ZstStageMessage}
    (hmsg : Arrives msg.content) (hrun : ZstStageSession.receive s msg = .ok t) :
    ListsCablesInUse t := by
  obtain ⟨ht, hk | ⟨x, -, hnew, hcables, hevents, hk⟩⟩ := receive_arrives_ok keyed hmsg hrun
  · exact tidy.rests ht hk
  · rw [ht]
    exact (tidy.arrive keyed hnew hcables hevents).rests rfl hk

/-- A step that brings entities or cables, or one of the event loop or the reaper. -/
def Builds : StageEvent → Prop
  | .receive msg => IsCableRequest msg.content ∨ Arrives msg.content
  | .heartbeatTimer => False
  | _ => True

theorem Builds.settled {event : StageEvent} (hevent : Builds event) (s : ZstSession) :
    KeepsPlaces s event := by
  cases event with
  | receive msg =>
    cases hcontent : msg.content with
    | clientJoinRequest performer address =>
      simp only [Builds, hcontent] at hevent
      simp only [KeepsPlaces, hcontent]
      exact hevent.resolve_left not_false
    | clientLeaveRequest | entityUpdateRequest | entityDestroyRequest =>
      simp only [Builds, hcontent] at hevent
      exact (hevent.elim id id).elim
    | _ => simp only [KeepsPlaces, hcontent]
  | heartbeatTimer => exact hevent.elim
  | _ => trivial

theorem ListsCablesInUse.builds (tidy : ListsCablesInUse s) (wired : Wired s)
    (sound : FindsOwned s.hierarchy)
    {event : StageEvent} (hevent : Builds event) (hrun : ZstStage.step s event = .ok t) :
    ListsCablesInUse t := by
  cases event with
  | receive msg =>
    rcases hevent with hcable | harrives
    · exact tidy.receive wired hcable hrun
    · exact tidy.receive_arrives sound.keyed harrives hrun
  | heartbeatTimer => exact hevent.elim
  | _ => exact ListsCablesInUse.step tidy wired (by trivial) hrun

end Steps

/-! ## Runs -/

/-- A session before the first cable. -/
structure Bare (s : ZstSession) : Prop where
  cables : s.cables = []
  plugs : ∀ e, (s.hierarchy.entities e).cables = []

variable {s t : ZstSession}

theorem Bare.linked (bare : Bare s) : CablesLinked s := by
  have hnone : ∀ a, ¬ Active s a := by
    rintro a ⟨c, hc, -⟩
    rw [bare.cables] at hc
    cases hc
  refine ⟨?_, fun a ha => absurd ha (hnone a), fun e a => ?_, fun e => ?_, fun c hc => ?_⟩
  · rw [bare.cables]
    exact List.nodup_nil
  · rw [bare.plugs]
    exact iff_of_false List.not_mem_nil fun ha => hnone a ha.1
  · rw [bare.plugs]
    exact List.nodup_nil
  · rw [bare.cables] at hc
    cases hc

theorem ListsCablesInUse.run (tidy : ListsCablesInUse s) (wired : Wired s)
    {events : List StageEvent}
    (hevents : ∀ event ∈ events, Rewires event)
    (hrun : Library.run ZstStage.step s events = .ok t) : ListsCablesInUse t := by
  induction events generalizing s with
  | nil =>
    obtain rfl : s = t := by simpa using hrun
    exact tidy
  | cons event events ih =>
    obtain ⟨u, hu, hrest⟩ := Library.run_cons_ok.mp hrun
    exact ih (tidy.step wired (hevents event List.mem_cons_self) hu) (wired.step hu)
      (fun later hlater => hevents later (List.mem_cons_of_mem _ hlater)) hrest

/-- What a stage has built from nothing. -/
structure Built (s : ZstSession) : Prop where
  tidy : ListsCablesInUse s
  wired : Wired s
  sound : FindsOwned s.hierarchy

theorem Built.step (built : Built s) {event : StageEvent} (hevent : Builds event)
    (hrun : ZstStage.step s event = .ok t) : Built t :=
  ⟨built.tidy.builds built.wired built.sound hevent hrun, built.wired.step hrun,
    built.sound.step (hevent.settled s) hrun⟩

theorem built_opened : Built opened := by
  refine ⟨⟨Bare.linked ⟨rfl, fun _ => rfl⟩, ?_⟩, Wired.opened, sound_opened⟩
  exact ⟨fun _ hevent => absurd hevent List.not_mem_nil,
    fun _ _ hevent => absurd hevent List.not_mem_nil, rfl⟩

theorem Built.run (built : Built s) {events : List StageEvent}
    (hevents : ∀ event ∈ events, Builds event)
    (hrun : Library.run ZstStage.step s events = .ok t) : Built t := by
  induction events generalizing s with
  | nil =>
    obtain rfl : s = t := by simpa using hrun
    exact built
  | cons event events ih =>
    obtain ⟨u, hu, hrest⟩ := Library.run_cons_ok.mp hrun
    exact ih (built.step (hevents event List.mem_cons_self) hu)
      (fun later hlater => hevents later (List.mem_cons_of_mem _ hlater)) hrest

/-- A stage without cables has plugs without cables. -/
theorem Built.bare (built : Built s) (hcables : s.cables = []) : Bare s := by
  refine ⟨hcables, fun e => List.eq_nil_iff_forall_not_mem.mpr fun a ha => ?_⟩
  obtain ⟨c, hc, -⟩ := ((built.tidy.linked.plugs e a).mp ha).1
  rw [hcables] at hc
  cases hc

end Showtime.CableSets
