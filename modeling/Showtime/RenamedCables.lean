import Showtime.CableSets
import Showtime.Footprint
/-!
# Cables of entities that move

A cable is known by the paths its plugs had when it was made. Nothing brings
these paths up to date when a plug, or what it is part of, gets another path.
This module says what the stage keeps as long as no cable is in the way.
-/

namespace Showtime.RenamedCables

open ZstHierarchy ZstStageHierarchy ZstStageSession ZstStage Cabling CableSets Footprint
open ConnectReplies (plugged makeRoom Replugged)

/-- `ZstPlug::is_connected_to`. -/
def isConnectedTo (h : ZstHierarchy) (e plug : EntityId) : Bool :=
  (h.entities e).cables.any fun c =>
    (c.inputURI == (h.entities e).uri && c.outputURI == (h.entities plug).uri) ||
      (c.inputURI == (h.entities plug).uri && c.outputURI == (h.entities e).uri)

/-- The session has the cable, and nobody has destroyed it. -/
def CableInUse (s : ZstSession) (c : CableId) : Prop :=
  c ∈ s.cables ∧ (s.cableObjects c).syncStatus = .activated

/-- The cables in use are found at the paths of their addresses. -/
structure Cohered (s : ZstSession) : Prop where
  linked : CablesLinked s
  inputs : ∀ c, CableInUse s c →
    s.findInputPlug (s.cableObjects c).address.inputURI = some (s.cableObjects c).input
  outputs : ∀ c, CableInUse s c →
    s.findOutputPlug (s.cableObjects c).address.outputURI = some (s.cableObjects c).output

/-- The address of the cable is that of its plugs, and both list it. -/
def AddressedByPlugs (s : ZstSession) (c : CableId) : Prop :=
  (s.cableObjects c).address =
      ⟨(s.hierarchy.entities (s.cableObjects c).input).uri,
        (s.hierarchy.entities (s.cableObjects c).output).uri⟩ ∧
    (s.cableObjects c).address ∈ (s.hierarchy.entities (s.cableObjects c).input).cables ∧
    (s.cableObjects c).address ∈ (s.hierarchy.entities (s.cableObjects c).output).cables

section Cohering

variable {s t : ZstSession} {c : CableId}

theorem Cohered.named (cohered : Cohered s) (indexed : Indexed s.hierarchy) (hc : CableInUse s c) :
    AddressedByPlugs s c := by
  have hin := cohered.inputs c hc
  have hout := cohered.outputs c hc
  have hactive : Active s (s.cableObjects c).address := ⟨c, hc.1, rfl, hc.2⟩
  refine ⟨?_, (cohered.linked.plugs _ _).mpr ⟨hactive, Or.inl hin⟩,
    (cohered.linked.plugs _ _).mpr ⟨hactive, Or.inr hout⟩⟩
  rw [indexed.findEntity_uri (Option.filter_eq_some_iff.mp hin).1,
    indexed.findEntity_uri (Option.filter_eq_some_iff.mp hout).1]

/-- Nobody lists a cable that waits for the reaper. -/
theorem Cohered.unlisted (cohered : Cohered s) (cabled : Cabled s) (hc : c ∈ s.cables)
    (hgone : ¬ CableInUse s c) (e : EntityId) :
    (s.cableObjects c).address ∉ (s.hierarchy.entities e).cables := by
  intro hlisted
  obtain ⟨d, hd, hdc, hactivated⟩ := ((cohered.linked.plugs e _).mp hlisted).1
  obtain rfl := cabled.distinct d hd c hc hdc
  exact hgone ⟨hd, hactivated⟩

/-- Whoever lists a cable is one of its plugs. -/
theorem Cohered.plug_of_mem (cohered : Cohered s) {e : EntityId} {a : ZstCableAddress}
    (ha : a ∈ (s.hierarchy.entities e).cables) :
    ∃ c, CableInUse s c ∧ (s.cableObjects c).address = a ∧
      (e = (s.cableObjects c).input ∨ e = (s.cableObjects c).output) := by
  obtain ⟨⟨c, hc, rfl, hactivated⟩, hend⟩ := (cohered.linked.plugs e a).mp ha
  refine ⟨c, ⟨hc, hactivated⟩, rfl, ?_⟩
  rcases hend with hend | hend
  · rw [cohered.inputs c ⟨hc, hactivated⟩] at hend
    exact Or.inl (Option.some.inj hend).symm
  · rw [cohered.outputs c ⟨hc, hactivated⟩] at hend
    exact Or.inr (Option.some.inj hend).symm

/-! ## What leaves the cables alone -/

/-- Every plug lists what it listed before. -/
def SameSets (h k : ZstHierarchy) : Prop :=
  ∀ e, (k.entities e).cables = (h.entities e).cables

/-- The second hierarchy still has the plugs of the cables in use. -/
structure Spares (s : ZstSession) (k : ZstHierarchy) : Prop where
  inputs : ∀ c, CableInUse s c → ({ s with hierarchy := k } : ZstSession).findInputPlug
    (s.cableObjects c).address.inputURI = some (s.cableObjects c).input
  outputs : ∀ c, CableInUse s c → ({ s with hierarchy := k } : ZstSession).findOutputPlug
    (s.cableObjects c).address.outputURI = some (s.cableObjects c).output
  sets : SameSets s.hierarchy k

theorem Cohered.spares {k : ZstHierarchy} (cohered : Cohered s) (hk : Spares s k) :
    Cohered { s with hierarchy := k } := by
  have hactive : ∀ a, Active { s with hierarchy := k } a ↔ Active s a := fun _ => Iff.rfl
  have hends : ∀ a, Active s a → ∃ c, CableInUse s c ∧ (s.cableObjects c).address = a :=
    fun a ⟨c, hc, hca, hactivated⟩ => ⟨c, ⟨hc, hactivated⟩, hca⟩
  refine ⟨⟨cohered.linked.nodup, fun a ha => ?_, fun e a => ?_, fun e => ?_,
    cohered.linked.calm⟩, hk.inputs, hk.outputs⟩
  · obtain ⟨c, hc, rfl⟩ := hends a ha
    rw [hk.inputs c hc, hk.outputs c hc]
    exact ⟨rfl, rfl⟩
  · dsimp only
    rw [hk.sets, cohered.linked.plugs, hactive]
    refine and_congr_right fun ha => ?_
    obtain ⟨c, hc, rfl⟩ := hends a ha
    unfold EndOf
    rw [hk.inputs c hc, hk.outputs c hc, cohered.inputs c hc, cohered.outputs c hc]
  · dsimp only
    rw [hk.sets]
    exact cohered.linked.sets e

/-- Whoever is found stays. -/
theorem Cohered.grows {k : ZstHierarchy} (cohered : Cohered s) (hk : Grows s.hierarchy k) :
    Cohered { s with hierarchy := k } := by
  have hk' : Grows s.hierarchy ({ s with hierarchy := k } : ZstSession).hierarchy := hk
  exact cohered.spares ⟨fun c hc => hk'.findInputPlug (cohered.inputs c hc),
    fun c hc => hk'.findOutputPlug (cohered.outputs c hc), hk.cables⟩

theorem Cohered.rests (cohered : Cohered s) (ht : t = { s with hierarchy := t.hierarchy })
    (hk : Rests s.hierarchy t.hierarchy) : Cohered t := by
  rw [ht]
  exact cohered.grows hk.grows

/-- No cable in use has a plug among those who move, or a path that they pass. -/
def Spared (s : ZstSession) (M : EntityId → Prop) (T : ZstURI → Prop) : Prop :=
  ∀ c, CableInUse s c →
    (¬ M (s.cableObjects c).input ∧ ¬ M (s.cableObjects c).output) ∧
      ¬ T (s.cableObjects c).address.inputURI ∧ ¬ T (s.cableObjects c).address.outputURI

variable {M R : EntityId → Prop} {T : ZstURI → Prop} {k : ZstHierarchy}

/-- Who is found at a path that is not passed is found there after the move. -/
theorem findEntity_passes (indexed : Indexed s.hierarchy) (hk : Passes s.hierarchy M R T k)
    (hin : ∀ d, M d → s.hierarchy.lookup (s.hierarchy.entities d).uri = some d)
    {path : ZstURI} {e : EntityId} (he : s.hierarchy.findEntity path = some e) (hM : ¬ M e)
    (hT : ¬ T path) : k.findEntity path = some e ∧
      (k.entities e).isInputPlug = (s.hierarchy.entities e).isInputPlug ∧
      (k.entities e).isOutputPlug = (s.hierarchy.entities e).isOutputPlug := by
  have hroot : k.root = none := hk.root.trans indexed.root
  rw [indexed.findEntity_eq] at he
  refine ⟨?_, hk.field hM Entity.isInputPlug fun _ => rfl,
    hk.field hM Entity.isOutputPlug fun _ => rfl⟩
  unfold findEntity
  rw [hroot]
  dsimp only
  rw [hk.lookup_eq hT, he]
  rintro d hd rfl
  rw [hin d hd] at he
  exact hM (Option.some.inj he ▸ hd)

theorem spares_of_passes (cohered : Cohered s) (indexed : Indexed s.hierarchy)
    (hk : Passes s.hierarchy M R T k)
    (hin : ∀ d, M d → s.hierarchy.lookup (s.hierarchy.entities d).uri = some d)
    (hspared : Spared s M T) (hsets : SameSets s.hierarchy k) : Spares s k := by
  refine ⟨fun c hc => ?_, fun c hc => ?_, hsets⟩
  · obtain ⟨hfind, hkind⟩ := Option.filter_eq_some_iff.mp (cohered.inputs c hc)
    obtain ⟨⟨hM, -⟩, hT, -⟩ := hspared c hc
    obtain ⟨hfound, hinput, -⟩ := findEntity_passes indexed hk hin hfind hM hT
    exact Option.filter_eq_some_iff.mpr ⟨hfound, hinput.trans hkind⟩
  · obtain ⟨hfind, hkind⟩ := Option.filter_eq_some_iff.mp (cohered.outputs c hc)
    obtain ⟨⟨-, hM⟩, -, hT⟩ := hspared c hc
    obtain ⟨hfound, -, houtput⟩ := findEntity_passes indexed hk hin hfind hM hT
    exact Option.filter_eq_some_iff.mpr ⟨hfound, houtput.trans hkind⟩

/-- Whether two plugs are connected does not depend on who moves elsewhere. -/
theorem isConnectedTo_passes (cohered : Cohered s) (indexed : Indexed s.hierarchy)
    (hk : Passes s.hierarchy M R T k)
    (hin : ∀ d, M d → s.hierarchy.lookup (s.hierarchy.entities d).uri = some d)
    (hspared : Spared s M T) (hsets : SameSets s.hierarchy k) (e plug : EntityId) :
    isConnectedTo k e plug = isConnectedTo s.hierarchy e plug := by
  -- nobody comes to a path of a cable, or leaves it
  have hpath : ∀ {path : ZstURI} {p : EntityId}, s.hierarchy.findEntity path = some p → ¬ M p →
      ¬ T path → ∀ d, ((k.entities d).uri = path ↔ (s.hierarchy.entities d).uri = path) := by
    intro path p hp hM hT d
    rcases hk.uri d with hsame | ⟨hd, hpassed⟩
    · rw [hsame]
    · refine iff_of_false (fun heq => hT (heq ▸ hpassed)) fun heq => hM ?_
      rw [indexed.findEntity_eq, ← heq, hin d hd] at hp
      exact Option.some.inj hp ▸ hd
  unfold isConnectedTo
  rw [hsets, Bool.eq_iff_iff]
  simp only [List.any_eq_true, Bool.or_eq_true, Bool.and_eq_true, beq_iff_eq]
  refine exists_congr fun a => and_congr_right fun ha => ?_
  obtain ⟨c, hc, rfl, -⟩ := cohered.plug_of_mem ha
  obtain ⟨⟨hMi, hMo⟩, hTi, hTo⟩ := hspared c hc
  have hinput := hpath (Option.filter_eq_some_iff.mp (cohered.inputs c hc)).1 hMi hTi
  have houtput := hpath (Option.filter_eq_some_iff.mp (cohered.outputs c hc)).1 hMo hTo
  simp only [eq_comm (a := (s.cableObjects c).address.inputURI),
    eq_comm (a := (s.cableObjects c).address.outputURI), hinput, houtput]

end Cohering

end Showtime.RenamedCables
