import Showtime.Adders
/-!
# Adders that feed adders

The adders of a client as a network of values: the compute phase handles the
queue of the network. It comes to an end unless an adder that is due leads to
one that feeds itself, and then the inputs hold what the sums say they should.
-/

namespace Showtime.Adders

open ZstHierarchy ZstGraphSession Receiving Firing Library

variable {F : Type} (conv : Conversions F) (plus : F → F → F)

/-- The sum of the first component serves an input of the second one. -/
def Feeds (s : ZstSession) (adders : EntityId → Option Adder) (c d : EntityId) : Prop :=
  ∃ a, adders c = some a ∧ ∃ e ∈ fed s a, parentComponent s.hierarchy e = some d

/-- The adders as a network. -/
def network (s : ZstSession) (adders : EntityId → Option Adder) :
    Dataflow EntityId EntityId (List (ZstValueVariant F)) where
  targets c := ((adders c).map (fed s)).getD []
  owner := parentComponent s.hierarchy
  output c v := ((adders c).map fun a => total conv plus (v a.augend) (v a.addend)).getD []

/-- The component that an event will be handed to, if its plug is still there. -/
def waiting (s : ZstSession) (event : ComputeEvent) : Option EntityId :=
  (s.hierarchy.findEntity event.plugPath).map fun _ => event.parent

/-- Adders that hold numbers, with compute events for components that are there. -/
structure PatchReady (adders : EntityId → Option Adder) (g : ZstGraphSession F) : Prop where
  patched : Patched g.session adders
  ready : NumbersReady conv g adders
  live : ∀ event ∈ g.computeEvents, ∀ c, waiting g.session event = some c →
    g.hierarchy.live c = true

section Network

variable {conv} {plus} {s : ZstSession} {adders : EntityId → Option Adder} {c : EntityId}
  {a : Adder}

theorem targets_of_adder (ha : adders c = some a) :
    (network conv plus s adders).targets c = fed s a := by
  simp [network, ha]

theorem targets_of_none (hc : adders c = none) : (network conv plus s adders).targets c = [] := by
  simp [network, hc]

theorem mem_targets {e : EntityId} :
    e ∈ (network conv plus s adders).targets c ↔ ∃ a, adders c = some a ∧ e ∈ fed s a := by
  cases hc : adders c with
  | none => simp [targets_of_none hc]
  | some a => simp [targets_of_adder hc]

theorem feeds_iff {d : EntityId} : (network conv plus s adders).Feeds c d ↔ Feeds s adders c d := by
  constructor
  · rintro ⟨e, he, hd⟩
    obtain ⟨a, ha, hmem⟩ := mem_targets.mp he
    exact ⟨a, ha, e, hmem, hd⟩
  · rintro ⟨a, ha, e, he, hd⟩
    exact ⟨e, mem_targets.mpr ⟨a, ha, he⟩, hd⟩

theorem feeds_eq : (network conv plus s adders).Feeds = Feeds s adders := by
  funext c d
  exact propext feeds_iff

theorem fed_subset {e : EntityId} (he : e ∈ fed s a) : e ∈ localTo s a.sum := by
  unfold fed at he
  split at he
  · exact he
  · exact absurd he List.not_mem_nil

theorem mem_inputs_of_fed {e : EntityId} (he : e ∈ fed s a) : e ∈ inputs s a.sum :=
  (List.mem_filter.mp (fed_subset he)).1

/-- Only components below which a cable ends are fed. -/
theorem finite_fed (adders : EntityId → Option Adder) :
    {d | ∃ c, Feeds s adders c d}.Finite := by
  refine ((s.cables.filterMap fun d =>
    parentComponent s.hierarchy (s.cableObjects d).input).finite_toSet).subset ?_
  rintro d ⟨c, a, -, e, he, hd⟩
  obtain ⟨k, hk, rfl⟩ := mem_inputs (mem_inputs_of_fed he)
  exact List.mem_filterMap.mpr ⟨k, hk, hd⟩

/-- An output only depends on the two inputs of its adder. -/
theorem Patched.local (hs : Patched s adders) : (network conv plus s adders).Local := by
  intro c v w hvw
  cases hc : adders c with
  | none => simp [network, hc]
  | some a =>
    obtain ⟨haugend, haddend⟩ := hs.owned c a hc
    simp [network, hc, hvw _ haugend, hvw _ haddend]

/-- The event that an input is given waits for the component that it belongs to. -/
theorem Patched.waiting_computeEvent (hs : Patched s adders) (ha : adders c = some a)
    {e : EntityId} (he : e ∈ fed s a) :
    waiting s (computeEvent s e) = parentComponent s.hierarchy e ∧
      ∀ d, parentComponent s.hierarchy e = some d → s.hierarchy.live d = true := by
  have hreal := hs.real c a ha e (fed_subset he)
  obtain ⟨k, hk, rfl⟩ := mem_inputs (mem_inputs_of_fed he)
  obtain ⟨p, hparent, hlive⟩ := hs.wired.parent k hk hreal
  unfold waiting computeEvent
  rw [hparent, (hs.wired.found k hk).2]
  exact ⟨rfl, fun d hd => Option.some.inj hd ▸ hlive⟩

end Network

/-- Every component that is due, or fed because of one that is, counts its own rounds. -/
def CountsDue (adders : EntityId → Option Adder) (g : ZstGraphSession F) (work : EntityId → Nat) :
    Prop :=
  ∀ event ∈ g.computeEvents, ∀ c, waiting g.session event = some c → ∀ d,
    Relation.ReflTransGen (Feeds g.session adders) c d →
      (network conv plus g.session adders).Counts work d

section Rounds

variable {conv} {adders : EntityId → Option Adder} {g g' : ZstGraphSession F}

/-- The components that wait for a call of `compute`. -/
def pending (g : ZstGraphSession F) : List (Option EntityId) :=
  g.computeEvents.map (waiting g.session)

/-- No type changes. -/
theorem added_defaultType (a : Adder) (g : ZstGraphSession F) (e : EntityId) :
    ((added conv plus a g).rawValue e).defaultType = (g.rawValue e).defaultType := by
  by_cases he : e = a.sum
  · rw [he, added_sum]
  · rw [added_rawValue he]
    split <;> rfl

theorem numeric_added {a : Adder} (hsum : Numeric conv (g.rawValue a.sum).values) {e : EntityId}
    (he : Numeric conv (g.rawValue e).values) :
    Numeric conv ((added conv plus a g).rawValue e).values := by
  have hout : Numeric conv (outgoing conv plus a g) := hsum.append (numeric_total plus _ _)
  by_cases hne : e = a.sum
  · rw [hne, added_sum]
    dsimp only
    split
    · exact numeric_floats []
    · exact hout
  · rw [added_rawValue hne]
    split
    · exact hout
    · exact he

theorem NumbersReady.added {c : EntityId} {a : Adder} (hg : NumbersReady conv g adders)
    (ha : adders c = some a) : NumbersReady conv (added conv plus a g) adders := by
  have hsum := hg.sum c a ha
  constructor
  · exact fun d b hb => numeric_added plus hsum (hg.augend d b hb)
  · exact fun d b hb => numeric_added plus hsum (hg.addend d b hb)
  · exact fun d b hb => numeric_added plus hsum (hg.sum d b hb)
  · exact fun d b hb => (added_defaultType plus a g b.sum).trans (hg.floatList d b hb)

/-- What a round can do: nothing if the queue is empty, nothing but a call that
has no effect, or a call of an adder. -/
theorem processCompute_cases (hg : PatchReady conv adders g) :
    (g.computeEvents = [] ∧ processCompute conv plus adders g = .ok g) ∨
      ∃ event rest computed, g.computeEvents = event :: rest ∧
        ((∀ c, waiting g.session event = some c → adders c = none) ∧
            processCompute conv plus adders g = .ok { g with computeEvents := rest, computed } ∨
          ∃ c a, waiting g.session event = some c ∧ adders c = some a ∧
            processCompute conv plus adders g =
              .ok (added conv plus a { g with computeEvents := rest, computed })) := by
  unfold processCompute
  cases hevents : g.computeEvents with
  | nil => exact Or.inl ⟨rfl, rfl⟩
  | cons event rest =>
    cases hfound : g.session.hierarchy.findEntity event.plugPath with
    | none =>
      have hwaiting : waiting g.session event = none := congrArg (Option.map _) hfound
      refine Or.inr ⟨event, rest, g.computed, rfl, Or.inl ⟨fun c hc => ?_, ?_⟩⟩
      · rw [hwaiting] at hc
        cases hc
      · simp only [hierarchy, hfound]
    | some plug =>
      have hwaiting : waiting g.session event = some event.parent := congrArg (Option.map _) hfound
      have hlive := hg.live event (hevents ▸ List.mem_cons_self) _ hwaiting
      have hderef : g.session.hierarchy.deref (some event.parent) = .ok event.parent :=
        if_pos hlive
      refine Or.inr ⟨event, rest, g.computed ++ [⟨event.parent, plug, g.rawValue plug⟩], rfl, ?_⟩
      cases hadder : adders event.parent with
      | none =>
        refine Or.inl ⟨fun c hc => ?_, ?_⟩
        · rw [hwaiting] at hc
          exact Option.some.inj hc ▸ hadder
        · simp only [hierarchy, hfound, hderef, hadder, bind, Except.bind, pure, Except.pure]
      | some a =>
        refine Or.inr ⟨event.parent, a, hwaiting, hadder, ?_⟩
        simp only [hierarchy, hfound, hderef, hadder, bind, Except.bind]
        exact onCompute_eq hg.patched
          ⟨hg.ready.augend, hg.ready.addend, hg.ready.sum, hg.ready.floatList⟩ hadder

theorem follow_of_none {event : ComputeEvent}
    (hevent : ∀ c, waiting g.session event = some c → adders c = none) :
    (network conv plus g.session adders).follow (waiting g.session event) = [] := by
  cases hwaiting : waiting g.session event with
  | none => rfl
  | some c => exact congrArg (List.map _) (targets_of_none (hevent c hwaiting))

theorem follow_of_adder {c : EntityId} {a : Adder} (hs : Patched g.session adders)
    (ha : adders c = some a) :
    (network conv plus g.session adders).follow (some c) =
      ((fed g.session a).map (computeEvent g.session)).map (waiting g.session) := by
  change ((network conv plus g.session adders).targets c).map _ = _
  rw [targets_of_adder ha, List.map_map]
  exact List.map_congr_left fun e he => (hs.waiting_computeEvent ha he).1.symm

/-- A round advances the queue of the network. -/
theorem processCompute_sound (hg : PatchReady conv adders g) :
    ∃ g', processCompute conv plus adders g = .ok g' ∧ g'.session = g.session ∧
      PatchReady conv adders g' ∧
      pending g' = (network conv plus g.session adders).advance (pending g) := by
  obtain ⟨hnil, hrun⟩ | ⟨event, rest, computed, hevents, ⟨hnone, hrun⟩ | ⟨c, a, hc, ha, hrun⟩⟩ :=
    processCompute_cases plus hg
  · refine ⟨g, hrun, rfl, hg, ?_⟩
    unfold pending
    rw [hnil]
    rfl
  · refine ⟨_, hrun, rfl, ⟨hg.patched, ⟨hg.ready.augend, hg.ready.addend, hg.ready.sum,
      hg.ready.floatList⟩, fun event hmem => ?_⟩, ?_⟩
    · exact hg.live event (hevents ▸ List.mem_cons_of_mem _ hmem)
    · unfold pending
      rw [hevents, List.map_cons, Dataflow.advance_cons, follow_of_none plus hnone, List.append_nil]
  · have hready : NumbersReady conv { g with computeEvents := rest, computed } adders :=
      ⟨hg.ready.augend, hg.ready.addend, hg.ready.sum, hg.ready.floatList⟩
    refine ⟨_, hrun, added_session .., ⟨?_, hready.added plus ha, fun later hmem d hd => ?_⟩, ?_⟩
    · rw [added_session]
      exact hg.patched
    · rw [added_session] at hd
      rw [added_computeEvents] at hmem
      unfold hierarchy
      rw [added_session]
      rcases List.mem_append.mp hmem with hmem | hmem
      · exact hg.live later (hevents ▸ List.mem_cons_of_mem _ hmem) d hd
      · obtain ⟨e, he, rfl⟩ := List.mem_map.mp hmem
        obtain ⟨hwaiting, hlive⟩ := hg.patched.waiting_computeEvent ha he
        exact hlive d (hwaiting.symm.trans hd)
    · unfold pending
      rw [added_session, added_computeEvents, hevents, List.map_cons, hc, List.map_append,
        Dataflow.advance_cons, follow_of_adder plus hg.patched ha]

/-- So many rounds advance it so often. -/
theorem processEvents_sound (hg : PatchReady conv adders g) (n : Nat) :
    ∃ g', processEvents conv plus adders n g = .ok g' ∧ g'.session = g.session ∧
      PatchReady conv adders g' ∧
      pending g' = (network conv plus g.session adders).advance^[n] (pending g) := by
  induction n generalizing g with
  | zero => exact ⟨g, rfl, rfl, hg, rfl⟩
  | succ n ih =>
    obtain ⟨k, hfirst, hk, hsound, hpending⟩ := processCompute_sound plus hg
    obtain ⟨g', hrest, hg', hsound', hpending'⟩ := ih hsound
    refine ⟨g', bind_ok.mpr ⟨k, hfirst, hrest⟩, hg'.trans hk, hsound', ?_⟩
    rw [hpending', hk, hpending, Function.iterate_succ_apply]

theorem pending_eq_nil : pending g = [] ↔ g.computeEvents = [] :=
  List.map_eq_nil_iff

theorem exists_waiting_of_pending {c : EntityId} (hc : some c ∈ pending g) :
    ∃ event ∈ g.computeEvents, waiting g.session event = some c :=
  List.mem_map.mp hc

/-- The rounds throw nothing, and the loop ends exactly if no adder that is due
leads to one that feeds itself. -/
theorem processEvents_ends_iff (hg : PatchReady conv adders g) :
    (∀ n, ∃ g', processEvents conv plus adders n g = .ok g') ∧
      ((∃ n g', processEvents conv plus adders n g = .ok g' ∧ g'.computeEvents = []) ↔
        ∀ event ∈ g.computeEvents, ∀ c, waiting g.session event = some c → ∀ d,
          Relation.ReflTransGen (Feeds g.session adders) c d →
            ¬ Relation.TransGen (Feeds g.session adders) d d) := by
  refine ⟨fun n => (processEvents_sound plus hg n).imp fun _ h => h.1, ?_⟩
  have hdrains : (∃ n g', processEvents conv plus adders n g = .ok g' ∧ g'.computeEvents = []) ↔
      ∃ n, (network conv plus g.session adders).advance^[n] (pending g) = [] := by
    refine exists_congr fun n => ?_
    obtain ⟨k, hrun, -, -, hpending⟩ := processEvents_sound plus hg n
    constructor
    · rintro ⟨g', hg', hnil⟩
      obtain rfl := Except.ok.inj (hrun.symm.trans hg')
      exact hpending.symm.trans (pending_eq_nil.mpr hnil)
    · exact fun hnil => ⟨k, hrun, pending_eq_nil.mp (hpending.trans hnil)⟩
  rw [hdrains, Dataflow.drains_iff_acc, feeds_eq]
  constructor
  · intro hacc event hevent c hc d hreach
    exact Dataflow.not_loop_of_acc (hacc c (List.mem_map.mpr ⟨event, hevent, hc⟩)) hreach
  · intro hloops c hc
    obtain ⟨event, hevent, hwaiting⟩ := exists_waiting_of_pending hc
    exact Dataflow.acc_of_acyclic (finite_fed adders) (hloops event hevent c hwaiting)

/-- A plug of the client `ada`. -/
def adaPlug (component name : String) (direction : ZstPlugDirection)
    (cables : List ZstCableAddress) : Entity :=
  { entityType := .plug, uri := ["ada", component, name], parentAddress := ["ada", component],
    direction, registered := true, sessionAdaptor := true, syncStatus := .activated, cables
    canFire := direction = .outJack }

/-- A component of the client `ada` with the plugs of an adder. -/
def adaComponent (component : String) : Entity :=
  { entityType := .component, uri := ["ada", component], parentAddress := ["ada"]
    registered := true, syncStatus := .activated
    children := ["addend", "augend", "sum"].map fun name => ["ada", component, name] }

/-- The sum of `ada/a` leads to both inputs of `ada/b`, and that of `ada/b` back
to an input of `ada/a` if there is feedback. The first adder is due. -/
def doubler (feedback : Bool) : ZstGraphSession Int :=
  let back : ZstCableAddress := ⟨["ada", "a", "addend"], ["ada", "b", "sum"]⟩
  let forth : ZstCableAddress := ⟨["ada", "b", "addend"], ["ada", "a", "sum"]⟩
  let across : ZstCableAddress := ⟨["ada", "b", "augend"], ["ada", "a", "sum"]⟩
  { session :=
      { hierarchy := .ofList
          [{ entityType := .performer, uri := ["ada"], registered := true, syncStatus := .activated,
             children := [["ada", "a"], ["ada", "b"]] },
           adaComponent "a",
           adaPlug "a" "addend" .inJack (if feedback then [back] else []),
           adaPlug "a" "augend" .inJack [],
           adaPlug "a" "sum" .outJack [forth, across],
           adaComponent "b",
           adaPlug "b" "addend" .inJack [forth],
           adaPlug "b" "augend" .inJack [across],
           adaPlug "b" "sum" .outJack (if feedback then [back] else [])]
          (some 0)
        cableObjects := fun c =>
          if c = 0 then ⟨forth, 6, 4, .activated, []⟩
          else if c = 1 then ⟨across, 7, 4, .activated, []⟩
          else ⟨back, 2, 8, .activated, []⟩
        nextCable := 3
        cables := if feedback then [0, 1, 2] else [0, 1] }
    rawValue := fun e => ⟨.floatList, if e = 2 then [.float 1, .float 2] else
      if e = 3 then [.float 1, .float 3] else []⟩
    computeEvents := [⟨1, ["ada", "a", "addend"]⟩] }

/-- The adders of `doubler`. -/
def adasAdders (c : EntityId) : Option Adder :=
  if c = 1 then some ⟨2, 3, 4, by decide, by decide⟩
  else if c = 5 then some ⟨6, 7, 8, by decide, by decide⟩
  else none

theorem adasAdders_cases {P : EntityId → Adder → Prop}
    (hfirst : P 1 ⟨2, 3, 4, by decide, by decide⟩)
    (hsecond : P 5 ⟨6, 7, 8, by decide, by decide⟩) :
    ∀ c a, adasAdders c = some a → P c a := by
  intro c a ha
  unfold adasAdders at ha
  split_ifs at ha with h1 h5
  · obtain rfl := Option.some.inj ha
    exact h1 ▸ hfirst
  · obtain rfl := Option.some.inj ha
    exact h5 ▸ hsecond

theorem doubler_patched (feedback : Bool) : Patched (doubler feedback).session adasAdders := by
  have hparent : ∀ c ∈ (doubler feedback).session.cables,
      ∃ p, parentComponent (doubler feedback).session.hierarchy
        ((doubler feedback).session.cableObjects c).input = some p ∧
        (doubler feedback).session.hierarchy.live p = true := by
    intro c hc
    have hmem : c = 0 ∨ c = 1 ∨ c = 2 := by
      cases feedback with
      | false => exact (by simpa [doubler] using hc : c = 0 ∨ c = 1).imp_right Or.inl
      | true => simpa [doubler] using hc
    rcases hmem with rfl | rfl | rfl
    · exact ⟨5, by cases feedback <;> decide, by cases feedback <;> decide⟩
    · exact ⟨5, by cases feedback <;> decide, by cases feedback <;> decide⟩
    · exact ⟨1, by cases feedback <;> decide, by cases feedback <;> decide⟩
  refine ⟨⟨?_, ?_, fun c hc _ => hparent c hc⟩, ?_, ?_, ?_, ?_⟩
  · cases feedback <;> decide
  · cases feedback <;> decide
  · exact adasAdders_cases (by cases feedback <;> decide) (by cases feedback <;> decide)
  · exact adasAdders_cases (by cases feedback <;> decide) (by cases feedback <;> decide)
  · exact adasAdders_cases (by cases feedback <;> decide) (by cases feedback <;> decide)
  · exact adasAdders_cases (by cases feedback <;> decide) (by cases feedback <;> decide)

theorem doubler_sound (feedback : Bool) :
    PatchReady ValueDelivery.millionths adasAdders (doubler feedback) := by
  have hnumeric (e : EntityId) :
      Numeric ValueDelivery.millionths ((doubler feedback).rawValue e).values := by
    change Numeric _ (if e = 2 then _ else if e = 3 then _ else [])
    split_ifs
    · exact numeric_floats [1, 2]
    · exact numeric_floats [1, 3]
    · exact numeric_floats []
  refine ⟨doubler_patched feedback, ⟨fun _ a _ => hnumeric a.augend, fun _ a _ => hnumeric a.addend,
    fun _ a _ => hnumeric a.sum, fun _ _ _ => rfl⟩, fun event hevent c hc => ?_⟩
  obtain rfl := List.mem_singleton.mp hevent
  have hone : waiting (doubler feedback).session ⟨1, ["ada", "a", "addend"]⟩ = some 1 := by
    cases feedback <;> decide
  obtain rfl := Option.some.inj (hone.symm.trans hc)
  cases feedback <;> decide

/-- With feedback the loop never ends. -/
theorem processEvents_ends_iff_doubler :
    ¬ ∃ n g', processEvents ValueDelivery.millionths (· + ·) adasAdders n (doubler true) = .ok g' ∧
      g'.computeEvents = [] := by
  rw [(processEvents_ends_iff (· + ·) (doubler_sound true)).2]
  have hforth : Feeds (doubler true).session adasAdders 1 5 :=
    ⟨⟨2, 3, 4, by decide, by decide⟩, rfl, 6, by decide, by decide⟩
  have hback : Feeds (doubler true).session adasAdders 5 1 :=
    ⟨⟨6, 7, 8, by decide, by decide⟩, rfl, 2, by decide, by decide⟩
  intro hends
  exact hends ⟨1, ["ada", "a", "addend"]⟩ List.mem_cons_self 1 (by decide) 1 .refl
    (.tail (.single hforth) hback)

/-- The loop ends after exactly as many rounds as there are ways through the
adders that start from one that is due, and they can be counted where it ends. -/
theorem processEvents_ends_after (hg : PatchReady conv adders g) :
    (∀ work, CountsDue conv plus adders g work → ∀ n,
      ∃ g', processEvents conv plus adders n g = .ok g' ∧
        (g'.computeEvents = [] ↔ ((pending g).map (Dataflow.cost work)).sum ≤ n)) ∧
    ((∃ n g', processEvents conv plus adders n g = .ok g' ∧ g'.computeEvents = []) →
      ∃ work, CountsDue conv plus adders g work) := by
  constructor
  · intro work hwork n
    obtain ⟨g', hrun, -, -, hpending⟩ := processEvents_sound plus hg n
    refine ⟨g', hrun, ?_⟩
    rw [← pending_eq_nil, hpending]
    refine Dataflow.advance_iterate_eq_nil (P := fun d => ∃ event ∈ g.computeEvents, ∃ c,
      waiting g.session event = some c ∧ Relation.ReflTransGen (Feeds g.session adders) c d)
      ?_ ?_ ?_ n
    · rintro d e ⟨event, hevent, c, hc, hreach⟩ hfeeds
      exact ⟨event, hevent, c, hc, hreach.tail (feeds_iff.mp hfeeds)⟩
    · rintro d ⟨event, hevent, c, hc, hreach⟩
      exact hwork event hevent c hc d hreach
    · intro c hc
      obtain ⟨event, hevent, hwaiting⟩ := exists_waiting_of_pending hc
      exact ⟨event, hevent, c, hwaiting, .refl⟩
  · rintro ⟨n, g', hrun, hnil⟩
    obtain ⟨k, hrun', -, -, hpending⟩ := processEvents_sound plus hg n
    obtain rfl := Except.ok.inj (hrun'.symm.trans hrun)
    rw [pending_eq_nil.mpr hnil] at hpending
    obtain ⟨work, hcounts⟩ := Dataflow.exists_work (network conv plus g.session adders)
    refine ⟨work, fun event hevent c hc d hreach => hcounts d ?_⟩
    have hacc := Dataflow.drains_iff_acc.mp ⟨n, hpending.symm⟩ c
      (List.mem_map.mpr ⟨event, hevent, hc⟩)
    rw [feeds_eq] at hacc ⊢
    exact Dataflow.acc_of_reaches hacc hreach

theorem doubler_feeds {c d : EntityId} (hfeeds : Feeds (doubler false).session adasAdders c d) :
    c = 1 ∧ d = 5 := by
  obtain ⟨a, ha, e, he, hd⟩ := hfeeds
  have hall : ∀ c a, adasAdders c = some a → ∀ e ∈ fed (doubler false).session a,
      c = 1 ∧ parentComponent (doubler false).session.hierarchy e = some 5 :=
    adasAdders_cases (by decide) (by decide)
  obtain ⟨hc, hparent⟩ := hall c a ha e he
  exact ⟨hc, Option.some.inj (hd.symm.trans hparent)⟩

/-- Two cables from one adder to the other make it compute twice. -/
theorem processEvents_ends_after_doubler :
    (∃ g', processEvents ValueDelivery.millionths (· + ·) adasAdders 2 (doubler false) = .ok g' ∧
      g'.computeEvents ≠ []) ∧
    ∃ g', processEvents ValueDelivery.millionths (· + ·) adasAdders 3 (doubler false) = .ok g' ∧
      g'.computeEvents = [] := by
  have hwork : CountsDue ValueDelivery.millionths (· + ·) adasAdders (doubler false)
      fun c => if c = 1 then 3 else 1 := by
    intro event hevent c hc d hreach
    obtain rfl := List.mem_singleton.mp hevent
    obtain rfl : 1 = c := Option.some.inj hc
    have hd : d = 1 ∨ d = 5 := by
      rcases Relation.ReflTransGen.cases_tail hreach with hd | ⟨_, -, hlast⟩
      · exact Or.inl hd
      · exact Or.inr (doubler_feeds hlast).2
    unfold Dataflow.Counts
    rcases hd with rfl | rfl
    · decide
    · decide
  have hrounds := (processEvents_ends_after (· + ·) (doubler_sound false)).1 _ hwork
  obtain ⟨g₂, hrun₂, htwo⟩ := hrounds 2
  obtain ⟨g₃, hrun₃, hthree⟩ := hrounds 3
  exact ⟨⟨g₂, hrun₂, fun hnil => absurd (htwo.mp hnil) (by decide)⟩,
    g₃, hrun₃, hthree.mpr (by decide)⟩

end Rounds

/-! ## What the inputs hold in the end -/

/-- A plug that is not the sum of an adder. -/
def NoSum (adders : EntityId → Option Adder) (e : EntityId) : Prop :=
  ∀ c a, adders c = some a → e ≠ a.sum

/-- The sums that may fire have sent all that they held. -/
def Sent (adders : EntityId → Option Adder) (g : ZstGraphSession F) : Prop :=
  ∀ c a, adders c = some a → (g.hierarchy.entities a.sum).canFire = true →
    (g.rawValue a.sum).values = []

/-- The state of the network shows what the plugs hold and who is due. -/
structure Views (adders : EntityId → Option Adder) (g : ZstGraphSession F)
    (x : Dataflow.State EntityId EntityId (List (ZstValueVariant F))) : Prop where
  queue : x.queue = pending g
  values : ∀ e, NoSum adders e → x.values e = (g.rawValue e).values

/-- No input is served by two adders. -/
def Single (s : ZstSession) (adders : EntityId → Option Adder) : Prop :=
  ∀ c d a b, adders c = some a → adders d = some b → ∀ e ∈ fed s a, e ∈ fed s b → c = d

/-- Every adder is due, or the inputs that it serves hold its sum. -/
def DueOrServed (adders : EntityId → Option Adder) (g : ZstGraphSession F) : Prop :=
  ∀ c a, adders c = some a → (∃ event ∈ g.computeEvents, waiting g.session event = some c) ∨
    ∀ e ∈ fed g.session a, (g.rawValue e).values =
      total conv plus (g.rawValue a.augend).values (g.rawValue a.addend).values

/-- The lists that the plugs should hold: what an adder serves is the sum of
what its inputs hold. -/
def Evaluates (s : ZstSession) (adders : EntityId → Option Adder)
    (v : EntityId → List (ZstValueVariant F)) : Prop :=
  ∀ c a, adders c = some a → ∀ e ∈ fed s a, v e = total conv plus (v a.augend) (v a.addend)

/-- No adder serves the plug. -/
def Free (s : ZstSession) (adders : EntityId → Option Adder) (e : EntityId) : Prop :=
  ∀ c a, adders c = some a → e ∉ fed s a

section Values

variable {conv} {adders : EntityId → Option Adder} {g g' : ZstGraphSession F} {s : ZstSession}

theorem Patched.noSum_of_input (hs : Patched s adders) {e : EntityId}
    (he : (s.hierarchy.entities e).isInputPlug = true) : NoSum adders e := by
  rintro c a ha rfl
  have hout := hs.output c a ha
  unfold Entity.isInputPlug at he
  unfold Entity.isOutputPlug at hout
  simp_all

theorem Patched.noSum_of_fed (hs : Patched s adders) {a : Adder} {e : EntityId}
    (he : e ∈ fed s a) : NoSum adders e := by
  obtain ⟨k, hk, rfl⟩ := mem_inputs (mem_inputs_of_fed he)
  exact hs.noSum_of_input (hs.wired.input k hk)

theorem canFire_of_fed {a : Adder} {e : EntityId} (he : e ∈ fed s a) :
    (s.hierarchy.entities a.sum).canFire = true := by
  unfold fed at he
  split at he
  · assumption
  · exact absurd he List.not_mem_nil

/-- After a call the sums that may fire are empty again. -/
theorem Sent.added (hs : Patched g.session adders) (hsent : Sent adders g) (a : Adder) :
    Sent adders (added conv plus a g) := by
  intro d b hb hcan
  unfold hierarchy at hcan
  rw [added_session] at hcan
  by_cases hsum : b.sum = a.sum
  · rw [hsum, added_sum]
    exact if_pos (hsum ▸ hcan)
  · have hfed : b.sum ∉ fed g.session a := fun hmem => hs.noSum_of_fed hmem d b hb rfl
    rw [added_rawValue hsum, if_neg hfed]
    exact hsent d b hb hcan

/-- What a call writes is the output of the network. -/
theorem added_values {c : EntityId} {a : Adder} (hs : Patched g.session adders)
    (hsent : Sent adders g) (ha : adders c = some a) {v : EntityId → List (ZstValueVariant F)}
    (hv : ∀ e, NoSum adders e → v e = (g.rawValue e).values) {e : EntityId}
    (he : NoSum adders e) :
    (network conv plus g.session adders).write c v e =
      ((added conv plus a g).rawValue e).values := by
  have haugend := hv _ (hs.noSum_of_input (hs.input c a ha).1)
  have haddend := hv _ (hs.noSum_of_input (hs.input c a ha).2)
  unfold Dataflow.write
  rw [targets_of_adder ha, added_rawValue (he c a ha)]
  split
  · rename_i hfed
    unfold outgoing
    rw [hsent c a ha (canFire_of_fed hfed)]
    simp [network, ha, haugend, haddend]
  · exact hv e he

/-- A round is a step of the network. -/
theorem Views.step (hg : PatchReady conv adders g) (hsent : Sent adders g)
    {x : Dataflow.State EntityId EntityId (List (ZstValueVariant F))} (hx : Views adders g x) :
    ∃ g', processCompute conv plus adders g = .ok g' ∧ g'.session = g.session ∧
      PatchReady conv adders g' ∧ Sent adders g' ∧
      Views adders g' ((network conv plus g.session adders).step x) := by
  obtain ⟨g', hrun, hsession, hsound, hpending⟩ := processCompute_sound plus hg
  have hqueue : ((network conv plus g.session adders).step x).queue = pending g' := by
    rw [Dataflow.step_queue, hx.queue, hpending]
  obtain ⟨v, queue⟩ := x
  obtain rfl : queue = pending g := hx.queue
  have hv : ∀ e, NoSum adders e → v e = (g.rawValue e).values := hx.values
  refine ⟨g', hrun, hsession, hsound, ?_⟩
  obtain ⟨hnil, hcase⟩ | ⟨event, rest, computed, hevents, ⟨hnone, hcase⟩ | ⟨c, a, hc, ha, hcase⟩⟩ :=
    processCompute_cases plus hg
  · obtain rfl := Except.ok.inj (hrun.symm.trans hcase)
    refine ⟨hsent, hqueue, fun e he => ?_⟩
    have hstep : (network conv plus g'.session adders).step ⟨v, pending g'⟩ = ⟨v, pending g'⟩ := by
      rw [pending_eq_nil.mpr hnil]
      rfl
    rw [hstep]
    exact hv e he
  · obtain rfl := Except.ok.inj (hrun.symm.trans hcase)
    refine ⟨hsent, hqueue, fun e he => ?_⟩
    have hvalues : ((network conv plus g.session adders).step ⟨v, pending g⟩).values = v := by
      unfold pending
      rw [hevents, List.map_cons]
      cases hwaiting : waiting g.session event with
      | none => rfl
      | some c =>
        funext e
        exact if_neg (by rw [targets_of_none (hnone c hwaiting)]; exact List.not_mem_nil)
    rw [hvalues]
    exact hv e he
  · obtain rfl := Except.ok.inj (hrun.symm.trans hcase)
    refine ⟨Sent.added plus (g := { g with computeEvents := rest, computed }) hg.patched hsent a,
      hqueue, fun e he => ?_⟩
    have hvalues : ((network conv plus g.session adders).step ⟨v, pending g⟩).values =
        (network conv plus g.session adders).write c v := by
      unfold pending
      rw [hevents, List.map_cons, hc]
      rfl
    rw [hvalues]
    exact added_values plus (g := { g with computeEvents := rest, computed }) hg.patched hsent ha
      hv he

/-- The compute phase runs the network. -/
theorem Views.run (hg : PatchReady conv adders g) (hsent : Sent adders g)
    {x : Dataflow.State EntityId EntityId (List (ZstValueVariant F))} (hx : Views adders g x)
    (n : Nat) : ∃ g', processEvents conv plus adders n g = .ok g' ∧
      Views adders g' ((network conv plus g.session adders).step^[n] x) := by
  induction n generalizing g x with
  | zero => exact ⟨g, rfl, hx⟩
  | succ n ih =>
    obtain ⟨k, hfirst, hk, hsound, hsent', hx'⟩ := hx.step plus hg hsent
    obtain ⟨g', hrest, hg'⟩ := ih hsound hsent' hx'
    refine ⟨g', bind_ok.mpr ⟨k, hfirst, hrest⟩, ?_⟩
    rw [hk] at hg'
    exact hg'

/-- If no adder feeds itself and none is out of date without being due, the loop
leaves every input with what the sums of the whole patch say, and nothing else would
satisfy them. -/
theorem processEvents_evaluates (hg : PatchReady conv adders g) (hsent : Sent adders g)
    (hsingle : Single g.session adders)
    (hacyclic : ∀ c, ¬ Relation.TransGen (Feeds g.session adders) c c)
    (hdue : DueOrServed conv plus adders g) :
    ∃ n g', processEvents conv plus adders n g = .ok g' ∧ g'.computeEvents = [] ∧
      Evaluates conv plus g.session adders (fun e => (g'.rawValue e).values) ∧
      (∀ e, NoSum adders e → Free g.session adders e →
        (g'.rawValue e).values = (g.rawValue e).values) ∧
      ∀ v : EntityId → List (ZstValueVariant F), Evaluates conv plus g.session adders v →
        (∀ e, Free g.session adders e → v e = (g.rawValue e).values) →
        ∀ e, NoSum adders e → (g'.rawValue e).values = v e := by
  let N := network conv plus g.session adders
  let x : Dataflow.State EntityId EntityId (List (ZstValueVariant F)) :=
    ⟨fun e => (g.rawValue e).values, pending g⟩
  obtain ⟨n, hdrained⟩ : ∃ n, N.advance^[n] (pending g) = [] := by
    refine Dataflow.drains_iff_acc.mpr fun c _ => ?_
    rw [feeds_eq]
    exact Dataflow.acc_of_acyclic (finite_fed adders) fun d _ => hacyclic d
  obtain ⟨g', hrun, hviews⟩ := Views.run plus hg hsent (x := x) ⟨rfl, fun _ _ => rfl⟩ n
  have hempty : (N.step^[n] x).queue = [] := (Dataflow.iterate_queue x n).trans hdrained
  have hsettled (c : EntityId) : N.WaitingOrServed x c := by
    cases hc : adders c with
    | none =>
      refine Or.inr fun e he => ?_
      rw [targets_of_none hc] at he
      exact absurd he List.not_mem_nil
    | some a =>
      refine (hdue c a hc).imp (fun h => List.mem_map.mpr h) fun h e he => ?_
      rw [targets_of_adder hc] at he
      refine (h e he).trans ?_
      simp [N, network, hc, x]
  have hlocal : (network conv plus g.session adders).Local := hg.patched.local
  have hone : N.Single := by
    intro c d e hc hd
    obtain ⟨a, ha, hea⟩ := mem_targets.mp hc
    obtain ⟨b, hb, heb⟩ := mem_targets.mp hd
    exact hsingle c d a b ha hb e hea heb
  have hfree : ∀ e, Free g.session adders e → ∀ c, e ∉ N.targets c := by
    intro e he c hc
    obtain ⟨a, ha, hmem⟩ := mem_targets.mp hc
    exact he c a ha hmem
  refine ⟨n, g', hrun, pending_eq_nil.mp (hviews.queue.symm.trans hempty), ?_, ?_, ?_⟩
  · intro c a ha e he
    change (g'.rawValue e).values =
      total conv plus (g'.rawValue a.augend).values (g'.rawValue a.addend).values
    have hsolved := (hsettled c).solved hlocal hone hempty e (mem_targets.mpr ⟨a, ha, he⟩)
    rw [hviews.values e (hg.patched.noSum_of_fed he)] at hsolved
    have haugend := hviews.values _ (hg.patched.noSum_of_input (hg.patched.input c a ha).1)
    have haddend := hviews.values _ (hg.patched.noSum_of_input (hg.patched.input c a ha).2)
    rw [← haugend, ← haddend, hsolved]
    simp [network, ha]
  · intro e he hfed
    rw [← hviews.values e he]
    exact Dataflow.iterate_values (hfree e hfed) x n
  · intro v hv hsame e he
    have hvalues : (N.step^[n] x).values = v := by
      refine Dataflow.values_eq_of_solves hlocal hone hsettled hempty ?_ ?_ ?_
      · rw [feeds_eq]
        exact Dataflow.wellFounded_of_acyclic (finite_fed adders) hacyclic
      · intro c e he
        obtain ⟨a, ha, hmem⟩ := mem_targets.mp he
        rw [hv c a ha e hmem]
        simp [network, ha]
      · intro e he
        exact hsame e fun c a ha hmem => he c (mem_targets.mpr ⟨a, ha, hmem⟩)
    rw [← hviews.values e he]
    exact congrFun hvalues e

/-- Without feedback both inputs of the second adder hold the sum of the first. -/
theorem processEvents_evaluates_doubler :
    ∃ n g', processEvents ValueDelivery.millionths (· + ·) adasAdders n (doubler false) = .ok g' ∧
      g'.computeEvents = [] ∧ (g'.rawValue 6).values = [.float 2, .float 5] := by
  let v : EntityId → List (ZstValueVariant Int) := fun e =>
    if e = 6 ∨ e = 7 then [.float 2, .float 5] else ((doubler false).rawValue e).values
  have hsent : Sent adasAdders (doubler false) := adasAdders_cases (by decide) (by decide)
  have hfed : ∀ c a, adasAdders c = some a → fed (doubler false).session a ≠ [] → c = 1 :=
    adasAdders_cases (by decide) (by decide)
  have hsingle : Single (doubler false).session adasAdders := by
    intro c d a b ha hb e hea heb
    rw [hfed c a ha (List.ne_nil_of_mem hea), hfed d b hb (List.ne_nil_of_mem heb)]
  have hacyclic (c : EntityId) :
      ¬ Relation.TransGen (Feeds (doubler false).session adasAdders) c c := by
    intro hloop
    obtain ⟨_, hfirst, -⟩ := Relation.TransGen.head'_iff.mp hloop
    obtain ⟨_, -, hlast⟩ := Relation.TransGen.tail'_iff.mp hloop
    exact absurd ((doubler_feeds hfirst).1.symm.trans (doubler_feeds hlast).2) (by decide)
  have hdue : DueOrServed ValueDelivery.millionths (· + ·) adasAdders (doubler false) :=
    adasAdders_cases (Or.inl ⟨_, List.mem_cons_self, by decide⟩) (Or.inr (by decide))
  have hv : Evaluates ValueDelivery.millionths (· + ·) (doubler false).session adasAdders v :=
    adasAdders_cases (by decide) (by decide)
  have hfree (e : EntityId) (he : Free (doubler false).session adasAdders e) :
      v e = ((doubler false).rawValue e).values := by
    refine if_neg fun hmem => he 1 _ rfl ?_
    rcases hmem with rfl | rfl
    · decide
    · decide
  obtain ⟨n, g', hrun, hnil, -, -, hvalues⟩ := processEvents_evaluates (· + ·)
    (doubler_sound false) hsent hsingle hacyclic hdue
  exact ⟨n, g', hrun, hnil, hvalues v hv hfree 6 (adasAdders_cases (by decide) (by decide))⟩

end Values

end Showtime.Adders
