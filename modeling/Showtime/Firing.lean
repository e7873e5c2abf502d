import Showtime.Library.Run
import Showtime.Receiving
import Showtime.ValueDelivery
/-!
# Who gets the value of a fired plug

One plug, the inputs at its cables, and the clients that know them: what
reaches the real inputs, and what only reaches proxies of them, when the plug
is fired by a performer that need not be its creator.
-/

namespace Showtime.Firing

open ZstHierarchy ZstGraphSession Receiving Library

variable {F : Type} (conv : Conversions F)

/-- Clients by the paths of their performers. -/
abbrev Clients (F : Type) := ZstURI → ZstGraphSession F

/-- Some messages are received by each client of an audience. -/
def publish (clients : Clients F) (messages : List (GraphMessage F)) (audience : List ZstURI) :
    Except Fault (Clients F) :=
  audience.foldlM (fun clients c => do
    let g ← messages.foldlM receive (clients c)
    return Function.update clients c g) clients

/-- A performer fires the plug at the path, and an audience receives what is published. -/
def fireAt (clients : Clients F) (owner path : ZstURI) (audience : List ZstURI) :
    Except Fault (Clients F) :=
  match (clients owner).session.findOutputPlug path with
  | none => .ok clients
  | some plug => do
    let g ← fire conv (clients owner) plug
    publish (Function.update clients owner g)
      (g.graphOut.drop (clients owner).graphOut.length) audience

/-- The paths of the plugs for which compute events were queued between two states. -/
def queued (g g' : ZstGraphSession F) : List ZstURI :=
  (g'.computeEvents.drop g.computeEvents.length).map ComputeEvent.plugPath

/-- The clients know the plug and the inputs at its cables, each of them as a
proxy unless it is below the client's own performer. -/
structure Replicated (clients : Clients F) (performers : List ZstURI) (path : ZstURI)
    (connected : List ZstURI) : Prop where
  wired : ∀ c ∈ performers, InputsFound (clients c).session
  plug : ∀ c ∈ performers, ∃ p, (clients c).session.findOutputPlug path = some p ∧
    ((clients c).hierarchy.entities p).uri = path ∧
    ((inputs (clients c).session p).map fun e => ((clients c).hierarchy.entities e).uri).Perm
      connected
  proxy : ∀ c ∈ performers, ∀ d ∈ (clients c).session.cables,
    let e := ((clients c).session.cableObjects d).input
    ((clients c).hierarchy.entities e).isProxy = true ↔
      ((clients c).hierarchy.entities e).uri.first ≠ c
  nodup : connected.Nodup

/-- Every real instance of a connected input receives the value once, and no
proxy is computed. -/
structure DeliveredOnce (clients clients' : Clients F) (performers connected : List ZstURI)
    (value : ZstValue F) (buffer : PlugValue F) : Prop where
  once : ∀ c ∈ performers, ∀ i ∈ connected, ∀ e, (clients c).hierarchy.findEntity i = some e →
    ((clients c).hierarchy.entities e).isProxy = false →
    (queued (clients c) (clients' c)).count i = 1 ∧
      ((clients' c).rawValue e = ((clients c).rawValue e).copy value ∨
        (clients' c).rawValue e = ((clients c).rawValue e).deserialize (some buffer))
  real : ∀ c ∈ performers, ∀ i ∈ queued (clients c) (clients' c), ∀ e,
    (clients c).hierarchy.findEntity i = some e →
    ((clients c).hierarchy.entities e).isProxy = false

/-! ## The firing client -/

/-- The inputs that `fire` serves itself. -/
def localInputs (g : ZstGraphSession F) (plug : EntityId) (bundle : List EntityId) :
    List EntityId :=
  bundle.filter fun e =>
    (g.hierarchy.entities e).uri.first = (g.hierarchy.entities plug).uri.first

/-- The client after `fire` has served some inputs. -/
def served (g : ZstGraphSession F) (plug : EntityId) (plugs : List EntityId) :
    ZstGraphSession F :=
  { g with
    rawValue := fun e => if e ∈ plugs then (g.rawValue e).copy (g.rawValue plug) else g.rawValue e
    computeEvents := g.computeEvents ++ plugs.map (computeEvent g.session) }

theorem fireCable_ok {g g' : ZstGraphSession F} {plug input : EntityId}
    (hrun : fireCable plug g input = .ok g') :
    g' = served g plug (localInputs g plug [input]) := by
  unfold fireCable at hrun
  cases hderef : g.hierarchy.deref (some input) with
  | error fault => simp [hderef, bind, Except.bind] at hrun
  | ok d =>
    obtain rfl := Option.some.inj (deref_ok hderef)
    simp only [hderef, bind, Except.bind] at hrun
    unfold localInputs
    split_ifs at hrun with hfirst
    · rw [List.filter_cons_of_pos (by simpa using hfirst), List.filter_nil]
      unfold plugReceivedValue at hrun
      cases hparent : parentComponent g.session.hierarchy input with
      | none => simp [hierarchy, setValue, hparent] at hrun
      | some p =>
        simp only [hierarchy, setValue, hparent, Except.ok.injEq] at hrun
        rw [← hrun]
        simp only [served, computeEvent, hparent, Option.getD_some, List.map_cons, List.map_nil]
        congr 1
        funext e
        by_cases he : e = input
        · simp [he]
        · simp [he]
    · rw [List.filter_cons_of_neg (by simpa using hfirst), List.filter_nil]
      obtain rfl := Except.ok.inj hrun
      simp [served]

theorem served_append (g : ZstGraphSession F) {plug : EntityId} (first second : List EntityId)
    (hplug : plug ∉ first) :
    served (served g plug first) plug second = served g plug (first ++ second) := by
  unfold served
  simp only [if_neg hplug, List.map_append, List.append_assoc, List.mem_append]
  congr 1
  funext e
  by_cases hfirst : e ∈ first
  · by_cases hsecond : e ∈ second
    · simp [hfirst, hsecond, ZstValue.copy]
    · simp [hfirst, hsecond]
  · simp [hfirst]

theorem foldlM_fireCable {g g' : ZstGraphSession F} {plug : EntityId} (bundle : List EntityId)
    (hplug : plug ∉ bundle) (hrun : bundle.foldlM (fireCable plug) g = .ok g') :
    g' = served g plug (localInputs g plug bundle) := by
  induction bundle generalizing g with
  | nil =>
    obtain rfl := Except.ok.inj hrun
    simp [localInputs, served]
  | cons input bundle ih =>
    obtain ⟨k, hfirst, hrest⟩ := run_cons_ok.mp hrun
    have hk := fireCable_ok hfirst
    have hmem : plug ∉ localInputs g plug [input] := by
      intro hmem
      obtain rfl := List.mem_singleton.mp (List.mem_filter.mp hmem).1
      exact hplug List.mem_cons_self
    have hg' := ih (fun hmem => hplug (List.mem_cons_of_mem _ hmem)) hrest
    rw [hg', hk]
    have hlocal : localInputs (served g plug (localInputs g plug [input])) plug bundle =
        localInputs g plug bundle := rfl
    rw [hlocal, served_append _ _ _ hmem]
    unfold localInputs
    rw [← List.filter_append]
    rfl

/-- A successful call of `fire`. -/
theorem fire_ok {g g' : ZstGraphSession F} {plug : EntityId} {buffer : PlugValue F}
    (hfire : (g.hierarchy.entities plug).canFire = true)
    (hserialize : (g.rawValue plug).serialize conv = .ok (some buffer))
    (hplug : plug ∉ inputs g.session plug) (hrun : fire conv g plug = .ok g') :
    g'.session = g.session ∧
      g'.computeEvents = g.computeEvents ++
        (localInputs g plug (inputs g.session plug)).map (computeEvent g.session) ∧
      g'.graphOut = g.graphOut ++ [⟨(g.hierarchy.entities plug).uri, some buffer⟩] ∧
      ∀ e, e ≠ plug → g'.rawValue e =
        if e ∈ localInputs g plug (inputs g.session plug) then
          (g.rawValue e).copy (g.rawValue plug)
        else g.rawValue e := by
  unfold fire at hrun
  simp only [hfire, Bool.not_true, Bool.false_eq_true, if_false, bind, Except.bind] at hrun
  cases hfold : (inputs g.session plug).foldlM (fireCable plug) g with
  | error fault => simp [hfold] at hrun
  | ok k =>
    have hk := foldlM_fireCable _ hplug hfold
    have hvalue : k.rawValue plug = g.rawValue plug := by
      have hmem : plug ∉ localInputs g plug (inputs g.session plug) :=
        fun hmem => hplug (List.mem_filter.mp hmem).1
      rw [hk]
      simp [served, hmem]
    simp only [hfold, List.length_filter_le, if_true, hvalue, hserialize, pure, Except.pure,
      Except.ok.injEq] at hrun
    rw [← hrun, hk]
    refine ⟨rfl, rfl, rfl, fun e he => ?_⟩
    simp [setValue, served, he]

/-! ## The audience -/

theorem publish_ok {clients clients' : Clients F} {msg : GraphMessage F} {audience : List ZstURI}
    (hnodup : audience.Nodup) (hrun : publish clients [msg] audience = .ok clients') (c : ZstURI) :
    (c ∈ audience → (clients c).receive msg = .ok (clients' c)) ∧
      (c ∉ audience → clients' c = clients c) := by
  obtain ⟨hin, hout⟩ := foldlM_update_ok (f := fun g => [msg].foldlM receive g) hnodup hrun c
  refine ⟨fun hc => ?_, hout⟩
  obtain ⟨k, hreceive, hnil⟩ := run_cons_ok.mp (hin hc)
  obtain rfl := Except.ok.inj hnil
  exact hreceive

section Delivery

variable {clients clients' : Clients F} {performers audience connected : List ZstURI}
  {owner path : ZstURI}

/-- A connected input is found at its path by every client that knows it. -/
theorem Replicated.exists_input (hclients : Replicated clients performers path connected)
    {c : ZstURI} (hc : c ∈ performers) {p : EntityId}
    (hp : (clients c).session.findOutputPlug path = some p) {i : ZstURI} (hi : i ∈ connected) :
    ∃ e ∈ inputs (clients c).session p, ((clients c).hierarchy.entities e).uri = i ∧
      (clients c).hierarchy.findEntity i = some e ∧
      (((clients c).hierarchy.entities e).isProxy = true ↔ i.first ≠ c) := by
  obtain ⟨p', hp', -, hperm⟩ := hclients.plug c hc
  obtain rfl := Option.some.inj (hp.symm.trans hp')
  obtain ⟨e, he, rfl⟩ := List.mem_map.mp (hperm.mem_iff.mpr hi)
  obtain ⟨d, hd, rfl⟩ := mem_inputs he
  exact ⟨_, he, rfl, ((hclients.wired c hc).found d hd).2, hclients.proxy c hc d hd⟩

/-- The inputs at the plug's cables whose paths meet a condition have the
connected paths that meet it. -/
theorem Replicated.perm_filter (hclients : Replicated clients performers path connected)
    {c : ZstURI} (hc : c ∈ performers) {p : EntityId}
    (hp : (clients c).session.findOutputPlug path = some p) (condition : ZstURI → Bool) :
    (((inputs (clients c).session p).filter fun e =>
        condition ((clients c).hierarchy.entities e).uri).map fun e =>
          ((clients c).hierarchy.entities e).uri).Perm (connected.filter condition) := by
  obtain ⟨p', hp', -, hperm⟩ := hclients.plug c hc
  obtain rfl := Option.some.inj (hp.symm.trans hp')
  have hfilter := hperm.filter condition
  rw [List.filter_map] at hfilter
  exact hfilter

end Delivery

/-- A performer fires a plug whose value can be sent, without an exception, and
the published message reaches each client of the audience once. -/
structure Fires (clients clients' : Clients F) (owner path : ZstURI) (audience : List ZstURI)
    (connected : List ZstURI) (value : ZstValue F) (buffer : PlugValue F) : Prop where
  replicated : Replicated clients (owner :: audience) path connected
  absent : owner ∉ audience
  nodup : audience.Nodup
  reached : ∀ i ∈ connected, i.first = owner ∨ i.first ∈ audience
  plug : ∃ p, (clients owner).session.findOutputPlug path = some p ∧
    ((clients owner).hierarchy.entities p).canFire = true ∧ (clients owner).rawValue p = value
  serialize : value.serialize conv = .ok (some buffer)
  run : fireAt conv clients owner path audience = .ok clients'

namespace Fires

variable {conv} {clients clients' : Clients F} {audience connected : List ZstURI}
  {owner path : ZstURI} {value : ZstValue F} {buffer : PlugValue F}
  (hfires : Fires conv clients clients' owner path audience connected value buffer)

include hfires

/-- The plug is not an input at its own cables. -/
theorem not_input {p : EntityId} (hp : (clients owner).session.findOutputPlug path = some p) :
    p ∉ inputs (clients owner).session p := by
  intro hmem
  obtain ⟨d, hd, hinput⟩ := mem_inputs hmem
  have hin := (hfires.replicated.wired owner List.mem_cons_self).input d hd
  have hout : ((clients owner).session.hierarchy.entities p).isOutputPlug = true :=
    (Option.filter_eq_some_iff.mp hp).2
  rw [hinput] at hin
  unfold Entity.isInputPlug at hin
  unfold Entity.isOutputPlug at hout
  simp_all

/-- The two halves of a successful call. -/
theorem split : ∃ p, (clients owner).session.findOutputPlug path = some p ∧
    ((clients owner).hierarchy.entities p).uri = path ∧
    (clients' owner).computeEvents = (clients owner).computeEvents ++
      (localInputs (clients owner) p (inputs (clients owner).session p)).map
        (computeEvent (clients owner).session) ∧
    (∀ e, e ≠ p → (clients' owner).rawValue e =
      if e ∈ localInputs (clients owner) p (inputs (clients owner).session p) then
        ((clients owner).rawValue e).copy value
      else (clients owner).rawValue e) ∧
    ∀ c ∈ audience, (clients c).receive ⟨path, some buffer⟩ = .ok (clients' c) := by
  obtain ⟨p, hp, huri, -⟩ := hfires.replicated.plug owner List.mem_cons_self
  obtain ⟨p', hp', hcanFire, hvalue⟩ := hfires.plug
  obtain rfl := Option.some.inj (hp.symm.trans hp')
  have hrun := hfires.run
  unfold fireAt at hrun
  simp only [hp, bind, Except.bind] at hrun
  have hplug := hfires.not_input hp
  cases hfire : fire conv (clients owner) p with
  | error fault => simp [hfire] at hrun
  | ok g =>
    simp only [hfire] at hrun
    obtain ⟨-, hevents, hout, hvalues⟩ := fire_ok conv hcanFire
      (by rw [hvalue]; exact hfires.serialize) hplug hfire
    rw [hout, List.drop_left, huri] at hrun
    have howner := (publish_ok hfires.nodup hrun owner).2 hfires.absent
    rw [Function.update_self] at howner
    refine ⟨p, hp, huri, ?_, ?_, fun c hc => ?_⟩
    · rw [howner]
      exact hevents
    · rw [howner, ← hvalue]
      exact hvalues
    · have hreceive := (publish_ok hfires.nodup hrun c).1 hc
      rwa [Function.update_of_ne (by rintro rfl; exact hfires.absent hc)] at hreceive

/-- What is queued at the firing client. -/
theorem queued_owner : (queued (clients owner) (clients' owner)).Perm
    (connected.filter fun i => i.first = path.first) := by
  obtain ⟨p, hp, huri, hevents, -⟩ := hfires.split
  unfold queued
  rw [hevents, List.drop_left, List.map_map]
  have hperm := hfires.replicated.perm_filter List.mem_cons_self hp fun i => i.first = path.first
  unfold localInputs
  rw [huri]
  exact hperm

/-- An input below the plug's own performer gets its copy at the firing client. -/
theorem value_owner {i : ZstURI} (hi : i ∈ connected) {e : EntityId}
    (he : (clients owner).hierarchy.findEntity i = some e) (hfirst : i.first = path.first) :
    (clients' owner).rawValue e = ((clients owner).rawValue e).copy value := by
  obtain ⟨p, hp, huri, -, hvalues, -⟩ := hfires.split
  obtain ⟨d, hd, hduri, hfound, -⟩ := hfires.replicated.exists_input List.mem_cons_self hp hi
  obtain rfl := Option.some.inj (he.symm.trans hfound)
  have hne : e ≠ p := by
    rintro rfl
    exact hfires.not_input hp hd
  rw [hvalues e hne, if_pos]
  refine List.mem_filter.mpr ⟨hd, ?_⟩
  rw [hduri, huri]
  simpa using hfirst

/-- What is queued at a client of the audience. -/
theorem queued_audience {c : ZstURI} (hc : c ∈ audience) :
    (queued (clients c) (clients' c)).Perm (connected.filter fun i => i.first = c) ∧
      ∀ p, (clients c).session.findOutputPlug path = some p →
      ∀ e ∈ inputs (clients c).session p, ((clients c).hierarchy.entities e).isProxy = false →
        (clients' c).rawValue e = ((clients c).rawValue e).deserialize (some buffer) := by
  have hmem := List.mem_cons_of_mem owner hc
  obtain ⟨p₀, hp₀, -, -, -, hreceive⟩ := hfires.split
  obtain ⟨p, hp, -⟩ := hfires.replicated.plug c hmem
  have hlist := ZstValue.isList_of_serialize hfires.serialize
  have hwired := hfires.replicated.wired c hmem
  have hreceivers : receivers (clients c).session ⟨path, some buffer⟩ =
      (inputs (clients c).session p).filter fun e =>
        !((clients c).hierarchy.entities e).isProxy := by
    unfold receivers
    simp only [hp]
    rfl
  have hfirst : (inputs (clients c).session p).filter (fun e =>
        !((clients c).hierarchy.entities e).isProxy) =
      (inputs (clients c).session p).filter fun e =>
        ((clients c).hierarchy.entities e).uri.first = c := by
    refine List.filter_congr fun e he => ?_
    obtain ⟨d, hd, rfl⟩ := mem_inputs he
    have hproxy := hfires.replicated.proxy c hmem d hd
    by_cases hc : ((clients c).hierarchy.entities ((clients c).session.cableObjects d).input).uri.first
        = c
    · simpa [hc] using hproxy
    · simpa [hc] using hproxy.mpr hc
  obtain ⟨k, hk, -, hevents, -, hvalues⟩ := receive_eq hwired (.refl _)
    (show (⟨path, some buffer⟩ : GraphMessage F).value = some buffer from rfl) hlist
  have hclient := Except.ok.inj ((hreceive c hc).symm.trans hk)
  refine ⟨?_, fun p' hp' e he hproxy => ?_⟩
  · unfold queued
    rw [hclient, delivered, hevents, List.drop_left, List.map_map, hreceivers, hfirst]
    exact hfires.replicated.perm_filter hmem hp fun i => i.first = c
  · obtain rfl := Option.some.inj (hp.symm.trans hp')
    have he' : e ∈ receivers (clients c).session ⟨path, some buffer⟩ := by
      rw [hreceivers]
      exact List.mem_filter.mpr ⟨he, by simp [hproxy]⟩
    rw [hclient, delivered]
    simp only [he', if_true]
    exact (held_eq rfl hlist _).symm

/-- A connected input is found at its path, and is real at its own performer. -/
theorem real_iff {c : ZstURI} (hc : c ∈ owner :: audience) {i : ZstURI} (hi : i ∈ connected)
    {e : EntityId} (he : (clients c).hierarchy.findEntity i = some e) :
    ((clients c).hierarchy.entities e).isProxy = false ↔ i.first = c := by
  obtain ⟨p, hp, -⟩ := hfires.replicated.plug c hc
  obtain ⟨d, -, -, hd, hproxy⟩ := hfires.replicated.exists_input hc hp hi
  obtain rfl := Option.some.inj (he.symm.trans hd)
  rw [← Bool.not_eq_true, hproxy, not_not]

/-- How often a connected input is computed at a client that serves the inputs
of some performer. -/
theorem count_queued {c served : ZstURI}
    (hperm : (queued (clients c) (clients' c)).Perm (connected.filter fun i => i.first = served))
    {i : ZstURI} (hi : i ∈ connected) :
    (queued (clients c) (clients' c)).count i = if i.first = served then 1 else 0 := by
  rw [hperm.count_eq]
  split
  · rename_i hfirst
    have hmem : i ∈ connected.filter fun i => i.first = served :=
      List.mem_filter.mpr ⟨hi, by simpa using hfirst⟩
    exact List.count_eq_one_of_mem (hfires.replicated.nodup.filter _) hmem
  · rename_i hfirst
    refine List.count_eq_zero.mpr fun hmem => hfirst ?_
    simpa using (List.mem_filter.mp hmem).2

/-- Every real input gets the value once, and no proxy is computed, exactly if
the plug's creator fires it or neither the creator nor the firing performer has
a connected input. -/
theorem deliveredOnce_iff :
    DeliveredOnce clients clients' (owner :: audience) connected value buffer ↔
      path.first = owner ∨ ∀ i ∈ connected, i.first ≠ path.first ∧ i.first ≠ owner := by
  have hmem : owner ∈ owner :: audience := List.mem_cons_self
  constructor
  · intro hdelivered
    by_cases hcreator : path.first = owner
    · exact Or.inl hcreator
    refine Or.inr fun i hi => ?_
    obtain ⟨p, hp, -⟩ := hfires.split
    obtain ⟨e, -, -, he, -⟩ := hfires.replicated.exists_input hmem hp hi
    constructor
    · intro hfirst
      have hqueued : i ∈ queued (clients owner) (clients' owner) :=
        hfires.queued_owner.mem_iff.mpr (List.mem_filter.mpr ⟨hi, by simpa using hfirst⟩)
      have hreal := (hfires.real_iff hmem hi he).mp (hdelivered.real owner hmem i hqueued e he)
      exact hcreator (hfirst.symm.trans hreal)
    · intro hfirst
      have hone := (hdelivered.once owner hmem i hi e he
        ((hfires.real_iff hmem hi he).mpr hfirst)).1
      rw [hfires.count_queued hfires.queued_owner hi, if_neg] at hone
      · cases hone
      · exact fun heq => hcreator (heq.symm.trans hfirst)
  · intro hcondition
    refine ⟨fun c hc i hi e he hreal => ?_, fun c hc i hi e he => ?_⟩
    · have hfirst := (hfires.real_iff hc hi he).mp hreal
      rcases List.mem_cons.mp hc with rfl | haudience
      · have hcreator : path.first = c := by
          rcases hcondition with hcreator | hnone
          · exact hcreator
          · exact absurd hfirst (hnone i hi).2
        refine ⟨?_, Or.inl (hfires.value_owner hi he (hfirst.trans hcreator.symm))⟩
        rw [hfires.count_queued hfires.queued_owner hi, if_pos (hfirst.trans hcreator.symm)]
      · obtain ⟨hperm, hvalues⟩ := hfires.queued_audience haudience
        obtain ⟨p, hp, -⟩ := hfires.replicated.plug c hc
        obtain ⟨d, hd, -, hfound, -⟩ := hfires.replicated.exists_input hc hp hi
        obtain rfl := Option.some.inj (he.symm.trans hfound)
        refine ⟨?_, Or.inr (hvalues p hp e hd hreal)⟩
        rw [hfires.count_queued hperm hi, if_pos hfirst]
    · rcases List.mem_cons.mp hc with rfl | haudience
      · obtain ⟨hconnected, hfirst⟩ := List.mem_filter.mp (hfires.queued_owner.mem_iff.mp hi)
        have hfirst : i.first = path.first := by simpa using hfirst
        rcases hcondition with hcreator | hnone
        · exact (hfires.real_iff hc hconnected he).mpr (hfirst.trans hcreator)
        · exact absurd hfirst (hnone i hconnected).1
      · obtain ⟨hperm, -⟩ := hfires.queued_audience haudience
        obtain ⟨hconnected, hfirst⟩ := List.mem_filter.mp (hperm.mem_iff.mp hi)
        exact (hfires.real_iff hc hconnected he).mpr (by simpa using hfirst)

end Fires

/-- Two clients that know `ada/out` with a cable to `bob/in`; the value 5 waits in
every copy of the output plug. -/
def duo (c : ZstURI) : ZstGraphSession Int where
  session :=
    { hierarchy := .ofList
        [{ entityType := .performer, uri := ["ada"], registered := true, syncStatus := .activated,
           isProxy := c ≠ ["ada"], children := [["ada", "out"]] },
         { entityType := .performer, uri := ["bob"], registered := true, syncStatus := .activated,
           isProxy := c ≠ ["bob"], children := [["bob", "in"]] },
         { entityType := .plug, uri := ["ada", "out"], parentAddress := ["ada"],
           direction := .outJack, registered := true, sessionAdaptor := true, canFire := true,
           isProxy := c ≠ ["ada"], syncStatus := .activated,
           cables := [⟨["bob", "in"], ["ada", "out"]⟩] },
         { entityType := .plug, uri := ["bob", "in"], parentAddress := ["bob"],
           direction := .inJack, registered := true, sessionAdaptor := true,
           isProxy := c ≠ ["bob"], syncStatus := .activated,
           cables := [⟨["bob", "in"], ["ada", "out"]⟩] }]
        (some (if c = ["ada"] then 0 else 1))
      cableObjects := fun _ => ⟨⟨["bob", "in"], ["ada", "out"]⟩, 3, 2, .activated, []⟩
      nextCable := 1
      cables := [0] }
  rawValue e := if e = 2 then { values := [.int 5] } else {}

theorem duo_replicated {performers : List ZstURI}
    (hperformers : ∀ c ∈ performers, c = ["ada"] ∨ c = ["bob"]) :
    Replicated duo performers ["ada", "out"] [["bob", "in"]] := by
  refine ⟨fun c hc => ?_, fun c hc => ?_, fun c hc => ?_, by decide⟩
  · rcases hperformers c hc with rfl | rfl
    · refine ⟨by decide, by decide, fun d hd hproxy => ?_⟩
      obtain rfl : d = 0 := List.mem_singleton.mp hd
      exact absurd hproxy (by decide)
    · refine ⟨by decide, by decide, fun d hd _ => ?_⟩
      obtain rfl : d = 0 := List.mem_singleton.mp hd
      exact ⟨1, by decide, by decide⟩
  · rcases hperformers c hc with rfl | rfl
    · exact ⟨2, by decide, by decide, by decide⟩
    · exact ⟨2, by decide, by decide, by decide⟩
  · rcases hperformers c hc with rfl | rfl
    · decide
    · decide

theorem duo_fires {clients' : Clients Int} {owner other : ZstURI}
    (hclients : owner = ["ada"] ∧ other = ["bob"] ∨ owner = ["bob"] ∧ other = ["ada"])
    (hrun : fireAt ValueDelivery.millionths duo owner ["ada", "out"] [other] = .ok clients') :
    Fires ValueDelivery.millionths duo clients' owner ["ada", "out"] [other] [["bob", "in"]]
      { values := [.int 5] } (.intList [5]) := by
  rcases hclients with ⟨rfl, rfl⟩ | ⟨rfl, rfl⟩
  · exact ⟨duo_replicated (by decide), by decide, by decide, by decide,
      ⟨2, by decide, by decide, rfl⟩, rfl, hrun⟩
  · exact ⟨duo_replicated (by decide), by decide, by decide, by decide,
      ⟨2, by decide, by decide, rfl⟩, rfl, hrun⟩

/-- The rule at work: the creator's value arrives. -/
theorem deliveredOnce_iff_creator :
    ∃ clients', fireAt ValueDelivery.millionths duo ["ada"] ["ada", "out"] [["bob"]] =
        .ok clients' ∧
      DeliveredOnce duo clients' [["ada"], ["bob"]] [["bob", "in"]] { values := [.int 5] }
        (.intList [5]) :=
  ⟨_, rfl, (Fires.deliveredOnce_iff (duo_fires (Or.inl ⟨rfl, rfl⟩) rfl)).mpr (Or.inl (by decide))⟩

/-- A plug that its new owner fires does not reach the owner's own input. -/
theorem owner_input_unserved :
    ∃ clients', Fires ValueDelivery.millionths duo clients' ["bob"] ["ada", "out"] [["ada"]]
        [["bob", "in"]] { values := [.int 5] } (.intList [5]) ∧
      (duo ["bob"]).hierarchy.findEntity ["bob", "in"] = some 3 ∧
      ((duo ["bob"]).hierarchy.entities 3).isProxy = false ∧
      queued (duo ["bob"]) (clients' ["bob"]) = [] ∧
      ¬ DeliveredOnce duo clients' [["bob"], ["ada"]] [["bob", "in"]] { values := [.int 5] }
        (.intList [5]) := by
  refine ⟨_, duo_fires (Or.inr ⟨rfl, rfl⟩) rfl, by decide, by decide, by decide, ?_⟩
  intro hdelivered
  have hone := (hdelivered.once ["bob"] (by decide) ["bob", "in"] (by decide) 3 (by decide)
    (by decide)).1
  revert hone
  decide

end Showtime.Firing
