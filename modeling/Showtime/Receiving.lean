import Showtime.Graph
/-!
# Receiving graph messages

Which inputs of a client a graph message reaches, and that its handler gives
each of them the value once and queues one compute event for it.
-/

namespace Showtime.Receiving

open ZstHierarchy ZstGraphSession

variable {F : Type}

/-- The local inputs that a message is for. -/
def receivers (s : ZstSession) (msg : GraphMessage F) : List EntityId :=
  match s.findOutputPlug msg.sender with
  | some sendingPlug => (inputs s sendingPlug).filter fun e => !(s.hierarchy.entities e).isProxy
  | none => []

/-- What a plug holds once it has received a message. -/
def held (msg : GraphMessage F) : ZstValue F :=
  ({} : ZstValue F).deserialize msg.value

/-- Every cable leads to an input plug that is found at its URI, below a component. -/
structure InputsFound (s : ZstSession) : Prop where
  found : ∀ c ∈ s.cables, s.hierarchy.live (s.cableObjects c).input = true ∧
    s.hierarchy.findEntity (s.hierarchy.entities (s.cableObjects c).input).uri =
      some (s.cableObjects c).input
  input : ∀ c ∈ s.cables, (s.hierarchy.entities (s.cableObjects c).input).isInputPlug = true
  parent : ∀ c ∈ s.cables, (s.hierarchy.entities (s.cableObjects c).input).isProxy = false →
    ∃ p, parentComponent s.hierarchy (s.cableObjects c).input = some p ∧
      s.hierarchy.live p = true

/-! ## What a message leaves alone -/

/-- An entity without the data that updates and activations change. -/
def still (x : Entity) : Entity :=
  { x with syncStatus := .activated, synchronisableEvents := [], canFire := false }

/-- The second hierarchy has the entities of the first, at the same places. -/
structure PlacesKept (h k : ZstHierarchy) : Prop where
  entities : ∀ e, still (k.entities e) = still (h.entities e)
  live : k.live = h.live
  lookup : k.lookup = h.lookup
  root : k.root = h.root

namespace PlacesKept

variable {h k : ZstHierarchy}

theorem refl (h : ZstHierarchy) : PlacesKept h h :=
  ⟨fun _ => rfl, rfl, rfl, rfl⟩

theorem field {β : Type} (hk : PlacesKept h k) (f : Entity → β) (hf : ∀ x, f (still x) = f x)
    (e : EntityId) : f (k.entities e) = f (h.entities e) := by
  rw [← hf, hk.entities e, hf]

theorem findEntity (hk : PlacesKept h k) (path : ZstURI) :
    k.findEntity path = h.findEntity path := by
  simp only [ZstHierarchy.findEntity, hk.root, hk.lookup, hk.field Entity.uri fun _ => rfl]

theorem parentComponent (hk : PlacesKept h k) (e : EntityId) :
    ZstGraphSession.parentComponent k e = ZstGraphSession.parentComponent h e := by
  simp only [ZstGraphSession.parentComponent, ZstHierarchy.parent, hk.findEntity,
    hk.field Entity.isComponent fun _ => rfl, hk.field Entity.parentAddress fun _ => rfl,
    hk.field Entity.registered fun _ => rfl]

theorem modify (hk : PlacesKept h k) (e : EntityId) (f : Entity → Entity)
    (hstill : still (f (k.entities e)) = still (k.entities e)) : PlacesKept h (k.modify e f) := by
  refine ⟨fun d => ?_, hk.live, hk.lookup, hk.root⟩
  rw [modify_entities]
  split
  · rename_i hd
    rw [hstill, hd]
    exact hk.entities e
  · exact hk.entities d

/-- The queues of the hierarchy are nobody's data. -/
theorem queue (hk : PlacesKept h k) (items : List EntityId) (dead : List EntityId) (freed : Bool) :
    PlacesKept h { k with synchronisableEvents := items, deadIDs := dead, freedAccess := freed } :=
  ⟨hk.entities, hk.live, hk.lookup, hk.root⟩

theorem synchronisableHasEvent (hk : PlacesKept h k) (e : EntityId) :
    PlacesKept h (k.synchronisableHasEvent e) := by
  unfold ZstHierarchy.synchronisableHasEvent
  split
  · exact hk.queue _ k.deadIDs k.freedAccess
  · exact hk

end PlacesKept

/-- The second session has the entities and cables of the first. -/
structure Unmoved (s t : ZstSession) : Prop where
  hierarchy : PlacesKept s.hierarchy t.hierarchy
  cables : t.cables = s.cables
  cableObjects : t.cableObjects = s.cableObjects

namespace Unmoved

variable {s t : ZstSession}

theorem refl (s : ZstSession) : Unmoved s s :=
  ⟨.refl _, rfl, rfl⟩

theorem field {β : Type} (ht : Unmoved s t) (f : Entity → β) (hf : ∀ x, f (still x) = f x)
    (e : EntityId) : f (t.hierarchy.entities e) = f (s.hierarchy.entities e) :=
  ht.hierarchy.field f hf e

theorem findOutputPlug (ht : Unmoved s t) (path : ZstURI) :
    t.findOutputPlug path = s.findOutputPlug path := by
  simp only [ZstSession.findOutputPlug, ht.hierarchy.findEntity,
    ht.field Entity.isOutputPlug fun _ => rfl]

theorem inputs (ht : Unmoved s t) (e : EntityId) :
    ZstGraphSession.inputs t e = ZstGraphSession.inputs s e := by
  simp only [ZstGraphSession.inputs, ZstSession.plugCables, ZstSession.findCable, ht.cables,
    ht.cableObjects, ht.field Entity.entityType fun _ => rfl,
    ht.field Entity.sessionAdaptor fun _ => rfl, ht.field Entity.cables fun _ => rfl]

theorem announceUpdate {g : ZstGraphSession F} (hg : Unmoved s g.session) (e : EntityId) :
    Unmoved s (g.announceUpdate e).session :=
  ⟨PlacesKept.synchronisableHasEvent (hg.hierarchy.modify e _ rfl) e, hg.cables, hg.cableObjects⟩

end Unmoved

/-! ## One message, one compute event -/

/-- The compute event of an input plug. -/
def computeEvent (s : ZstSession) (e : EntityId) : ComputeEvent :=
  ⟨(parentComponent s.hierarchy e).getD 0, (s.hierarchy.entities e).uri⟩

/-- The client after some local inputs have received a message. -/
def delivered (s : ZstSession) (msg : GraphMessage F) (g : ZstGraphSession F)
    (plugs : List EntityId) : ZstGraphSession F :=
  { g with
    rawValue := fun e => if e ∈ plugs then held msg else g.rawValue e
    computeEvents := g.computeEvents ++ plugs.map (computeEvent s) }

section Messages

variable {s : ZstSession} {g : ZstGraphSession F} {msg : GraphMessage F} {buffer : PlugValue F}

theorem held_eq (hvalue : msg.value = some buffer) (hlist : buffer.isList = true)
    (v : ZstValue F) : v.deserialize (some buffer) = held msg := by
  unfold held
  rw [hvalue]
  exact ZstValue.deserialize_isList hlist _ _

theorem mem_inputs {e d : EntityId} (hd : d ∈ inputs s e) :
    ∃ c ∈ s.cables, (s.cableObjects c).input = d := by
  obtain ⟨c, hc, rfl⟩ := List.mem_map.mp hd
  exact ⟨c, ZstSession.mem_cables_of_mem_plugCables (by simp) c hc, rfl⟩

/-- A local input of a cable takes the value and queues its compute event. -/
theorem receiveCable_local (hs : InputsFound s) (hg : Unmoved s g.session)
    (hvalue : msg.value = some buffer) (hlist : buffer.isList = true) {c : CableId}
    (hc : c ∈ s.cables)
    (hproxy : (s.hierarchy.entities (s.cableObjects c).input).isProxy = false) :
    receiveCable buffer g (s.cableObjects c).input =
      .ok (delivered s msg g [(s.cableObjects c).input]) := by
  have hlive : g.session.hierarchy.deref (some (s.cableObjects c).input) =
      .ok (s.cableObjects c).input := by
    unfold deref
    simp only [hg.hierarchy.live, (hs.found c hc).1, if_true]
  have hproxy' : (g.session.hierarchy.entities (s.cableObjects c).input).isProxy = false := by
    rw [← hproxy]
    exact hg.field Entity.isProxy (fun _ => rfl) _
  obtain ⟨p, hparent, -⟩ := hs.parent c hc hproxy
  have hparent' : parentComponent g.session.hierarchy (s.cableObjects c).input = some p :=
    (hg.hierarchy.parentComponent _).trans hparent
  have huri : (g.session.hierarchy.entities (s.cableObjects c).input).uri =
      (s.hierarchy.entities (s.cableObjects c).input).uri :=
    hg.field Entity.uri (fun _ => rfl) _
  generalize (s.cableObjects c).input = e at hlive hproxy' hparent hparent' huri ⊢
  unfold receiveCable plugReceivedValue
  simp only [hierarchy, hlive, bind, Except.bind, hproxy', setValue, Bool.false_eq_true, if_false]
  simp only [hparent', huri, held_eq hvalue hlist, delivered, computeEvent, hparent,
    Option.getD_some, List.map_cons, List.map_nil]
  congr 2
  funext d
  by_cases hd : d = e
  · simp [hd]
  · simp [hd]

/-- A proxy at the other end of a cable gets nothing. -/
theorem receiveCable_proxy (hs : InputsFound s) (hg : Unmoved s g.session) {c : CableId}
    (hc : c ∈ s.cables)
    (hproxy : (s.hierarchy.entities (s.cableObjects c).input).isProxy = true) :
    receiveCable buffer g (s.cableObjects c).input = .ok g := by
  have hlive : g.session.hierarchy.deref (some (s.cableObjects c).input) =
      .ok (s.cableObjects c).input := by
    unfold deref
    simp only [hg.hierarchy.live, (hs.found c hc).1, if_true]
  have hproxy' : (g.session.hierarchy.entities (s.cableObjects c).input).isProxy = true := by
    rw [← hproxy]
    exact hg.field Entity.isProxy (fun _ => rfl) _
  unfold receiveCable
  simp only [hierarchy, hlive, bind, Except.bind, hproxy', if_true]
  rfl

theorem delivered_append (g : ZstGraphSession F) (first second : List EntityId) :
    delivered s msg (delivered s msg g first) second = delivered s msg g (first ++ second) := by
  unfold delivered
  simp only [List.map_append, List.append_assoc, List.mem_append]
  congr 1
  funext e
  by_cases hfirst : e ∈ first
  · simp [hfirst]
  · simp [hfirst]

/-- The loop over the cables of the sending plug. -/
theorem foldlM_receiveCable (hs : InputsFound s) (hvalue : msg.value = some buffer)
    (hlist : buffer.isList = true) (plugs : List EntityId)
    (hplugs : ∀ e ∈ plugs, ∃ c ∈ s.cables, (s.cableObjects c).input = e)
    (hg : Unmoved s g.session) :
    plugs.foldlM (receiveCable buffer) g =
      .ok (delivered s msg g (plugs.filter fun e => !(s.hierarchy.entities e).isProxy)) := by
  induction plugs generalizing g with
  | nil => simp [delivered, pure, Except.pure]
  | cons e plugs ih =>
    obtain ⟨c, hc, rfl⟩ := hplugs _ List.mem_cons_self
    have hrest : ∀ e ∈ plugs, ∃ c ∈ s.cables, (s.cableObjects c).input = e :=
      fun e he => hplugs e (List.mem_cons_of_mem _ he)
    rw [List.foldlM_cons]
    cases hproxy : (s.hierarchy.entities (s.cableObjects c).input).isProxy with
    | true =>
      rw [receiveCable_proxy hs hg hc hproxy, List.filter_cons_of_neg (by simp [hproxy])]
      exact ih hrest hg
    | false =>
      rw [receiveCable_local hs hg hvalue hlist hc hproxy,
        List.filter_cons_of_pos (by simp [hproxy])]
      have hstep := ih (g := delivered s msg g [(s.cableObjects c).input]) hrest hg
      rw [delivered_append] at hstep
      exact hstep

theorem mem_receivers {e : EntityId} (he : e ∈ receivers s msg) :
    ∃ c ∈ s.cables, (s.cableObjects c).input = e ∧ (s.hierarchy.entities e).isProxy = false := by
  unfold receivers at he
  cases hsender : s.findOutputPlug msg.sender with
  | none => simp [hsender] at he
  | some sendingPlug =>
    simp only [hsender, List.mem_filter, Bool.not_eq_true'] at he
    obtain ⟨c, hc, hinput⟩ := mem_inputs he.1
    exact ⟨c, hc, hinput, he.2⟩

/-- A message announces an update of its sending plug at most. -/
theorem unmoved_of_announced {k : ZstGraphSession F} (hg : Unmoved s g.session)
    (hk : k.session = g.session ∨ ∃ e, k.session = (g.announceUpdate e).session) :
    Unmoved s k.session := by
  rcases hk with hk | ⟨e, hk⟩
  · rw [hk]
    exact hg
  · rw [hk]
    exact hg.announceUpdate e

/-- What the handler of graph messages does: the sending plug's proxy is updated,
and every local input at one of its cables gets the value. -/
theorem receive_eq (hs : InputsFound s) (hg : Unmoved s g.session)
    (hvalue : msg.value = some buffer)
    (hlist : buffer.isList = true) :
    ∃ k, g.receive msg = .ok (delivered s msg k (receivers s msg)) ∧
      (k.session = g.session ∨ ∃ e, k.session = (g.announceUpdate e).session) ∧
      k.computeEvents = g.computeEvents ∧ k.computed = g.computed ∧
      ∀ e, (s.hierarchy.entities e).isOutputPlug = false → k.rawValue e = g.rawValue e := by
  unfold receive
  rw [hvalue]
  cases hsender : s.findOutputPlug msg.sender with
  | none =>
    have hnone := (hg.findOutputPlug msg.sender).trans hsender
    refine ⟨g, ?_, Or.inl rfl, rfl, rfl, fun _ _ => rfl⟩
    simp only [receivers, hsender, delivered, hnone]
    cases buffer <;> simp at hlist ⊢
  | some sendingPlug =>
    have hsome := (hg.findOutputPlug msg.sender).trans hsender
    have houtput : (s.hierarchy.entities sendingPlug).isOutputPlug = true :=
      (Option.filter_eq_some_iff.mp hsender).2
    obtain ⟨k, hk, hsession, hevents, hcomputed, hvalues⟩ : ∃ k,
        (if (g.hierarchy.entities sendingPlug).isProxy then
          (g.setValue sendingPlug
            ((g.rawValue sendingPlug).deserialize (some buffer))).announceUpdate sendingPlug
        else g) = k ∧
          (k.session = g.session ∨ ∃ e, k.session = (g.announceUpdate e).session) ∧
          k.computeEvents = g.computeEvents ∧ k.computed = g.computed ∧
          ∀ e, (s.hierarchy.entities e).isOutputPlug = false → k.rawValue e = g.rawValue e := by
      split
      · refine ⟨_, rfl, Or.inr ⟨sendingPlug, rfl⟩, rfl, rfl, fun e he => ?_⟩
        have hne : e ≠ sendingPlug := by
          rintro rfl
          rw [houtput] at he
          cases he
        exact Function.update_of_ne hne _ _
      · exact ⟨g, rfl, Or.inl rfl, rfl, rfl, fun _ _ => rfl⟩
    refine ⟨k, ?_, hsession, hevents, hcomputed, hvalues⟩
    have hk' : Unmoved s k.session := unmoved_of_announced hg hsession
    have hfold := foldlM_receiveCable hs hvalue hlist (inputs s sendingPlug)
      (fun e he => mem_inputs he) hk'
    have hreceivers : receivers s msg =
        (inputs s sendingPlug).filter fun e => !(s.hierarchy.entities e).isProxy := by
      simp only [receivers, hsender]
    rw [hreceivers, ← hfold, ← hk'.inputs sendingPlug]
    cases buffer with
    | none => cases hlist
    | plugHandshake => cases hlist
    | intList val => simp only [hsome, hk]
    | floatList val => simp only [hsome, hk]
    | strList val => simp only [hsome, hk]

/-- The plug at the head of the queue is computed. -/
theorem processCompute_eq (hs : InputsFound s) (hg : Unmoved s g.session) {c : CableId}
    {queue : List EntityId} (hc : c ∈ s.cables)
    (hproxy : (s.hierarchy.entities (s.cableObjects c).input).isProxy = false)
    (hqueue : g.computeEvents = ((s.cableObjects c).input :: queue).map (computeEvent s)) :
    ∃ p, g.processCompute = .ok { g with
      computeEvents := queue.map (computeEvent s)
      computed := g.computed ++ [⟨p, (s.cableObjects c).input,
        g.rawValue (s.cableObjects c).input⟩] } := by
  obtain ⟨p, hparent, hlive⟩ := hs.parent c hc hproxy
  have hfound := (hg.hierarchy.findEntity _).trans (hs.found c hc).2
  have hevent : computeEvent s (s.cableObjects c).input =
      ⟨p, (s.hierarchy.entities (s.cableObjects c).input).uri⟩ := by
    simp [computeEvent, hparent]
  have hlive' : g.session.hierarchy.live p = true := by
    rw [hg.hierarchy.live]
    exact hlive
  refine ⟨p, ?_⟩
  unfold processCompute
  simp only [hqueue, List.map_cons, hevent, hierarchy, hfound, deref, hlive', if_true, bind,
    Except.bind, pure, Except.pure]

end Messages


end Showtime.Receiving
