import Showtime.Library.Run
import Showtime.Library.Channel
import Showtime.Performance
/-!
# Ownership of output plugs

Any client may take over an output plug that another one has created, and
release it again. The stage broadcasts each change, and every client sets the
fire permission of its own copy of the plug when the broadcast arrives. This
module follows the permission on all copies through any sequence of requests.
-/

namespace Showtime.Ownership

open ZstHierarchy ZstStageHierarchy ZstStageSession Performance Library
open ZstClientHierarchy (unanswered)

/-! ## Runs -/

inductive OwnershipEvent
  /-- Client `c` calls `aquire_ownership` on its copy of an entity. -/
  | aquire (c : Endpoint) (plug : ZstURI) (id : ZstMsgID)
  /-- Client `c` calls `release_ownership` on its copy of an entity. -/
  | release (c : Endpoint) (plug : ZstURI) (id : ZstMsgID)
  /-- The response to a handshake that a change of ownership has started. -/
  | handshake (output input : EntityId) (response : Option Content)
  | deliver (c : Endpoint)

/-- The request of a client for its copy of an entity. -/
def request (ask : ZstHierarchy → EntityId → Option Content) (p : Performance) (c : Endpoint)
    (plug : ZstURI) (id : ZstMsgID) : Except Fault Performance :=
  let h := (p.clients c).hierarchy
  match (h.findEntity plug).bind (ask h) with
  | some content => p.stageReceive { content, id, originEndpointUUID := c }
  | none => .ok p

def step (v : Overrides) (p : Performance) : OwnershipEvent → Except Fault Performance
  | .aquire c plug id => request ZstClientSession.aquireEntityOwnership p c plug id
  | .release c plug id => request ZstClientSession.releaseEntityOwnership p c plug id
  | .handshake output input response => do
    let stage ← clientsConnected p.stage output input .none response
    return { p with stage }.flush
  | .deliver c => p.deliver v c

/-- Who was given the plug: a client, or nobody when it was released. -/
inductive Transfer
  | aquired (c : Endpoint)
  | released
  deriving DecidableEq

/-- The transfer that an event asks for. -/
def OwnershipEvent.transfer (plug : ZstURI) : OwnershipEvent → Option Transfer
  | .aquire c path _ => if path = plug then some (.aquired c) else none
  | .release _ path _ => if path = plug then some .released else none
  | _ => none

/-- The last transfer that was asked for in a run. -/
def lastTransfer (plug : ZstURI) (events : List OwnershipEvent) : Option Transfer :=
  events.foldl (fun last event => (event.transfer plug).or last) none

theorem lastTransfer_concat (plug : ZstURI) (events : List OwnershipEvent)
    (event : OwnershipEvent) :
    lastTransfer plug (events ++ [event]) = (event.transfer plug).or (lastTransfer plug events) := by
  simp [lastTransfer]

/-! ## Fire permission -/

/-- `can_fire` of a client's copy of the plug. -/
def canFire (p : Performance) (c : Endpoint) (plug : ZstURI) : Bool :=
  ((p.clients c).hierarchy.findEntity plug).any fun e =>
    ((p.clients c).hierarchy.entities e).canFire

/-- The owner of the plug on the stage. -/
def owner (p : Performance) (plug : ZstURI) : ZstURI :=
  ((p.stage.hierarchy.findEntity plug).map fun e =>
    (p.stage.hierarchy.entities e).currentOwner).getD []

/-- The client that is to fire the plug: the current owner, or the plug's
creator if there is none. -/
def Designated (p : Performance) (creator : Endpoint) (plug : ZstURI) (c : Endpoint) : Prop :=
  if owner p plug = [] then c = creator else rootURI p c = owner p plug

/-- Exactly one joined client can fire the plug, and it is the designated one. -/
def FirePermission (p : Performance) (creator : Endpoint) (plug : ZstURI) : Prop :=
  ∃ c ∈ p.joined, Designated p creator plug c ∧
    ∀ d ∈ p.joined, canFire p d plug = true ↔ d = c

instance (p : Performance) (creator : Endpoint) (plug : ZstURI) (c : Endpoint) :
    Decidable (Designated p creator plug c) :=
  inferInstanceAs
    (Decidable (if owner p plug = [] then c = creator else rootURI p c = owner p plug))

instance (p : Performance) (creator : Endpoint) (plug : ZstURI) :
    Decidable (FirePermission p creator plug) :=
  inferInstanceAs (Decidable (∃ c ∈ p.joined, Designated p creator plug c ∧
    ∀ d ∈ p.joined, canFire p d plug = true ↔ d = c))

/-! ## The start of a run -/

/-- The clients have joined, under different names, and nothing is under way. -/
structure ClientsJoined (p : Performance) : Prop where
  root : p.stage.hierarchy.root = none
  sent : p.stage.hierarchy.sent = []
  channels : ∀ c, p.channels c = []
  performer : ∀ c ∈ p.joined, ∃ e, findStageProxy p.stage.hierarchy (rootURI p c) = some e ∧
    (p.stage.hierarchy.entities e).uri = rootURI p c
  named : ∀ c ∈ p.joined, rootURI p c ≠ []
  names : ∀ c ∈ p.joined, ∀ d ∈ p.joined, rootURI p c = rootURI p d → c = d

/-- An output plug that its creator has activated, known to everyone, before
any request for it. -/
structure ActivatedPlug (p : Performance) (creator : Endpoint) (plug : ZstURI) : Prop where
  joined : creator ∈ p.joined
  stage : ∃ e, p.stage.hierarchy.findEntity plug = some e ∧
    (p.stage.hierarchy.entities e).uri = plug ∧
    (p.stage.hierarchy.entities e).currentOwner = []
  client : ∀ c ∈ p.joined, ∃ e, (p.clients c).hierarchy.findEntity plug = some e ∧
    ((p.clients c).hierarchy.entities e).isOutputPlug ∧
    ((p.clients c).hierarchy.entities e).uri = plug ∧
    ((p.clients c).hierarchy.entities e).registered ∧
    ((p.clients c).hierarchy.entities e).sessionAdaptor ∧
    (((p.clients c).hierarchy.entities e).isProxy = true ↔ c ≠ creator) ∧
    ((p.clients c).hierarchy.entities e).canFire = !((p.clients c).hierarchy.entities e).isProxy

/-- Whether a client's copy of the plug asks the hierarchy after its
dispatcher's default adaptor. -/
def asksHierarchyLast (p : Performance) (c : Endpoint) (plug : ZstURI) : Bool :=
  ((p.clients c).hierarchy.findEntity plug).any fun e =>
    ((p.clients c).hierarchy.entities e).hierarchyAdaptorLast

/-! ## What a change of ownership leaves alone -/

/-- An entity without the data that changes of ownership and handshakes touch. -/
def unowned (x : Entity) : Entity :=
  { x with
    currentOwner := []
    canFire := false
    stageProxy := x.stageProxy.map fun proxy => { proxy with connectedSubscriberPeers := [] } }

structure SameButOwnership (h k : ZstHierarchy) : Prop where
  lookup : k.lookup = h.lookup
  root : k.root = h.root
  proxies : k.proxies = h.proxies
  entities : ∀ e, unowned (k.entities e) = unowned (h.entities e)

namespace SameButOwnership

variable {h k l : ZstHierarchy}

theorem refl (h : ZstHierarchy) : SameButOwnership h h :=
  ⟨rfl, rfl, rfl, fun _ => rfl⟩

theorem trans (hhk : SameButOwnership h k) (hkl : SameButOwnership k l) :
    SameButOwnership h l :=
  ⟨hkl.lookup.trans hhk.lookup, hkl.root.trans hhk.root, hkl.proxies.trans hhk.proxies,
    fun e => (hkl.entities e).trans (hhk.entities e)⟩

theorem of_modify (h : ZstHierarchy) (e : EntityId) (f : Entity → Entity)
    (hf : ∀ x, unowned (f x) = unowned x) : SameButOwnership h (h.modify e f) := by
  refine ⟨rfl, rfl, rfl, fun d => ?_⟩
  rw [modify_entities]
  split
  · rename_i hde
    rw [hf, hde]
  · rfl

theorem field {β : Type} (hsame : SameButOwnership h k) (f : Entity → β)
    (hf : ∀ x, f (unowned x) = f x) (e : EntityId) : f (k.entities e) = f (h.entities e) := by
  rw [← hf, hsame.entities e, hf]

theorem uri (hsame : SameButOwnership h k) (e : EntityId) :
    (k.entities e).uri = (h.entities e).uri :=
  hsame.field Entity.uri (fun _ => rfl) e

theorem isOutputPlug (hsame : SameButOwnership h k) (e : EntityId) :
    (k.entities e).isOutputPlug = (h.entities e).isOutputPlug :=
  hsame.field Entity.isOutputPlug (fun _ => rfl) e

theorem endpoint (hsame : SameButOwnership h k) (e : EntityId) :
    (k.entities e).stageProxy.map StageProxy.originEndpointUUID =
      (h.entities e).stageProxy.map StageProxy.originEndpointUUID :=
  hsame.field (fun x => x.stageProxy.map StageProxy.originEndpointUUID)
    (fun x => by cases hproxy : x.stageProxy <;> simp [unowned, hproxy]) e

theorem rootURI (hsame : SameButOwnership h k) :
    ZstClientHierarchy.rootURI k = ZstClientHierarchy.rootURI h := by
  unfold ZstClientHierarchy.rootURI
  rw [hsame.root]
  cases h.root with
  | none => rfl
  | some root => exact hsame.uri root

theorem findEntity (hsame : SameButOwnership h k) (path : ZstURI) :
    k.findEntity path = h.findEntity path := by
  unfold ZstHierarchy.findEntity
  rw [hsame.root, hsame.lookup]
  cases h.root with
  | none => rfl
  | some root => simp only [hsame.uri root]

theorem getPerformers (hsame : SameButOwnership h k) :
    ZstStageHierarchy.getPerformers k = ZstStageHierarchy.getPerformers h := by
  have htype : ∀ e, (k.entities e).entityType = (h.entities e).entityType :=
    hsame.field Entity.entityType fun _ => rfl
  simp only [ZstStageHierarchy.getPerformers, hsame.proxies, htype]

theorem findStageProxy (hsame : SameButOwnership h k) (path : ZstURI) :
    ZstStageHierarchy.findStageProxy k path = ZstStageHierarchy.findStageProxy h path := by
  have hproxy : ∀ e, (k.entities e).stageProxy.isSome = (h.entities e).stageProxy.isSome :=
    hsame.field (fun x => x.stageProxy.isSome) fun x => by simp [unowned]
  simp only [ZstStageHierarchy.findStageProxy, hsame.findEntity, hproxy]

end SameButOwnership

theorem joined_of_same {p q : Performance}
    (hsame : SameButOwnership p.stage.hierarchy q.stage.hierarchy) : q.joined = p.joined := by
  unfold Performance.joined
  rw [hsame.getPerformers]
  exact List.filterMap_congr fun e _ => hsame.endpoint e

/-! ## Delivery to a client -/

/-- What a message does to the permission of client `c`'s copy of a plug. -/
def applyTransfer (start : Performance) (c : Endpoint) (plug : ZstURI) (flag : Bool) :
    Content → Bool
  | .entityTakeOwnershipRequest path owner =>
    if path = plug then asksHierarchyLast start c plug && rootURI start c == owner else flag
  | _ => flag

/-- The messages that runs of ownership requests put into the channels. -/
def Expected (start : Performance) (creator : ZstURI → Endpoint) : Content → Prop
  | .entityTakeOwnershipRequest path _ => ActivatedPlug start (creator path) path
  | .signalMessage _ => True
  | .clientGraphHandshakeListen _ _ => True
  | .clientGraphHandshakeStart _ _ => True
  | .clientGraphHandshakeStop _ => True
  | _ => False

theorem setOwner_same (h : ZstHierarchy) (e : EntityId) (owner : ZstURI) :
    SameButOwnership h (ZstClientSession.setOwner h e owner) := by
  refine .of_modify h e _ fun x => ?_
  split <;> rfl

/-- A broadcast on one plug reaches the client's copy of that plug only. -/
theorem canFire_setOwner {h : ZstHierarchy} {e d : EntityId} (owner : ZstURI)
    (hplug : (h.entities e).isOutputPlug = true) :
    ((ZstClientSession.setOwner h e owner).entities d).canFire =
      if d = e then
        (h.entities e).registered && (h.entities e).hierarchyAdaptorLast &&
          ZstClientHierarchy.rootURI h == owner
      else (h.entities d).canFire := by
  unfold ZstClientSession.setOwner
  rw [modify_entities]
  by_cases hde : d = e
  · rw [if_pos hde, if_pos hde, if_pos hplug]
  · rw [if_neg hde, if_neg hde]

section Delivery

variable {start p : Performance} {creator : ZstURI → Endpoint} {c : Endpoint}

/-- The client's copy of an activated plug, in any later state. -/
theorem copy_of_same {plug : ZstURI} (hplug : ActivatedPlug start (creator plug) plug)
    (hc : c ∈ start.joined)
    (hsame : SameButOwnership (start.clients c).hierarchy (p.clients c).hierarchy) :
    ∃ e, (p.clients c).hierarchy.findEntity plug = some e ∧
      ((p.clients c).hierarchy.entities e).isOutputPlug = true ∧
      ((p.clients c).hierarchy.entities e).uri = plug ∧
      ((p.clients c).hierarchy.entities e).registered = true ∧
      ((p.clients c).hierarchy.entities e).sessionAdaptor = true ∧
      ((p.clients c).hierarchy.entities e).hierarchyAdaptorLast = asksHierarchyLast start c plug := by
  obtain ⟨e, hfind, hkind, huri, hreg, hsession, -⟩ := hplug.client c hc
  refine ⟨e, (hsame.findEntity plug).trans hfind, ?_, ?_, ?_, ?_, ?_⟩
  · rw [hsame.isOutputPlug, hkind]
  · rw [hsame.uri, huri]
  · rw [hsame.field Entity.registered (fun _ => rfl), hreg]
  · rw [hsame.field Entity.sessionAdaptor (fun _ => rfl), hsession]
  · rw [hsame.field Entity.hierarchyAdaptorLast (fun _ => rfl)]
    simp [asksHierarchyLast, hfind]

/-- The client's handling of a broadcast on an activated plug. -/
theorem aquireHandler_eq {path owner : ZstURI} {h : ZstHierarchy} {e : EntityId}
    (hfind : h.findEntity path = some e) (hplug : (h.entities e).isOutputPlug = true) :
    ZstClientSession.aquireEntityOwnershipHandler h path owner =
      ZstClientSession.setOwner h e owner := by
  have hkind : (h.entities e).isComponent = false := by
    simp only [Entity.isOutputPlug, Bool.and_eq_true, beq_iff_eq] at hplug
    simp [Entity.isComponent, hplug.1]
  simp [ZstClientSession.aquireEntityOwnershipHandler, hfind,
    getChildEntities_of_not_component h e hkind]

/-- One delivery: nothing but ownership changes, and the permission of every
activated plug changes as `applyTransfer` says. -/
theorem receive_expected (v : Overrides) (p : Performance) (hc : c ∈ start.joined)
    (hsame : SameButOwnership (start.clients c).hierarchy (p.clients c).hierarchy)
    {content : Content} (hcontent : Expected start creator content) :
    ∃ client, ZstClientSession.receive v (p.clients c) content = .ok client ∧
      SameButOwnership (start.clients c).hierarchy client.hierarchy ∧
      ∀ plug, ActivatedPlug start (creator plug) plug →
        ((client.hierarchy.findEntity plug).any fun e => (client.hierarchy.entities e).canFire) =
          applyTransfer start c plug (canFire p c plug) content := by
  cases content with
  | entityTakeOwnershipRequest path owner =>
    obtain ⟨e, hfind, hkind, huri, hreg, -, hlast⟩ := copy_of_same hcontent hc hsame
    have hset := setOwner_same (p.clients c).hierarchy e owner
    refine ⟨{ p.clients c with
      hierarchy := ZstClientSession.setOwner (p.clients c).hierarchy e owner }, ?_, ?_, ?_⟩
    · simp only [ZstClientSession.receive, ZstClientSession.onReceiveMsg,
        aquireHandler_eq hfind hkind]
      rfl
    · exact hsame.trans hset
    · intro plug hplug
      obtain ⟨d, hfindd, -, hurid, -⟩ := copy_of_same hplug hc hsame
      have hroot : ZstClientHierarchy.rootURI (p.clients c).hierarchy = rootURI start c :=
        hsame.rootURI
      have hde : d = e ↔ path = plug := by
        constructor
        · rintro rfl
          exact huri.symm.trans hurid
        · rintro rfl
          exact Option.some.inj (hfindd.symm.trans hfind)
      have hbefore : canFire p c plug = ((p.clients c).hierarchy.entities d).canFire := by
        simp [canFire, hfindd]
      simp only [hset.findEntity, hfindd, Option.any_some, canFire_setOwner owner hkind, hde,
        hreg, hlast, hroot, Bool.true_and, applyTransfer, hbefore]
      split
      · rename_i hpath
        rw [hpath]
      · rfl
  | signalMessage signal => exact ⟨p.clients c, rfl, hsame, fun plug _ => rfl⟩
  | clientGraphHandshakeListen output address =>
    exact ⟨p.clients c, rfl, hsame, fun plug _ => rfl⟩
  | clientGraphHandshakeStart input address =>
    exact ⟨p.clients c, rfl, hsame, fun plug _ => rfl⟩
  | clientGraphHandshakeStop input =>
    exact ⟨p.clients c, rfl, hsame, fun plug _ => rfl⟩
  | _ => exact hcontent.elim

end Delivery

/-! ## A request at the stage -/

theorem stageSetOwner_same (h : ZstHierarchy) (e : EntityId) (owner : ZstURI) :
    SameButOwnership h (h.modify e fun x => ZstStageSession.setOwner x owner) := by
  refine .of_modify h e _ fun x => ?_
  unfold ZstStageSession.setOwner
  split <;> rfl

@[simp] theorem stageSetOwner_currentOwner (x : Entity) (owner : ZstURI) :
    (ZstStageSession.setOwner x owner).currentOwner = owner := by
  unfold ZstStageSession.setOwner
  split <;> rfl

/-- Sending leaves everything else as it is. -/
theorem same_of_sent (h : ZstHierarchy) (sent : List Outgoing) :
    SameButOwnership h { h with sent } :=
  ⟨rfl, rfl, rfl, fun _ => rfl⟩

/-- What the stage does with an accepted request: the entity has its new owner,
the clients concerned are connected, and everyone is told. -/
theorem aquireEntityOwnershipHandler_ok {s t : ZstSession} {path newOwner : ZstURI}
    {response : Signal} {e : EntityId} (hfind : s.hierarchy.findEntity path = some e)
    (howner : newOwner ≠ [] → ∃ o, findStageProxy s.hierarchy newOwner = some o ∧
      (s.hierarchy.entities o).uri = newOwner)
    (hrun : ZstStageSession.aquireEntityOwnershipHandler s path newOwner = .ok (t, response)) :
    ∃ messages, (∀ m ∈ messages, IsHandshake m) ∧
      t = onHierarchy s fun h =>
        let h := h.modify e fun x => ZstStageSession.setOwner x newOwner
        { h with
          sent := h.sent ++ messages ++ broadcastMessages h
            (.entityTakeOwnershipRequest (h.entities e).uri newOwner) } := by
  unfold ZstStageSession.aquireEntityOwnershipHandler at hrun
  simp only [hfind] at hrun
  by_cases hempty : newOwner = []
  · subst hempty
    simp only [if_pos, bind, Except.bind] at hrun
    split at hrun
    · cases hrun
    · obtain ⟨rfl, -⟩ : _ ∧ _ := by simpa [pure, Except.pure] using hrun
      exact ⟨[], by simp, by simp [onHierarchy, broadcast_eq]⟩
  · obtain ⟨o, ho, huri⟩ := howner hempty
    have hset : (onHierarchy s fun h =>
          h.modify e fun x => ZstStageSession.setOwner x (h.entities o).uri) =
        onHierarchy s fun h => h.modify e fun x => ZstStageSession.setOwner x newOwner := by
      simp only [onHierarchy, huri]
    simp only [if_neg hempty, ho, hset, bind, Except.bind] at hrun
    split at hrun
    · cases hrun
    · rename_i receivers _
      obtain ⟨rfl, -⟩ : _ ∧ _ := by simpa [pure, Except.pure] using hrun
      obtain ⟨messages, hmessages, hsends⟩ := OnlySends.foldl
        (fun s receiver => connectClients_sends s receiver o .none) receivers
        (onHierarchy s fun h => h.modify e fun x => ZstStageSession.setOwner x newOwner)
      refine ⟨messages, hmessages, ?_⟩
      rw [hsends]
      simp only [onHierarchy, broadcast_eq]
      rfl

theorem mem_joined {p : Performance} {c : Endpoint} :
    c ∈ p.joined ↔ ∃ e ∈ getPerformers p.stage.hierarchy, ∃ proxy,
      (p.stage.hierarchy.entities e).stageProxy = some proxy ∧ proxy.originEndpointUUID = c := by
  simp [Performance.joined]

/-- The stage knows the sender of a joined client's message. -/
theorem exists_client {p : Performance} {c : Endpoint} (hc : c ∈ p.joined) :
    ∃ sender, getClientFromEndpointUUID p.stage.hierarchy c = some sender := by
  obtain ⟨e, he, proxy, hproxy, hendpoint⟩ := mem_joined.mp hc
  rw [← Option.isSome_iff_exists, getClientFromEndpointUUID, List.find?_isSome]
  exact ⟨e, he, by simp [hproxy, hendpoint]⟩

/-- The messages that an accepted request leads to. -/
def FollowsTransfer (transfer : Content) (m : Outgoing) : Prop :=
  m.content = transfer ∨ IsHandshake m ∨ ∃ signal, m.content = .signalMessage signal

theorem mem_addressedTo {c : Endpoint} {messages : List Outgoing} {content : Content} :
    content ∈ addressedTo c messages ↔ ∃ m ∈ messages, m.target = c ∧ m.content = content := by
  simp [addressedTo, and_assoc]

/-- A request of a joined client, for an entity and an owner that the stage knows. -/
theorem stageReceive_transfer {p q : Performance} {c : Endpoint} {path newOwner : ZstURI}
    {id : ZstMsgID} {e : EntityId} (hc : c ∈ p.joined)
    (hsent : p.stage.hierarchy.sent = []) (hfind : p.stage.hierarchy.findEntity path = some e)
    (huri : (p.stage.hierarchy.entities e).uri = path)
    (howner : newOwner ≠ [] → ∃ o, findStageProxy p.stage.hierarchy newOwner = some o ∧
      (p.stage.hierarchy.entities o).uri = newOwner)
    (hrun : p.stageReceive
      { content := .entityTakeOwnershipRequest path newOwner, id, originEndpointUUID := c } = .ok q) :
    ∃ messages : List Outgoing,
      (∀ m ∈ messages, FollowsTransfer (.entityTakeOwnershipRequest path newOwner) m) ∧
      (∀ d ∈ p.joined,
        .entityTakeOwnershipRequest path newOwner ∈ addressedTo d messages) ∧
      q =
        { stage := onHierarchy p.stage fun h =>
            { h.modify e (fun x => ZstStageSession.setOwner x newOwner) with sent := [] }
          clients := p.clients
          channels := fun d => p.channels d ++ addressedTo d messages } := by
  obtain ⟨sender, hsender⟩ := exists_client hc
  simp only [Performance.stageReceive, ZstStageSession.receive, ZstStageSession.onReceiveMsg,
    hsender, ZstStageSession.dispatch, bind, Except.bind] at hrun
  cases hhandler : ZstStageSession.aquireEntityOwnershipHandler p.stage path newOwner with
  | error fault => simp [hhandler] at hrun
  | ok result =>
    obtain ⟨t, response⟩ := result
    obtain ⟨messages, hmessages, ht⟩ := aquireEntityOwnershipHandler_ok hfind howner hhandler
    subst ht
    simp only [hhandler, pure, Except.pure, onHierarchy, respond_eq, ZstStageHierarchy.onReceiveMsg,
      ZstStageHierarchy.dispatch, bind, Except.bind, Except.ok.injEq] at hrun
    subst hrun
    have hsame := stageSetOwner_same p.stage.hierarchy e newOwner
    generalize hk : p.stage.hierarchy.modify e
      (fun x => ZstStageSession.setOwner x newOwner) = k at hsame ⊢
    have hpath : (k.entities e).uri = path := (hsame.uri e).trans huri
    refine ⟨messages ++ broadcastMessages k (.entityTakeOwnershipRequest path newOwner) ++
      responseMessages
        { content := .entityTakeOwnershipRequest path newOwner, id, originEndpointUUID := c }
        response, ?_, ?_, ?_⟩
    · intro m hm
      simp only [List.mem_append] at hm
      rcases hm with (hm | hm) | hm
      · exact .inr (.inl (hmessages m hm))
      · exact .inl (broadcastMessages_content hm)
      · refine .inr (.inr ?_)
        unfold responseMessages at hm
        split at hm
        · simp at hm
        · rw [List.mem_singleton.mp hm]
          exact ⟨response, rfl⟩
    · intro d hd
      obtain ⟨f, hf, proxy, hproxy, hendpoint⟩ := mem_joined.mp hd
      rw [← hsame.getPerformers] at hf
      have hendpointk := hsame.endpoint f
      rw [hproxy] at hendpointk
      obtain ⟨proxyk, hproxyk, hsameEndpoint⟩ := Option.map_eq_some_iff.mp hendpointk
      have hmem := mem_broadcastMessages (.entityTakeOwnershipRequest path newOwner) hf hproxyk
      exact mem_addressedTo.mpr ⟨_, List.mem_append_left _ (List.mem_append_right _ hmem),
        hsameEndpoint.trans hendpoint, rfl⟩
    · simp only [Performance.flush, onHierarchy, hk]
      have hksent : k.sent = [] := by rw [← hk, modify_sent, hsent]
      simp [hksent, hpath]

/-! ## Progress of a run -/

/-- The stage's owner of a plug after its last transfer. -/
def expectedOwner (start : Performance) : Option Transfer → ZstURI
  | some (.aquired c) => rootURI start c
  | _ => []

/-- The permission of client `c`'s copy after the plug's last transfer. -/
def expectedPermission (start : Performance) (creator : Endpoint) (plug : ZstURI)
    (c : Endpoint) : Option Transfer → Bool
  | none => c = creator
  | some (.aquired d) => asksHierarchyLast start c plug && rootURI start c == rootURI start d
  | some .released => false

/-- The state of a run, given the last transfer of each plug. -/
structure TransfersSoFar (start : Performance) (creator : ZstURI → Endpoint)
    (last : ZstURI → Option Transfer) (p : Performance) : Prop where
  stage : SameButOwnership start.stage.hierarchy p.stage.hierarchy
  sent : p.stage.hierarchy.sent = []
  clients : ∀ c ∈ start.joined,
    SameButOwnership (start.clients c).hierarchy (p.clients c).hierarchy
  channels : ∀ c, ∀ content ∈ p.channels c, Expected start creator content
  owner : ∀ plug, ActivatedPlug start (creator plug) plug →
    owner p plug = expectedOwner start (last plug)
  permission : ∀ plug, ActivatedPlug start (creator plug) plug → ∀ c ∈ start.joined,
    settled (applyTransfer start c plug) (canFire p c plug) (p.channels c) =
      expectedPermission start (creator plug) plug c (last plug)

section Steps

variable {start p q : Performance} {creator : ZstURI → Endpoint}
  {last : ZstURI → Option Transfer}

theorem progress_start (hstart : ClientsJoined start) :
    TransfersSoFar start creator (fun _ => none) start := by
  refine ⟨.refl _, hstart.sent, fun _ _ => .refl _, ?_, ?_, ?_⟩
  · intro c content hcontent
    simp [hstart.channels c] at hcontent
  · intro plug hplug
    obtain ⟨e, hfind, -, howner⟩ := hplug.stage
    simp [owner, hfind, howner, expectedOwner]
  · intro plug hplug c hc
    obtain ⟨e, hfind, -, -, -, -, hproxy, hfire⟩ := hplug.client c hc
    rw [hstart.channels c, settled_empty]
    simp only [canFire, hfind, Option.any_some, hfire, expectedPermission]
    by_cases hcreator : c = creator plug
    · have hlocal : ((start.clients c).hierarchy.entities e).isProxy = false := by
        simpa [hcreator] using hproxy
      rw [hlocal]
      exact (decide_eq_true hcreator).symm
    · simp [hproxy.mpr hcreator, hcreator]

/-- Messages that are no transfers can be put into the channels at any time. -/
theorem settled_append_ignored {c : Endpoint} {plug : ZstURI} {flag : Bool}
    {channel messages : List Content}
    (hmessages : ∀ m ∈ messages, ∀ path owner, m ≠ .entityTakeOwnershipRequest path owner) :
    settled (applyTransfer start c plug) flag (channel ++ messages) =
      settled (applyTransfer start c plug) flag channel := by
  rw [settled_send]
  refine settled_of_ignored (fun m hm flag => ?_) _
  cases m with
  | entityTakeOwnershipRequest path owner => exact absurd rfl (hmessages _ hm path owner)
  | _ => rfl

theorem expected_of_isHandshake {m : Outgoing} (hm : IsHandshake m) :
    Expected start creator m.content := by
  unfold IsHandshake at hm
  cases hcontent : m.content <;> simp_all [Expected]

theorem handshake_not_transfer {m : Outgoing} (hm : IsHandshake m) (path owner : ZstURI) :
    m.content ≠ .entityTakeOwnershipRequest path owner := by
  intro hcontent
  simp [IsHandshake, hcontent] at hm

/-- A handshake's response adds a subscriber at most. -/
theorem clientsConnected_none {s t : ZstSession} {output input : EntityId}
    {response : Option Content} (hrun : clientsConnected s output input .none response = .ok t) :
    ∃ k messages, SameButOwnership s.hierarchy k ∧ k.next = s.hierarchy.next ∧
      k.sent = s.hierarchy.sent ∧
      (∀ e, (k.entities e).currentOwner = (s.hierarchy.entities e).currentOwner) ∧
      (∀ m ∈ messages, IsHandshake m) ∧
      t = { s with hierarchy := { k with sent := k.sent ++ messages } } := by
  unfold clientsConnected at hrun
  by_cases hok : verifySignal response .ok = true
  · simp only [hok, if_true, bind, Except.bind, onConnected] at hrun
    split at hrun
    · cases hrun
    · rename_i out hout
      split at hrun
      · cases hrun
      · rename_i inp hinp
        obtain rfl := Except.ok.inj hrun
        rw [completeClientConnection_eq]
        refine ⟨subscribe s.hierarchy out inp, _, .of_modify _ _ _ fun x => ?_, rfl, rfl, fun e => ?_,
          fun m hm => ?_, rfl⟩
        · cases hproxy : x.stageProxy <;> simp [unowned, Entity.addSubscriber, hproxy]
        · rw [subscribe, modify_entities]
          split
          · rename_i he
            rw [he]
            rfl
          · rfl
        · simp [IsHandshake, whisperMessages_content hm]
  · simp only [hok] at hrun
    obtain rfl : s = t := by simpa [pure, Except.pure] using hrun
    exact ⟨s.hierarchy, [], .refl _, rfl, rfl, fun _ => rfl, by simp, by simp⟩

/-- A handshake's response changes neither owners nor permissions. -/
theorem progress_handshake (hp : TransfersSoFar start creator last p) {stage : ZstSession}
    {output input : EntityId} {response : Option Content}
    (hrun : clientsConnected p.stage output input .none response = .ok stage) :
    TransfersSoFar start creator last { p with stage }.flush := by
  obtain ⟨k, messages, hsame, -, hsent, howner, hmessages, rfl⟩ := clientsConnected_none hrun
  have hksent : k.sent = [] := hsent.trans hp.sent
  refine ⟨hp.stage.trans (hsame.trans (same_of_sent k _)), rfl, hp.clients, ?_, ?_, ?_⟩
  · intro c content hcontent
    rcases List.mem_append.mp hcontent with hold | hnew
    · exact hp.channels c content hold
    · simp only [hksent, List.nil_append] at hnew
      obtain ⟨m, hm, -, rfl⟩ := mem_addressedTo.mp hnew
      exact expected_of_isHandshake (hmessages m hm)
  · intro plug hplug
    rw [← hp.owner plug hplug]
    simp only [owner, Performance.flush, onHierarchy]
    rw [show ZstHierarchy.findEntity { k with sent := [] } plug = _ from
      (hsame.trans (same_of_sent k [])).findEntity plug]
    simp only [howner]
  · intro plug hplug c hc
    rw [← hp.permission plug hplug c hc]
    refine settled_append_ignored fun content hcontent path newOwner => ?_
    simp only [hksent, List.nil_append] at hcontent
    obtain ⟨m, hm, -, rfl⟩ := mem_addressedTo.mp hcontent
    exact handshake_not_transfer (hmessages m hm) path newOwner

theorem progress_deliver (v : Overrides) (hp : TransfersSoFar start creator last p) {c : Endpoint}
    (hrun : p.deliver v c = .ok q) : TransfersSoFar start creator last q := by
  unfold Performance.deliver at hrun
  cases hchannel : p.channels c with
  | nil =>
    obtain rfl : p = q := by simpa [hchannel] using hrun
    exact hp
  | cons content rest =>
    simp only [hchannel, bind, Except.bind] at hrun
    have hexpected := hp.channels c content (by simp [hchannel])
    cases hreceive : ZstClientSession.receive v (p.clients c) content with
    | error fault => simp [hreceive] at hrun
    | ok client =>
      simp only [hreceive] at hrun
      obtain rfl := Except.ok.inj hrun
      refine ⟨hp.stage, hp.sent, ?_, ?_, hp.owner, ?_⟩
      · intro d hd
        by_cases hdc : d = c
        · subst hdc
          obtain ⟨client', hclient', hsame, -⟩ :=
            receive_expected v p hd (hp.clients d hd) hexpected
          obtain rfl := Except.ok.inj (hreceive.symm.trans hclient')
          simpa using hsame
        · simpa [hdc] using hp.clients d hd
      · intro d m hm
        by_cases hdc : d = c
        · subst hdc
          simp only [Function.update_self] at hm
          exact hp.channels d m (by simp [hchannel, hm])
        · simp only [Function.update_of_ne hdc] at hm
          exact hp.channels d m hm
      · intro plug hplug d hd
        rw [← hp.permission plug hplug d hd]
        by_cases hdc : d = c
        · subst hdc
          obtain ⟨client', hclient', -, hflag⟩ :=
            receive_expected v p hd (hp.clients d hd) hexpected
          obtain rfl := Except.ok.inj (hreceive.symm.trans hclient')
          rw [hchannel, ← settled_deliver, ← hflag plug hplug]
          simp [canFire]
        · simp [canFire, Function.update_of_ne hdc]

/-- After a transfer of the plug, each copy has the permission that fits it. -/
theorem applyTransfer_transfer (hstart : ClientsJoined start) {c : Endpoint} (hc : c ∈ start.joined)
    (plug : ZstURI) (flag : Bool) (transfer : Transfer) :
    applyTransfer start c plug flag
        (.entityTakeOwnershipRequest plug (expectedOwner start (some transfer))) =
      expectedPermission start (creator plug) plug c (some transfer) := by
  cases transfer with
  | aquired d => simp [applyTransfer, expectedOwner, expectedPermission]
  | released => simp [applyTransfer, expectedOwner, expectedPermission, hstart.named c hc]

theorem applyTransfer_of_follows (c : Endpoint) (path : ZstURI) {plug newOwner : ZstURI}
    {m : Outgoing}
    (hm : FollowsTransfer (.entityTakeOwnershipRequest plug newOwner) m) :
    m.content = .entityTakeOwnershipRequest plug newOwner ∨
      ∀ flag, applyTransfer start c path flag m.content = flag := by
  rcases hm with hm | hm | ⟨signal, hm⟩
  · exact .inl hm
  · refine .inr fun flag => ?_
    have hnot := handshake_not_transfer hm
    cases hcontent : m.content with
    | entityTakeOwnershipRequest p o => exact absurd hcontent (hnot p o)
    | _ => rfl
  · exact .inr fun flag => by rw [hm]; rfl

theorem exists_performer (hstart : ClientsJoined start)
    (hsame : SameButOwnership start.stage.hierarchy p.stage.hierarchy) {transfer : Transfer}
    (htransfer : ∀ d, transfer = .aquired d → d ∈ start.joined)
    (hne : expectedOwner start (some transfer) ≠ []) :
    ∃ o, findStageProxy p.stage.hierarchy (expectedOwner start (some transfer)) = some o ∧
      (p.stage.hierarchy.entities o).uri = expectedOwner start (some transfer) := by
  cases transfer with
  | released => exact absurd rfl hne
  | aquired d =>
    obtain ⟨o, hfind, huri⟩ := hstart.performer d (htransfer d rfl)
    exact ⟨o, (hsame.findStageProxy _).trans hfind, (hsame.uri o).trans huri⟩

/-- A request for an activated plug. -/
theorem progress_request (hstart : ClientsJoined start) (hp : TransfersSoFar start creator last p)
    {c : Endpoint} {plug : ZstURI} {id : ZstMsgID} {transfer : Transfer}
    (hc : c ∈ start.joined) (hplug : ActivatedPlug start (creator plug) plug)
    (htransfer : ∀ d, transfer = .aquired d → d ∈ start.joined)
    (hrun : p.stageReceive
      { content := .entityTakeOwnershipRequest plug (expectedOwner start (some transfer))
        id, originEndpointUUID := c } = .ok q) :
    TransfersSoFar start creator (Function.update last plug (some transfer)) q := by
  obtain ⟨e, hfind, huri, -⟩ := hplug.stage
  have hjoined : p.joined = start.joined := joined_of_same hp.stage
  obtain ⟨messages, hmessages, hreaches, rfl⟩ := stageReceive_transfer (hjoined ▸ hc) hp.sent
    ((hp.stage.findEntity plug).trans hfind) ((hp.stage.uri e).trans huri)
    (exists_performer hstart hp.stage htransfer) hrun
  have hset := (stageSetOwner_same p.stage.hierarchy e (expectedOwner start (some transfer))).trans
    (same_of_sent _ [])
  refine ⟨hp.stage.trans hset, rfl, hp.clients, ?_, ?_, ?_⟩
  · intro d content hcontent
    rcases List.mem_append.mp hcontent with hold | hnew
    · exact hp.channels d content hold
    · obtain ⟨m, hm, -, rfl⟩ := mem_addressedTo.mp hnew
      rcases hmessages m hm with hm | hm | ⟨signal, hm⟩
      · rw [hm]
        exact hplug
      · exact expected_of_isHandshake hm
      · rw [hm]
        trivial
  · intro path hpath
    obtain ⟨d, hfindd, hurid, -⟩ := hpath.stage
    have hfindp := (hp.stage.findEntity path).trans hfindd
    have howner := hp.owner path hpath
    simp only [owner, hfindp, Option.map_some, Option.getD_some] at howner
    simp only [owner, onHierarchy]
    rw [show ZstHierarchy.findEntity _ path = some d from (hset.findEntity path).trans hfindp]
    simp only [Option.map_some, Option.getD_some, modify_entities]
    by_cases hpp : path = plug
    · subst hpp
      obtain rfl : d = e := Option.some.inj (hfindd.symm.trans hfind)
      simp
    · have hde : d ≠ e := fun hde => hpp (by rw [← hurid, hde, huri])
      rw [if_neg hde, Function.update_of_ne hpp]
      exact howner
  · intro path hpath d hd
    have hbefore := hp.permission path hpath d hd
    change settled _ (canFire p d path) (p.channels d ++ addressedTo d messages) = _
    rw [settled_send]
    by_cases hpp : path = plug
    · subst hpp
      rw [Function.update_self, ← applyTransfer_transfer hstart hd path _ transfer]
      refine settled_of_one (hreaches d (hjoined ▸ hd)) ?_ ?_ _
      · intro flag
        simp [applyTransfer]
      · intro content hcontent
        obtain ⟨m, hm, -, rfl⟩ := mem_addressedTo.mp hcontent
        exact applyTransfer_of_follows d path (hmessages m hm)
    · rw [Function.update_of_ne hpp, ← hbefore]
      refine settled_of_ignored (fun content hcontent flag => ?_) _
      obtain ⟨m, hm, -, rfl⟩ := mem_addressedTo.mp hcontent
      rcases applyTransfer_of_follows d path (hmessages m hm) with heq | hignored
      · rw [heq]
        simp [applyTransfer, Ne.symm hpp]
      · exact hignored flag

end Steps

/-! ## Whole runs -/

/-- The requests of a run: joined clients ask for activated output plugs. -/
def AllowedRequest (start : Performance) (creator : ZstURI → Endpoint) : OwnershipEvent → Prop
  | .aquire c plug _ => c ∈ start.joined ∧ ActivatedPlug start (creator plug) plug
  | .release c plug _ => c ∈ start.joined ∧ ActivatedPlug start (creator plug) plug
  | _ => True

theorem lastTransfer_request {plug : ZstURI} (transfer : Transfer) {event : OwnershipEvent}
    (hevent : ∀ path, event.transfer path = if plug = path then some transfer else none)
    (history : List OwnershipEvent) :
    (fun path => lastTransfer path (history ++ [event])) =
      Function.update (fun path => lastTransfer path history) plug (some transfer) := by
  funext path
  rw [lastTransfer_concat, hevent, Function.update_apply]
  by_cases hpath : plug = path
  · simp [hpath]
  · simp [hpath, Ne.symm hpath]

theorem lastTransfer_other {event : OwnershipEvent} (hevent : ∀ path, event.transfer path = none)
    (history : List OwnershipEvent) :
    (fun path => lastTransfer path (history ++ [event])) = fun path => lastTransfer path history := by
  funext path
  rw [lastTransfer_concat, hevent, Option.none_or]

/-- A plug can only go to a client that asked for it. -/
theorem mem_of_lastTransfer {plug : ZstURI} {events : List OwnershipEvent} {c : Endpoint}
    (hlast : lastTransfer plug events = some (.aquired c)) :
    ∃ id, OwnershipEvent.aquire c plug id ∈ events := by
  induction events using List.reverseRecOn with
  | nil => simp [lastTransfer] at hlast
  | append_singleton events event ih =>
    rw [lastTransfer_concat, Option.or_eq_some_iff] at hlast
    rcases hlast with hevent | ⟨-, hbefore⟩
    · cases event with
      | aquire d path id =>
        simp only [OwnershipEvent.transfer] at hevent
        split at hevent
        · rename_i hpath
          obtain rfl : d = c := by simpa using hevent
          exact ⟨id, by simp [hpath]⟩
        · cases hevent
      | release d path id =>
        simp only [OwnershipEvent.transfer] at hevent
        split at hevent <;> cases hevent
      | handshake => cases hevent
      | deliver => cases hevent
    · obtain ⟨id, hid⟩ := ih hbefore
      exact ⟨id, by simp [hid]⟩

/-- One step of a run. -/
theorem progress_step (v : Overrides) {start p q : Performance} {creator : ZstURI → Endpoint}
    {history : List OwnershipEvent} {event : OwnershipEvent} (hstart : ClientsJoined start)
    (hallowed : AllowedRequest start creator event)
    (hp : TransfersSoFar start creator (fun path => lastTransfer path history) p)
    (hrun : step v p event = .ok q) :
    TransfersSoFar start creator (fun path => lastTransfer path (history ++ [event])) q := by
  cases event with
  | aquire c plug id =>
    obtain ⟨hc, hplug⟩ := hallowed
    obtain ⟨e, hfind, -, huri, -, hsession, -⟩ := copy_of_same hplug hc (hp.clients c hc)
    have hroot : ZstClientHierarchy.rootURI (p.clients c).hierarchy = rootURI start c :=
      (hp.clients c hc).rootURI
    simp only [step, request, hfind, Option.bind_some, ZstClientSession.aquireEntityOwnership,
      hsession, if_true, huri, hroot] at hrun
    rw [lastTransfer_request (.aquired c) fun path => rfl]
    exact progress_request hstart hp hc hplug (fun d hd => by cases hd; exact hc) hrun
  | release c plug id =>
    obtain ⟨hc, hplug⟩ := hallowed
    obtain ⟨e, hfind, -, huri, hreg, hsession, -⟩ := copy_of_same hplug hc (hp.clients c hc)
    simp only [step, request, hfind, Option.bind_some, ZstClientSession.releaseEntityOwnership,
      hreg, hsession, Bool.and_self, if_true, huri] at hrun
    rw [lastTransfer_request .released fun path => rfl]
    exact progress_request hstart hp hc hplug (fun d hd => by cases hd) hrun
  | handshake output input response =>
    rw [lastTransfer_other fun path => rfl]
    simp only [step, bind, Except.bind] at hrun
    cases hconnected : clientsConnected p.stage output input .none response with
    | error fault => simp [hconnected] at hrun
    | ok stage =>
      simp only [hconnected] at hrun
      obtain rfl := Except.ok.inj hrun
      exact progress_handshake hp hconnected
  | deliver c =>
    rw [lastTransfer_other fun path => rfl]
    exact progress_deliver v hp hrun

/-- A whole run. -/
theorem progress_run (v : Overrides) {start p : Performance} {creator : ZstURI → Endpoint}
    {events : List OwnershipEvent} (hstart : ClientsJoined start)
    (hallowed : ∀ event ∈ events, AllowedRequest start creator event)
    (hrun : run (step v) start events = .ok p) :
    TransfersSoFar start creator (fun path => lastTransfer path events) p := by
  refine run_history (fun history p => (∀ event ∈ history, AllowedRequest start creator event) →
    TransfersSoFar start creator (fun path => lastTransfer path history) p) ?_ ?_ hrun hallowed
  · intro history s event t hs hstep hhistory
    exact progress_step v hstart (hhistory event (by simp))
      (hs fun e he => hhistory e (by simp [he])) hstep
  · exact fun _ => progress_start hstart

/-- Once the broadcasts are processed, the right client and no other can fire
the plug, unless its last transfer was a release, or went to a client whose
copy asks its adaptors in the wrong order. -/
theorem firePermission_iff (v : Overrides) (creator : ZstURI → Endpoint)
    (events : List OwnershipEvent) {start p : Performance} (hstart : ClientsJoined start)
    (hallowed : ∀ event ∈ events, AllowedRequest start creator event)
    (hrun : run (step v) start events = .ok p)
    (hdrained : ∀ c ∈ p.joined, p.channels c = []) {plug : ZstURI}
    (hplug : ActivatedPlug start (creator plug) plug) :
    FirePermission p (creator plug) plug ↔
      ∀ transfer, lastTransfer plug events = some transfer →
        ∃ c, transfer = .aquired c ∧ asksHierarchyLast start c plug = true := by
  have hp := progress_run v hstart hallowed hrun
  have hjoined : p.joined = start.joined := joined_of_same hp.stage
  have howner := hp.owner plug hplug
  have hfire : ∀ c ∈ start.joined,
      canFire p c plug = expectedPermission start (creator plug) plug c (lastTransfer plug events) := by
    intro c hc
    have hsettled := hp.permission plug hplug c hc
    rwa [hdrained c (hjoined ▸ hc), settled_empty] at hsettled
  have hroot : ∀ c ∈ start.joined, rootURI p c = rootURI start c :=
    fun c hc => (hp.clients c hc).rootURI
  unfold FirePermission Designated
  rw [hjoined, howner]
  cases hlast : lastTransfer plug events with
  | none =>
    simp only [hlast, expectedPermission] at hfire
    simp only [expectedOwner, if_true, reduceCtorEq, false_implies, implies_true, iff_true]
    exact ⟨creator plug, hplug.joined, rfl, fun d hd => by simp [hfire d hd]⟩
  | some transfer =>
    cases transfer with
    | aquired c =>
      obtain ⟨id, hevent⟩ := mem_of_lastTransfer hlast
      have hc : c ∈ start.joined := (hallowed _ hevent).1
      simp only [hlast, expectedPermission] at hfire
      simp only [expectedOwner, hstart.named c hc, if_false]
      constructor
      · rintro ⟨d, hd, hdesignated, hexactly⟩ transfer hsome
        obtain rfl := Option.some.inj hsome
        obtain rfl := hstart.names d hd c hc ((hroot d hd).symm.trans hdesignated)
        have hcan := (hexactly d hd).mpr rfl
        rw [hfire d hd] at hcan
        simp only [Bool.and_eq_true] at hcan
        exact ⟨d, rfl, hcan.1⟩
      · intro hgranted
        obtain ⟨d, hd, hasks⟩ := hgranted _ rfl
        cases hd
        refine ⟨c, hc, hroot c hc, fun d hd => ?_⟩
        rw [hfire d hd]
        simp only [Bool.and_eq_true, beq_iff_eq]
        constructor
        · exact fun hsame => hstart.names d hd c hc hsame.2
        · rintro rfl
          exact ⟨hasks, rfl⟩
    | released =>
      simp only [hlast, expectedPermission] at hfire
      constructor
      · rintro ⟨c, hc, -, hexactly⟩
        have hcan := (hexactly c hc).mpr rfl
        simp [hfire c hc] at hcan
      · intro hgranted
        obtain ⟨c, hc, -⟩ := hgranted _ rfl
        cases hc

/-! ## Two clients -/

/-- Client 1 has an output plug, which client 2 knows as a proxy. -/
def duet : Performance where
  stage :=
    { hierarchy := .ofList
        [{ entityType := .performer, uri := ["ada"], registered := true, isProxy := true,
           syncStatus := .activated, children := [["ada", "out"]],
           stageProxy := some { originEndpointUUID := 1 } },
         { entityType := .performer, uri := ["bob"], registered := true, isProxy := true,
           syncStatus := .activated, stageProxy := some { originEndpointUUID := 2 } },
         { entityType := .plug, uri := ["ada", "out"], parentAddress := ["ada"],
           direction := .outJack, registered := true, isProxy := true, syncStatus := .activated }]
      cableObjects := fun _ => ⟨⟨[], []⟩, 0, 0, .deactivated, []⟩ }
  clients c :=
    { hierarchy := .ofList
        [{ entityType := .performer, uri := if c = 1 then ["ada"] else ["bob"],
           registered := true, syncStatus := .activated,
           children := if c = 1 then [["ada", "out"]] else [] },
         { entityType := .plug, uri := ["ada", "out"], parentAddress := ["ada"],
           direction := .outJack, registered := true, sessionAdaptor := true,
           isProxy := c ≠ 1, syncStatus := .activated, canFire := c = 1 }] (some 0)
      cableObjects := fun _ => ⟨⟨[], []⟩, 0, 0, .deactivated, []⟩ }
  channels _ := []

theorem duet_joined : duet.joined = [1, 2] := by decide

theorem duet_settled : ClientsJoined duet := by
  refine ⟨rfl, rfl, fun _ => rfl, ?_, ?_, ?_⟩
  · rw [duet_joined]
    intro c hc
    obtain rfl | rfl : c = 1 ∨ c = 2 := by simpa using hc
    · exact ⟨0, by decide, by decide⟩
    · exact ⟨1, by decide, by decide⟩
  · rw [duet_joined]
    decide
  · rw [duet_joined]
    decide

theorem duet_activatedPlug : ActivatedPlug duet 1 ["ada", "out"] := by
  refine ⟨by decide, ⟨2, by decide, by decide, by decide⟩, ?_⟩
  rw [duet_joined]
  intro c hc
  obtain rfl | rfl : c = 1 ∨ c = 2 := by simpa using hc
  · exact ⟨1, by decide, by decide, by decide, by decide, by decide, by decide, by decide⟩
  · exact ⟨1, by decide, by decide, by decide, by decide, by decide, by decide, by decide⟩

/-- Client 2 takes the plug and gives it back. -/
def duetRelease : List OwnershipEvent :=
  [.aquire 2 ["ada", "out"] 7, .release 2 ["ada", "out"] 8,
   .deliver 1, .deliver 1, .deliver 2, .deliver 2, .deliver 2, .deliver 2]

/-- Client 2 takes the plug and keeps it. -/
def duetAquire : List OwnershipEvent :=
  [.aquire 2 ["ada", "out"] 7, .deliver 1, .deliver 2, .deliver 2]

theorem duetAquire_allowed : ∀ event ∈ duetAquire, AllowedRequest duet (fun _ => 1) event := by
  intro event hevent
  simp only [duetAquire, List.mem_cons, List.not_mem_nil, or_false] at hevent
  rcases hevent with rfl | rfl | rfl | rfl
  · exact ⟨by decide, duet_activatedPlug⟩
  · trivial
  · trivial
  · trivial

/-- The rule at work: client 2, and nobody else, can fire the plug it has taken. -/
theorem firePermission_iff_duetAquire :
    ∃ p, run (step unanswered) duet duetAquire = .ok p ∧ FirePermission p 1 ["ada", "out"] := by
  refine ⟨_, rfl, (firePermission_iff unanswered (fun _ => 1) duetAquire duet_settled
    duetAquire_allowed rfl (by decide) duet_activatedPlug).mpr ?_⟩
  intro transfer hlast
  obtain rfl : .aquired 2 = transfer := Option.some.inj hlast
  exact ⟨2, rfl, by decide⟩

/-- After the release nobody can fire the plug, its creator included. -/
theorem firePermission_lost_on_release :
    ClientsJoined duet ∧ ActivatedPlug duet 1 ["ada", "out"] ∧
      ∃ p, run (step unanswered) duet duetRelease = .ok p ∧
        (∀ c ∈ p.joined, p.channels c = []) ∧ ¬ FirePermission p 1 ["ada", "out"] := by
  refine ⟨duet_settled, duet_activatedPlug, _, rfl, ?_, ?_⟩
  · decide
  · decide

end Showtime.Ownership
