import Showtime.Attribution
import Showtime.Ownership
import Showtime.Serialization
import Showtime.Snapshot
/-!
# Agreement on owners

The stage gives an owner to the requested entity alone, a client to everything
below its copy as well, and a client that joins later learns the owner from the
serialised entity. This module tells when all of them record the same owners.
-/

namespace Showtime.OwnerAgreement

open ZstHierarchy ZstStageHierarchy ZstStageSession Performance Library Ownership
open Snapshot (snapshot snapshot_eq)
open ZstClientHierarchy (unanswered)

/-! ## Owners -/

/-- `get_owner` of the entity at a path. -/
def ownerAt (h : ZstHierarchy) (path : ZstURI) : Option ZstURI :=
  (h.findEntity path).map fun e => (h.entities e).currentOwner

/-- The entity at the second path is the one at the first path or below it. -/
def covers (h : ZstHierarchy) (path q : ZstURI) : Bool :=
  (h.findEntity path).any fun e => (h.findEntity q).any fun d => d ∈ h.getChildEntities e

/-- What a message does to the owners at a client, whose tree is fixed. -/
def applyOwner (h : ZstHierarchy) (owners : ZstURI → Option ZstURI) :
    Content → ZstURI → Option ZstURI
  | .entityTakeOwnershipRequest path owner =>
    fun q => if covers h path q then some owner else owners q
  | _ => owners

/-- The owner comes out of the serialised entity as it went in. -/
def SurvivesSerialisation (owner : ZstURI) : Prop :=
  ({ entityType := .none, uri := [], currentOwner := owner } : Entity).serializedOwner = owner

instance (owner : ZstURI) : Decidable (SurvivesSerialisation owner) :=
  inferInstanceAs (Decidable (_ = _))

/-- Every joined client records the owners that the stage records. -/
def OwnersAgree (p : Performance) : Prop :=
  ∀ c ∈ p.joined, ∀ path, ownerAt (p.clients c).hierarchy path = ownerAt p.stage.hierarchy path

/-- A client that joins now and asks for the graph builds its proxies with the
owners that the stage records. -/
def LateAgree (s : ZstSession) : Prop :=
  ∀ msg performer address t sender, msg.content = .clientJoinRequest performer address →
    performer.owner = [] → ZstStage.step s (.receive msg) = .ok t →
    (t.hierarchy.entities sender).stageProxy.isSome →
    ∀ buffer, .entityCreateRequest buffer ∈ snapshot t sender →
      ∃ e, buffer = (t.hierarchy.entities e).serialize ∧
        (Entity.unpack buffer).currentOwner = (t.hierarchy.entities e).currentOwner

/-! ## Requests -/

/-- What a client asks the stage for. -/
def asked (p : Performance) : OwnershipEvent → Option Content
  | .aquire c plug _ =>
    ((p.clients c).hierarchy.findEntity plug).bind
      (ZstClientSession.aquireEntityOwnership (p.clients c).hierarchy)
  | .release c plug _ =>
    ((p.clients c).hierarchy.findEntity plug).bind
      (ZstClientSession.releaseEntityOwnership (p.clients c).hierarchy)
  | _ => none

/-- The stage knows the entity and the owner. -/
def KnowsOwner (h : ZstHierarchy) (path owner : ZstURI) : Prop :=
  (h.findEntity path).isSome ∧ (owner = [] ∨ (findStageProxy h owner).isSome)

instance (h : ZstHierarchy) (path owner : ZstURI) : Decidable (KnowsOwner h path owner) :=
  inferInstanceAs (Decidable (_ ∧ _))

/-- Everything below the entity at the path has the owner already, and the
owner survives its serialisation. -/
def UniformlyOwned (h : ZstHierarchy) (path owner : ZstURI) : Prop :=
  (∀ e ∈ h.findEntity path, ∀ d ∈ h.getChildEntities e,
    d = e ∨ (h.entities d).currentOwner = owner) ∧ SurvivesSerialisation owner

instance (h : ZstHierarchy) (path owner : ZstURI) : Decidable (UniformlyOwned h path owner) :=
  inferInstanceAs (Decidable (_ ∧ _))

/-- The stage does not accept what is asked, or it leaves no descendant with
another owner. -/
def CleanRequest (h : ZstHierarchy) : Option Content → Prop
  | some (.entityTakeOwnershipRequest path owner) =>
    KnowsOwner h path owner → UniformlyOwned h path owner
  | _ => True

instance (h : ZstHierarchy) : ∀ request, Decidable (CleanRequest h request)
  | some (.entityTakeOwnershipRequest path owner) =>
    inferInstanceAs (Decidable (KnowsOwner h path owner → UniformlyOwned h path owner))
  | none | some (.signalMessage _) | some (.clientJoinRequest _ _) | some (.clientLeaveRequest _ _)
  | some (.clientGraphHandshakeListen _ _) | some (.clientGraphHandshakeStart _ _)
  | some (.clientGraphHandshakeStop _) | some (.entityCreateRequest _)
  | some (.entityUpdateRequest _ _) | some (.entityDestroyRequest _)
  | some (.entityObserveRequest _) | some (.factoryCreateEntityRequest _ _)
  | some (.factoryCreateEntityAck _) | some (.cableCreateRequest _) | some (.cableDestroyRequest _)
  | some .serverStatusMessage => inferInstanceAs (Decidable True)

/-- A request that the stage accepts leaves no descendant with another owner. -/
def OwnsWholeSubtree (p : Performance) (event : OwnershipEvent) : Prop :=
  CleanRequest p.stage.hierarchy (asked p event)

instance (p : Performance) (event : OwnershipEvent) : Decidable (OwnsWholeSubtree p event) :=
  inferInstanceAs (Decidable (CleanRequest _ _))

/-! ## The start of a run -/

/-- Nothing is under way, and the clients that have joined know the stage's
entities, in the same trees and with the same owners. -/
structure StageReplicated (p : Performance) : Prop where
  keyed : ∀ path e, p.stage.hierarchy.findEntity path = some e →
    (p.stage.hierarchy.entities e).uri = path
  sent : p.stage.hierarchy.sent = []
  channels : ∀ c, p.channels c = []
  owners : ∀ c ∈ p.joined, ∀ path,
    ownerAt (p.clients c).hierarchy path = ownerAt p.stage.hierarchy path
  trees : ∀ c ∈ p.joined, ∀ path q,
    covers (p.clients c).hierarchy path q = covers p.stage.hierarchy path q
  survives : ∀ e, SurvivesSerialisation (p.stage.hierarchy.entities e).currentOwner

/-! ## What stays -/

section Same

variable {h k : ZstHierarchy}

theorem sameShape (hk : SameButOwnership h k) (hnext : k.next = h.next) : SameShape h k :=
  ⟨hnext, hk.findEntity, hk.field Entity.registered fun _ => rfl,
    hk.field Entity.isComponent fun _ => rfl, hk.field Entity.children fun _ => rfl⟩

theorem covers_of_shape (hk : SameShape h k) (path q : ZstURI) :
    covers k path q = covers h path q := by
  simp only [covers, hk.findEntity, hk.getChildEntities_eq]

theorem covers_of_same (hk : SameButOwnership h k) (hnext : k.next = h.next) (path q : ZstURI) :
    covers k path q = covers h path q :=
  covers_of_shape (sameShape hk hnext) path q

end Same

/-! ## Delivery to a client -/

/-- The messages that runs of ownership requests put into the channels. -/
def IsOwnerNotice : Content → Prop
  | .entityTakeOwnershipRequest _ _ | .signalMessage _ | .clientGraphHandshakeListen _ _
  | .clientGraphHandshakeStart _ _ | .clientGraphHandshakeStop _ => True
  | _ => False

/-- The client gives the owner to every entity of the list. -/
theorem foldl_setOwner (owner : ZstURI) (items : List EntityId) (h : ZstHierarchy) :
    SameButOwnership h (items.foldl (fun h c => ZstClientSession.setOwner h c owner) h) ∧
      (items.foldl (fun h c => ZstClientSession.setOwner h c owner) h).next = h.next ∧
      ∀ d, ((items.foldl (fun h c => ZstClientSession.setOwner h c owner) h).entities d).currentOwner =
        if d ∈ items then owner else (h.entities d).currentOwner := by
  induction items generalizing h with
  | nil => exact ⟨.refl h, rfl, fun d => by simp⟩
  | cons c items ih =>
    obtain ⟨hsame, hnext, howner⟩ := ih (ZstClientSession.setOwner h c owner)
    refine ⟨(setOwner_same h c owner).trans hsame, hnext, fun d => ?_⟩
    rw [List.foldl_cons, howner]
    have hfirst : ((ZstClientSession.setOwner h c owner).entities d).currentOwner =
        if d = c then owner else (h.entities d).currentOwner := by
      unfold ZstClientSession.setOwner
      rw [modify_entities]
      split
      · split <;> rfl
      · rfl
    rw [hfirst]
    by_cases hitems : d ∈ items
    · simp [hitems]
    · simp [hitems, List.mem_cons]

theorem aquireHandler_owners (h : ZstHierarchy) (path owner : ZstURI) :
    SameButOwnership h (ZstClientSession.aquireEntityOwnershipHandler h path owner) ∧
      (ZstClientSession.aquireEntityOwnershipHandler h path owner).next = h.next ∧
      ownerAt (ZstClientSession.aquireEntityOwnershipHandler h path owner) =
        applyOwner h (ownerAt h) (.entityTakeOwnershipRequest path owner) := by
  unfold ZstClientSession.aquireEntityOwnershipHandler
  cases hfind : h.findEntity path with
  | none =>
    refine ⟨.refl h, rfl, ?_⟩
    funext q
    simp [applyOwner, covers, hfind]
  | some e =>
    obtain ⟨hsame, hnext, howner⟩ := foldl_setOwner owner (h.getChildEntities e) h
    refine ⟨hsame, hnext, ?_⟩
    funext q
    simp only [ownerAt, hsame.findEntity, applyOwner, covers, hfind, Option.any_some]
    cases h.findEntity q with
    | none => simp
    | some d =>
      simp only [Option.map_some, Option.any_some, decide_eq_true_eq, howner]
      split <;> rfl

/-- One delivery: nothing but ownership changes, and the owners change as
`applyOwner` says. -/
theorem receive_told (v : Overrides) (client : ZstSession) {content : Content}
    (htold : IsOwnerNotice content) :
    ∃ client', ZstClientSession.receive v client content = .ok client' ∧
      SameButOwnership client.hierarchy client'.hierarchy ∧
      client'.hierarchy.next = client.hierarchy.next ∧
      ownerAt client'.hierarchy =
        applyOwner client.hierarchy (ownerAt client.hierarchy) content := by
  cases content with
  | entityTakeOwnershipRequest path owner =>
    exact ⟨_, rfl, aquireHandler_owners client.hierarchy path owner⟩
  | signalMessage | clientGraphHandshakeListen | clientGraphHandshakeStart
  | clientGraphHandshakeStop => exact ⟨client, rfl, .refl _, rfl, rfl⟩
  | _ => exact htold.elim

/-! ## A request at the stage -/

theorem joined_of_getClient {p : Performance} {c : Endpoint} {sender : EntityId}
    (hclient : getClientFromEndpointUUID p.stage.hierarchy c = some sender) : c ∈ p.joined := by
  obtain ⟨hany, -⟩ := List.find?_eq_some_iff_append.mp hclient
  obtain ⟨proxy, hproxy, hendpoint⟩ := (Option.any_eq_true _ _).mp hany
  exact mem_joined.mpr
    ⟨sender, List.mem_of_find?_eq_some hclient, proxy, hproxy, of_decide_eq_true hendpoint⟩

/-- A request that is refused is answered with a signal, if at all. -/
theorem stageReceive_refused {p q : Performance} {c : Endpoint} {path newOwner : ZstURI}
    {id : ZstMsgID} (hsent : p.stage.hierarchy.sent = [])
    (hrefused : ¬ (c ∈ p.joined ∧ KnowsOwner p.stage.hierarchy path newOwner))
    (hrun : p.stageReceive
      { content := .entityTakeOwnershipRequest path newOwner, id, originEndpointUUID := c } = .ok q) :
    ∃ messages : List Outgoing, (∀ m ∈ messages, ∃ signal, m.content = .signalMessage signal) ∧
      q =
        { stage := onHierarchy p.stage fun h => { h with sent := [] }
          clients := p.clients
          channels := fun d => p.channels d ++ addressedTo d messages } := by
  have hanswer : ∀ (response : Signal), q = { p with
      stage := onHierarchy p.stage fun h => respond h
        { content := .entityTakeOwnershipRequest path newOwner, id, originEndpointUUID := c }
        response }.flush →
      ∃ messages : List Outgoing, (∀ m ∈ messages, ∃ signal, m.content = .signalMessage signal) ∧
        q =
          { stage := onHierarchy p.stage fun h => { h with sent := [] }
            clients := p.clients
            channels := fun d => p.channels d ++ addressedTo d messages } := by
    rintro response rfl
    refine ⟨responseMessages
      { content := .entityTakeOwnershipRequest path newOwner, id, originEndpointUUID := c } response,
      fun m hm => ?_, ?_⟩
    · unfold responseMessages at hm
      split at hm
      · cases hm
      · rw [List.mem_singleton.mp hm]
        exact ⟨response, rfl⟩
    · simp only [Performance.flush, onHierarchy, respond_eq, hsent, List.nil_append]
  simp only [Performance.stageReceive, ZstStageSession.receive, ZstStageSession.onReceiveMsg] at hrun
  cases hclient : getClientFromEndpointUUID p.stage.hierarchy c with
  | none =>
    simp only [hclient] at hrun
    exact hanswer .empty (Except.ok.inj hrun).symm
  | some sender =>
    have hunknown : ¬ KnowsOwner p.stage.hierarchy path newOwner := fun haccepts =>
      hrefused ⟨joined_of_getClient hclient, haccepts⟩
    simp only [hclient, ZstStageSession.dispatch,
      ZstStageSession.aquireEntityOwnershipHandler] at hrun
    cases hfind : p.stage.hierarchy.findEntity path with
    | none =>
      simp only [hfind] at hrun
      exact hanswer .errEntityNotFound (Except.ok.inj hrun).symm
    | some e =>
      have howner : newOwner ≠ [] ∧ findStageProxy p.stage.hierarchy newOwner = none := by
        refine ⟨fun hempty => hunknown ⟨by simp [hfind], Or.inl hempty⟩, ?_⟩
        rw [← Option.not_isSome_iff_eq_none]
        exact fun hsome => hunknown ⟨by simp [hfind], Or.inr hsome⟩
      simp only [hfind, if_neg howner.1, howner.2] at hrun
      exact hanswer .errStagePerformerNotFound (Except.ok.inj hrun).symm

/-! ## Progress of a run -/

/-- The state of a run: once a client has processed its channel, it has the
owners that the stage has now. -/
structure OwnersFollow (start p : Performance) : Prop where
  stage : SameButOwnership start.stage.hierarchy p.stage.hierarchy
  next : p.stage.hierarchy.next = start.stage.hierarchy.next
  sent : p.stage.hierarchy.sent = []
  clients : ∀ c ∈ start.joined,
    SameButOwnership (start.clients c).hierarchy (p.clients c).hierarchy ∧
      (p.clients c).hierarchy.next = (start.clients c).hierarchy.next
  channels : ∀ c, ∀ content ∈ p.channels c, IsOwnerNotice content
  agree : ∀ c ∈ start.joined,
    settled (applyOwner (start.clients c).hierarchy) (ownerAt (p.clients c).hierarchy)
      (p.channels c) = ownerAt p.stage.hierarchy
  survives : ∀ e, SurvivesSerialisation (p.stage.hierarchy.entities e).currentOwner

section Steps

variable {start p q : Performance}

theorem tracks_start (hstart : StageReplicated start) : OwnersFollow start start := by
  refine ⟨.refl _, rfl, hstart.sent, fun _ _ => ⟨.refl _, rfl⟩, fun c content hcontent => ?_,
    fun c hc => ?_, hstart.survives⟩
  · simp [hstart.channels c] at hcontent
  · rw [hstart.channels c, settled_empty]
    exact funext (hstart.owners c hc)

theorem applyOwner_of_same {h k : ZstHierarchy} (hk : SameButOwnership h k)
    (hnext : k.next = h.next) : applyOwner k = applyOwner h := by
  funext owners content
  cases content with
  | entityTakeOwnershipRequest path owner =>
    simp only [applyOwner, covers_of_same hk hnext]
  | _ => rfl

theorem tracks_deliver (v : Overrides) (hp : OwnersFollow start p) {c : Endpoint}
    (hrun : p.deliver v c = .ok q) : OwnersFollow start q := by
  unfold Performance.deliver at hrun
  cases hchannel : p.channels c with
  | nil =>
    obtain rfl : p = q := by simpa [hchannel] using hrun
    exact hp
  | cons content rest =>
    simp only [hchannel] at hrun
    obtain ⟨client, hreceive, hrun⟩ := Library.bind_ok.mp hrun
    obtain rfl := Except.ok.inj hrun
    obtain ⟨client', hclient', hsame, hnext, howners⟩ :=
      receive_told v (p.clients c) (hp.channels c content (by simp [hchannel]))
    obtain rfl := Except.ok.inj (hreceive.symm.trans hclient')
    refine ⟨hp.stage, hp.next, hp.sent, fun d hd => ?_, fun d m hm => ?_, fun d hd => ?_,
      hp.survives⟩
    · by_cases hdc : d = c
      · subst hdc
        obtain ⟨hbefore, hnextBefore⟩ := hp.clients d hd
        simp only [Function.update_self]
        exact ⟨hbefore.trans hsame, hnext.trans hnextBefore⟩
      · simp only [Function.update_of_ne hdc]
        exact hp.clients d hd
    · by_cases hdc : d = c
      · subst hdc
        simp only [Function.update_self] at hm
        exact hp.channels d m (by simp [hchannel, hm])
      · simp only [Function.update_of_ne hdc] at hm
        exact hp.channels d m hm
    · rw [← hp.agree d hd]
      by_cases hdc : d = c
      · subst hdc
        obtain ⟨hbefore, hnextBefore⟩ := hp.clients d hd
        simp only [Function.update_self]
        rw [hchannel, ← settled_deliver, howners, applyOwner_of_same hbefore hnextBefore]
      · simp only [Function.update_of_ne hdc]

/-- Whatever else the stage sends tells nobody of an owner. -/
theorem tracks_sends (hp : OwnersFollow start p) {k : ZstHierarchy} {messages : List Outgoing}
    (hsame : SameButOwnership p.stage.hierarchy k) (hnext : k.next = p.stage.hierarchy.next)
    (hsent : k.sent = []) (howner : ∀ e, (k.entities e).currentOwner =
      (p.stage.hierarchy.entities e).currentOwner)
    (hmessages : ∀ m ∈ messages, IsHandshake m ∨ ∃ signal, m.content = .signalMessage signal) :
    OwnersFollow start
      { stage := { p.stage with hierarchy := k }
        clients := p.clients
        channels := fun c => p.channels c ++ addressedTo c messages } := by
  have hquiet : ∀ c, ∀ content ∈ addressedTo c messages,
      IsOwnerNotice content ∧ ∀ h owners, applyOwner h owners content = owners := by
    intro c content hcontent
    obtain ⟨m, hm, -, rfl⟩ := mem_addressedTo.mp hcontent
    rcases hmessages m hm with hm | ⟨signal, hm⟩
    · unfold IsHandshake at hm
      cases hcontent : m.content <;> simp_all [IsOwnerNotice, applyOwner]
    · rw [hm]
      exact ⟨trivial, fun _ _ => rfl⟩
  refine ⟨hp.stage.trans hsame, hnext.trans hp.next, hsent, hp.clients, fun c content hcontent => ?_,
    fun c hc => ?_, fun e => ?_⟩
  · rcases List.mem_append.mp hcontent with hold | hnew
    · exact hp.channels c content hold
    · exact (hquiet c content hnew).1
  · rw [settled_send, hp.agree c hc,
      settled_of_ignored fun m hm owners => (hquiet c m hm).2 _ owners]
    funext path
    simp only [ownerAt, hsame.findEntity, howner]
  · rw [howner]
    exact hp.survives e

theorem tracks_handshake (hp : OwnersFollow start p) {stage : ZstSession} {output input : EntityId}
    {response : Option Content}
    (hrun : clientsConnected p.stage output input .none response = .ok stage) :
    OwnersFollow start { p with stage }.flush := by
  obtain ⟨k, messages, hsame, hnext, hsent, howner, hmessages, rfl⟩ := clientsConnected_none hrun
  have hksent : k.sent = [] := hsent.trans hp.sent
  have htracks := tracks_sends (k := { k with sent := [] }) hp (hsame.trans (same_of_sent k []))
    hnext rfl howner fun m hm => Or.inl (hmessages m hm)
  simpa only [Performance.flush, onHierarchy, hksent, List.nil_append] using htracks

/-- A message of the stage that names an owner is applied at once or repeated. -/
theorem applyOwner_idem (h : ZstHierarchy) (owners : ZstURI → Option ZstURI) (path owner : ZstURI) :
    applyOwner h (applyOwner h owners (.entityTakeOwnershipRequest path owner))
        (.entityTakeOwnershipRequest path owner) =
      applyOwner h owners (.entityTakeOwnershipRequest path owner) := by
  funext q
  simp only [applyOwner]
  split <;> rfl

theorem follows_owner {path owner : ZstURI} {m : Outgoing}
    (hm : FollowsTransfer (.entityTakeOwnershipRequest path owner) m) :
    IsOwnerNotice m.content ∧ (m.content = .entityTakeOwnershipRequest path owner ∨
      ∀ h owners, applyOwner h owners m.content = owners) := by
  rcases hm with hm | hm | ⟨signal, hm⟩
  · rw [hm]
    exact ⟨trivial, Or.inl rfl⟩
  · unfold IsHandshake at hm
    cases hcontent : m.content <;> simp_all [IsOwnerNotice, applyOwner]
  · rw [hm]
    exact ⟨trivial, Or.inr fun _ _ => rfl⟩

/-- Where the descendants have the new owner already, the stage's transfer of
the entity is the client's transfer of the subtree. -/
theorem ownerAt_transfer {h : ZstHierarchy} {path owner : ZstURI} {e : EntityId}
    (hfind : h.findEntity path = some e) (huniform : UniformlyOwned h path owner) :
    ownerAt { h.modify e (fun x => ZstStageSession.setOwner x owner) with sent := [] } =
      applyOwner h (ownerAt h) (.entityTakeOwnershipRequest path owner) := by
  have hsame : SameButOwnership h
      { h.modify e (fun x => ZstStageSession.setOwner x owner) with sent := [] } :=
    (stageSetOwner_same h e owner).trans (same_of_sent _ [])
  funext q
  simp only [ownerAt, hsame.findEntity, applyOwner, covers, hfind, Option.any_some, modify_entities]
  cases h.findEntity q with
  | none => simp
  | some d =>
    simp only [Option.map_some, Option.any_some, decide_eq_true_eq]
    by_cases hde : d = e
    · rw [if_pos hde, if_pos (hde ▸ self_mem_getChildEntities h e), stageSetOwner_currentOwner]
    · rw [if_neg hde]
      split
      · rename_i hbelow
        rw [(huniform.1 e hfind d hbelow).resolve_left hde]
      · rfl

theorem tracks_accepted (hstart : StageReplicated start) (hp : OwnersFollow start p) {c : Endpoint}
    {path owner : ZstURI} {id : ZstMsgID} (hc : c ∈ p.joined)
    (haccepts : KnowsOwner p.stage.hierarchy path owner)
    (huniform : UniformlyOwned p.stage.hierarchy path owner)
    (hrun : p.stageReceive
      { content := .entityTakeOwnershipRequest path owner, id, originEndpointUUID := c } = .ok q) :
    OwnersFollow start q := by
  have hkeyed : ∀ {r d}, p.stage.hierarchy.findEntity r = some d →
      (p.stage.hierarchy.entities d).uri = r := by
    intro r d hd
    rw [hp.stage.uri]
    exact hstart.keyed r d ((hp.stage.findEntity r).symm.trans hd)
  obtain ⟨e, hfind⟩ := Option.isSome_iff_exists.mp haccepts.1
  have howner : owner ≠ [] → ∃ o, findStageProxy p.stage.hierarchy owner = some o ∧
      (p.stage.hierarchy.entities o).uri = owner := by
    intro hne
    obtain ⟨o, ho⟩ := Option.isSome_iff_exists.mp (haccepts.2.resolve_left hne)
    exact ⟨o, ho, hkeyed (Option.filter_eq_some_iff.mp ho).1⟩
  obtain ⟨messages, hmessages, hreaches, rfl⟩ :=
    stageReceive_transfer hc hp.sent hfind (hkeyed hfind) howner hrun
  have hset := (stageSetOwner_same p.stage.hierarchy e owner).trans (same_of_sent _ [])
  refine ⟨hp.stage.trans hset, hp.next, rfl, hp.clients, fun d content hcontent => ?_,
    fun d hd => ?_, fun d => ?_⟩
  · rcases List.mem_append.mp hcontent with hold | hnew
    · exact hp.channels d content hold
    · obtain ⟨m, hm, -, rfl⟩ := mem_addressedTo.mp hnew
      exact (follows_owner (hmessages m hm)).1
  · have htrees : applyOwner (start.clients d).hierarchy = applyOwner p.stage.hierarchy := by
      funext owners content
      cases content with
      | entityTakeOwnershipRequest r o =>
        simp only [applyOwner, hstart.trees d hd, covers_of_same hp.stage hp.next]
      | _ => rfl
    have hjoined : d ∈ p.joined := (joined_of_same hp.stage).symm ▸ hd
    rw [settled_send, hp.agree d hd,
      settled_of_one (hreaches d hjoined) (fun owners => applyOwner_idem _ owners path owner)
        (fun content hcontent => ?_), htrees]
    · exact (ownerAt_transfer hfind huniform).symm
    · obtain ⟨m, hm, -, rfl⟩ := mem_addressedTo.mp hcontent
      exact (follows_owner (hmessages m hm)).2.imp_right fun hignored => hignored _
  · simp only [onHierarchy, modify_entities]
    split
    · rw [stageSetOwner_currentOwner]
      exact huniform.2
    · exact hp.survives d

/-- A request of a client, whatever the stage makes of it. -/
theorem tracks_request (hstart : StageReplicated start) (hp : OwnersFollow start p) {c : Endpoint}
    {path owner : ZstURI} {id : ZstMsgID}
    (hclean : KnowsOwner p.stage.hierarchy path owner → UniformlyOwned p.stage.hierarchy path owner)
    (hrun : p.stageReceive
      { content := .entityTakeOwnershipRequest path owner, id, originEndpointUUID := c } = .ok q) :
    OwnersFollow start q := by
  by_cases haccepts : c ∈ p.joined ∧ KnowsOwner p.stage.hierarchy path owner
  · exact tracks_accepted hstart hp haccepts.1 haccepts.2 (hclean haccepts.2) hrun
  · obtain ⟨messages, hmessages, rfl⟩ := stageReceive_refused hp.sent haccepts hrun
    exact tracks_sends hp (same_of_sent p.stage.hierarchy []) rfl rfl (fun _ => rfl)
      fun m hm => Or.inr (hmessages m hm)

/-- One step of a run. -/
theorem tracks_step (v : Overrides) (hstart : StageReplicated start) (hp : OwnersFollow start p)
    {event : OwnershipEvent} (hclean : OwnsWholeSubtree p event) (hrun : step v p event = .ok q) :
    OwnersFollow start q := by
  have hask : ∀ {ask : ZstHierarchy → EntityId → Option Content} {c : Endpoint} {plug : ZstURI}
      {id : ZstMsgID}, (∀ h e content, ask h e = some content →
        ∃ path owner, content = .entityTakeOwnershipRequest path owner) →
      asked p event = ((p.clients c).hierarchy.findEntity plug).bind (ask (p.clients c).hierarchy) →
      request ask p c plug id = .ok q → OwnersFollow start q := by
    intro ask c plug id hkind hasked hrun
    unfold request at hrun
    dsimp only at hrun
    rw [← hasked] at hrun
    cases hcontent : asked p event with
    | none =>
      rw [hcontent] at hrun
      obtain rfl := Except.ok.inj hrun
      exact hp
    | some content =>
      obtain ⟨e, -, he⟩ := Option.bind_eq_some_iff.mp (hasked.symm.trans hcontent)
      obtain ⟨path, owner, rfl⟩ := hkind _ e content he
      rw [hcontent] at hrun
      rw [OwnsWholeSubtree, hcontent] at hclean
      exact tracks_request hstart hp hclean hrun
  cases event with
  | aquire c plug id =>
    refine hask (fun h e content hcontent => ?_) rfl hrun
    unfold ZstClientSession.aquireEntityOwnership at hcontent
    split at hcontent
    · exact ⟨_, _, (Option.some.inj hcontent).symm⟩
    · cases hcontent
  | release c plug id =>
    refine hask (fun h e content hcontent => ?_) rfl hrun
    unfold ZstClientSession.releaseEntityOwnership at hcontent
    split at hcontent
    · exact ⟨_, _, (Option.some.inj hcontent).symm⟩
    · cases hcontent
  | handshake output input response =>
    obtain ⟨stage, hconnected, hrun⟩ := Library.bind_ok.mp hrun
    obtain rfl := Except.ok.inj hrun
    exact tracks_handshake hp hconnected
  | deliver c => exact tracks_deliver v hp hrun

end Steps

/-! ## A client that joins later -/

/-- An entity that is unpacked has the owner that was serialised. -/
theorem unpack_serialize_owner {x : Entity} (hsurvives : SurvivesSerialisation x.currentOwner) :
    (Entity.unpack x.serialize).currentOwner = x.currentOwner :=
  hsurvives

theorem lateAgree_of_survives {s : ZstSession}
    (hsurvives : ∀ e, SurvivesSerialisation (s.hierarchy.entities e).currentOwner) :
    LateAgree s := by
  intro msg performer address t sender hcontent howner hrun hproxy buffer hbuffer
  have hloud : ¬ EntityPreserving msg.content := by
    rw [hcontent]
    exact not_false
  obtain ⟨l, response, hdispatch, rfl⟩ := ZstStage.receive_not_calm hloud hrun
  have hlater : ∀ e, SurvivesSerialisation (l.entities e).currentOwner := by
    unfold ZstStageHierarchy.dispatch at hdispatch
    rw [hcontent] at hdispatch
    intro e
    rcases ZstStage.createClientHandler_ok hdispatch with rfl | ⟨-, hadd⟩
    · exact hsurvives e
    · rw [(Attribution.addProxyEntity_enlists hadd).currentOwner]
      split
      · have hnobody : (Entity.performerStageProxy performer address
            msg.originEndpointUUID).currentOwner = [] := howner
        rw [hnobody]
        decide
      · exact hsurvives e
  rw [snapshot_eq hproxy] at hbuffer
  rcases List.mem_append.mp hbuffer with hentity | hcable
  · obtain ⟨e, -, he⟩ := List.mem_map.mp hentity
    obtain rfl := Content.entityCreateRequest.inj he
    refine ⟨e, rfl, unpack_serialize_owner ?_⟩
    simp only [respond_eq]
    exact hlater e
  · obtain ⟨a, -, ha⟩ := List.mem_map.mp hcable
    cases ha

/-! ## Whole runs -/

/-- Where every accepted request is for an entity whose descendants have the
owner already, and no owner is cut when it is serialised, all clients come to
record the owners of the stage, and so does a client that joins then. -/
theorem agree_of_clean (v : Overrides) (events : List OwnershipEvent) {start p : Performance}
    (hstart : StageReplicated start) (hclean : Along (step v) OwnsWholeSubtree start events)
    (hrun : run (step v) start events = .ok p)
    (hdrained : ∀ c ∈ p.joined, p.channels c = []) : OwnersAgree p ∧ LateAgree p.stage := by
  have hp : OwnersFollow start p :=
    run_invariant (fun _ _ _ hs hcondition hstep => tracks_step v hstart hs hcondition hstep)
      (tracks_start hstart) hclean hrun
  refine ⟨fun c hc path => ?_, lateAgree_of_survives hp.survives⟩
  have hagree := hp.agree c (joined_of_same hp.stage ▸ hc)
  rw [hdrained c hc, settled_empty] at hagree
  exact congrFun hagree path

/-! ## Two clients -/

/-- The performers `a` and `b`, and a component of `a` with a plug. -/
def pairStage : ZstHierarchy :=
  ofList
    [ { Entity.performerStageProxy { entityType := .performer, uri := ["a"] } "" 1 with
        registered := true, children := [["a", "synth"]] },
      { Entity.performerStageProxy { entityType := .performer, uri := ["b"] } "" 2 with
        registered := true },
      { entityType := .component, uri := ["a", "synth"], parentAddress := ["a"]
        registered := true, isProxy := true, syncStatus := .activated
        children := [["a", "synth", "out"]] },
      { entityType := .plug, uri := ["a", "synth", "out"], parentAddress := ["a", "synth"]
        direction := .outJack, registered := true, isProxy := true, syncStatus := .activated } ]

/-- The same entities at the client of one of the performers. -/
def pairClient (root : EntityId) : ZstHierarchy :=
  { pairStage with
    entities := fun e =>
      { pairStage.entities e with
        sessionAdaptor := true
        isProxy := (pairStage.entities e).uri.first ≠ (pairStage.entities root).uri
        stageProxy := none }
    root := some root }

def pair : Performance where
  stage := { hierarchy := pairStage, cableObjects := fun _ => ⟨⟨[], []⟩, 0, 0, .deactivated, []⟩ }
  clients c :=
    { hierarchy := pairClient (c - 1)
      cableObjects := fun _ => ⟨⟨[], []⟩, 0, 0, .deactivated, []⟩ }
  channels _ := []

theorem pairStage_keyed {path : ZstURI} {e : EntityId} (hfind : pairStage.findEntity path = some e) :
    (pairStage.entities e).uri = path := by
  have hlookup : ([["a"], ["b"], ["a", "synth"], ["a", "synth", "out"]] : List ZstURI).findIdx?
      (· == path) = some e := by
    rw [← hfind]
    rfl
  obtain ⟨hlt, huri, -⟩ := List.findIdx?_eq_some_iff_getElem.mp hlookup
  rw [← eq_of_beq huri]
  have hcases : ∀ n : ℕ, n < 4 → n = 0 ∨ n = 1 ∨ n = 2 ∨ n = 3 := by omega
  obtain rfl | rfl | rfl | rfl := hcases e hlt
  all_goals rfl

theorem pairClient_findEntity {root : EntityId} (hroot : root = 0 ∨ root = 1) (path : ZstURI) :
    (pairClient root).findEntity path = pairStage.findEntity path := by
  have hself : pairStage.findEntity (pairStage.entities root).uri = some root := by
    obtain rfl | rfl := hroot
    · rfl
    · rfl
  unfold findEntity pairClient
  dsimp only
  split
  · rename_i hpath
    rw [← hself, hpath]
    rfl
  · rfl

theorem pair_shape {root : EntityId} (hroot : root = 0 ∨ root = 1) :
    SameShape pairStage (pairClient root) :=
  ⟨rfl, pairClient_findEntity hroot, fun _ => rfl, fun _ => rfl, fun _ => rfl⟩

theorem pair_unowned (e : EntityId) : (pairStage.entities e).currentOwner = [] := by
  have hcases : ∀ n : ℕ, n = 0 ∨ n = 1 ∨ n = 2 ∨ n = 3 ∨ n = n - 4 + 4 := by omega
  obtain rfl | rfl | rfl | rfl | he := hcases e
  · rfl
  · rfl
  · rfl
  · rfl
  · rw [he]
    rfl

theorem pair_replicated : StageReplicated pair := by
  have hjoined : ∀ c ∈ pair.joined, c - 1 = 0 ∨ c - 1 = 1 := by decide
  refine ⟨fun _ _ => pairStage_keyed, rfl, fun _ => rfl, fun c hc path => ?_, fun c hc path q => ?_,
    fun e => ?_⟩
  · unfold ownerAt
    change ((pairClient (c - 1)).findEntity path).map _ = _
    rw [pairClient_findEntity (hjoined c hc)]
    rfl
  · exact covers_of_shape (pair_shape (hjoined c hc)) path q
  · change SurvivesSerialisation (pairStage.entities e).currentOwner
    rw [pair_unowned]
    decide

/-- Client 2 takes the plug and then the component above it. -/
def plugFirst : List OwnershipEvent :=
  [.aquire 2 ["a", "synth", "out"] 7, .aquire 2 ["a", "synth"] 8,
   .deliver 1, .deliver 1, .deliver 2, .deliver 2, .deliver 2, .deliver 2]

/-- The name of client 2's performer is one character long. -/
theorem survives_b : SurvivesSerialisation ["b"] :=
  (Serialization.serializedOwner_eq_currentOwner_iff
    (ZstURI.parsed_of_segments (by decide))).mpr (by decide)

theorem plugFirst_clean : Along (step unanswered) OwnsWholeSubtree pair plugFirst := by
  refine (along_cons_of_ok rfl).mpr ⟨fun _ => ⟨by decide, survives_b⟩, ?_⟩
  refine (along_cons_of_ok rfl).mpr ⟨fun _ => ⟨by decide, survives_b⟩, ?_⟩
  iterate 6 refine (along_cons_of_ok rfl).mpr ⟨trivial, ?_⟩
  trivial

theorem agree_of_clean_plugFirst : ∃ p, run (step unanswered) pair plugFirst = .ok p ∧
    ownerAt p.stage.hierarchy ["a", "synth", "out"] = some ["b"] ∧
    OwnersAgree p ∧ LateAgree p.stage :=
  ⟨_, rfl, by decide,
    agree_of_clean unanswered plugFirst pair_replicated plugFirst_clean rfl (by decide)⟩

/-- When it takes the component alone, the clients give it the plug as well. -/
theorem componentAlone_not_agree : ∃ p,
    run (step unanswered) pair [.aquire 2 ["a", "synth"] 7, .deliver 1, .deliver 2, .deliver 2] =
        .ok p ∧
      (∀ c ∈ p.joined, p.channels c = []) ∧
      ownerAt p.stage.hierarchy ["a", "synth", "out"] = some [] ∧
      ownerAt (p.clients 1).hierarchy ["a", "synth", "out"] = some ["b"] ∧ ¬ OwnersAgree p := by
  refine ⟨_, rfl, by decide, by decide, by decide, fun hagree => ?_⟩
  exact absurd (hagree 1 (by decide) ["a", "synth", "out"]) (by decide)

end Showtime.OwnerAgreement
