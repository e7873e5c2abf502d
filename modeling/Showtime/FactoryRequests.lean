import Showtime.Attribution
/-!
# Entities from the factories of other clients

A request for an entity goes from the requester to the stage, from there to
the client of the factory, and its outcome comes back the same way. What the
stage tells the requester was put together before the entity was there.
-/

namespace Showtime

open ZstHierarchy

namespace ZstClientHierarchy

/-! ## The factory's client -/

/-- `ZstEntityFactory::create_entity`. The functions in `m_creatables` are the
user's and may return nothing. -/
def createEntity (creators : ZstURI → String → Option Entity) (factory : Entity)
    (creatable : ZstURI) (name : String) : Option Entity :=
  if creatable ∈ factory.creatables then creators creatable name else none

section Exchange

variable (v : Overrides) (link : StageLink) (fuel : Nat)
  (creators : ZstURI → String → Option Entity)

/-- `factory_create_entity_handler`, with the entity that it created. A factory
that is not there leaves the stage without an answer. -/
def factoryCreateEntityHandler (h : ZstHierarchy) (creatable : ZstURI) (name : String)
    (id : ZstMsgID) : ZstHierarchy × Option EntityId :=
  match ZstStageHierarchy.findFactory h creatable.parent with
  | none => (h, none)
  | some factory =>
    match createEntity creators (h.entities factory) creatable name with
    | some x =>
      let (h, e) := h.alloc x
      let h := match h.root with
        | some root => addChild v h root e false
        | none => h
      (activateEntity v link fuel h e .asyncReply (some id), some e)
    | none =>
      (publish link h
        { target := 0, content := .signalMessage .errEntityNotFound, msgID := some id }, none)

/-- How a forwarded request ends: the path of the entity that was created for
it, and the response that reaches the stage, `none` for a timeout. -/
structure ForwardOutcome where
  created : Option ZstURI
  response : Option Content
  deriving DecidableEq, Repr

/-- The outcome at a client that gets this response to its activation requests. -/
def outcome (h : ZstHierarchy) (creatable : ZstURI) (name : String) (id : ZstMsgID)
    (activation : Option Content) : ForwardOutcome :=
  let (k, created) := factoryCreateEntityHandler v link fuel creators h creatable name id
  let actions := (k.sent.drop h.sent.length).filterMap Outgoing.onRecvResponse
  let l := actions.foldl (fun l action => onRecvResponse v link l action activation) k
  let replies := (l.sent.drop h.sent.length).filter fun m => m.msgID = some id
  { created := created.map fun e => (l.entities e).uri
    response := replies.head?.map Outgoing.content }

end Exchange

end ZstClientHierarchy

namespace FactoryRequests

open ZstStageHierarchy ZstStageSession ZstStage
open ZstClientHierarchy (ForwardOutcome)
open Attribution (run_endpoint carries_of_getClient)
open Sending (run_sent callback_of_prefix)
open Naming (endpointOf)

/-! ## The stage -/

def ForwardsCreation (h : ZstHierarchy) (creatable : ZstURI) : Prop :=
  (findFactory h creatable.parent).isSome ∧ creatable.parent ≠ [] ∧
    (findStageProxy h creatable.parent.first).isSome

instance (h : ZstHierarchy) (creatable : ZstURI) : Decidable (ForwardsCreation h creatable) :=
  inferInstanceAs (Decidable (_ ∧ _ ∧ _))

/-- What the requester is to be told: where the entity is, or an error. -/
def Tells (created : Option ZstURI) (content : Content) : Prop :=
  match created with
  | some path => content = .factoryCreateEntityAck path
  | none => ∃ signal, signal ≠ .ok ∧ content = .signalMessage signal

/-- The messages of a step to an endpoint that carry an id. -/
def replies (s t : ZstSession) (endpoint : Endpoint) (id : ZstMsgID) : List Outgoing :=
  (t.hierarchy.sent.drop s.hierarchy.sent.length).filter fun m =>
    m.target = endpoint ∧ m.msgID = some id

/-- The requester is sent one message with the request's id, and the right one. -/
def FactoryAnswered (s t : ZstSession) (msg : ZstStageMessage) (created : Option ZstURI) : Prop :=
  ∃ m, replies s t msg.originEndpointUUID msg.id = [m] ∧ Tells created m.content

section Forwarding

variable {s t : ZstSession} {msg : ZstStageMessage} {creatable : ZstURI} {name : String}
  {sender : EntityId}

/-- A forwarded request leaves a callback with the sender and the factory's path. -/
theorem receive_forwards (hcontent : msg.content = .factoryCreateEntityRequest creatable name)
    (hclient : getClientFromEndpointUUID s.hierarchy msg.originEndpointUUID = some sender)
    (hforwards : ForwardsCreation s.hierarchy creatable) (hrun : step s (.receive msg) = .ok t) :
    callback t.hierarchy s.hierarchy.sent.length =
      some (.factoryEntityCreated (some sender) creatable.parent msg.id) := by
  obtain ⟨hfactory, hpath, hperformer⟩ := hforwards
  obtain ⟨factory, hfactory⟩ := Option.isSome_iff_exists.mp hfactory
  obtain ⟨performer, hperformer⟩ := Option.isSome_iff_exists.mp hperformer
  obtain ⟨proxy, hproxy⟩ := Option.isSome_iff_exists.mp (findStageProxy_isSome hperformer)
  have hsession : ZstStageSession.onReceiveMsg s msg = .ok s := by
    simp only [ZstStageSession.onReceiveMsg, hclient, ZstStageSession.dispatch, hcontent]
    rfl
  have hhierarchy : ZstStageHierarchy.onReceiveMsg s.hierarchy msg =
      .ok (whisperTo s.hierarchy performer (.factoryCreateEntityRequest creatable name) none
        (some (.factoryEntityCreated (some sender) creatable.parent msg.id))) := by
    simp only [ZstStageHierarchy.onReceiveMsg, ZstStageHierarchy.dispatch, hcontent, hclient,
      factoryCreateEntityHandler, hfactory, firstSegment, if_neg hpath, bind, Except.bind,
      hperformer]
    rfl
  simp only [step, receive, hsession, hhierarchy, bind, Except.bind, pure, Except.pure] at hrun
  obtain rfl := Except.ok.inj hrun
  simp [callback, whisperTo_eq, whisperMessages, hproxy]

theorem factoryEntityCreated_sent {h : ZstHierarchy} {endpoint : Endpoint}
    (hlive : h.live sender = true) (hendpoint : endpointOf h sender = some endpoint)
    (path : ZstURI) (id : ZstMsgID) (response : Option Content) :
    ∃ k, factoryEntityCreated h (some sender) path id response = .ok k ∧
      k.sent = h.sent ++
        (if verifySignal response .ok then []
          else [{ target := endpoint, content := .signalMessage (getSignal response)
                  msgID := some id }]) ++
        [{ target := endpoint, content := .factoryCreateEntityAck path, msgID := some id }] := by
  obtain ⟨proxy, hproxy, rfl⟩ := Option.map_eq_some_iff.mp hendpoint
  unfold factoryEntityCreated
  rw [ConnectReplies.deref_some_of_live hlive]
  refine ⟨_, rfl, ?_⟩
  split
  · simp [whisperTo_eq, whisperMessages, hproxy]
  · simp [replyWithSignal, whisperTo_eq, whisperMessages, hproxy]

end Forwarding

/-- A request that was forwarded is answered as it should be if and only if the
entity was created at the path of its factory and the requester is still there
to be told. -/
theorem factoryAnsweredOnce_iff {before between : List StageEvent} {s t u : ZstSession}
    {msg : ZstStageMessage} {creatable : ZstURI} {name : String} {sender : EntityId}
    (outcome : ForwardOutcome) (hbefore : Library.run step opened before = .ok s)
    (hcontent : msg.content = .factoryCreateEntityRequest creatable name)
    (hclient : getClientFromEndpointUUID s.hierarchy msg.originEndpointUUID = some sender)
    (hforwards : ForwardsCreation s.hierarchy creatable) (hreceive : step s (.receive msg) = .ok t)
    (hbetween : Library.run step t between = .ok u) :
    (∃ v, step u (.respond s.hierarchy.sent.length outcome.response) = .ok v ∧
        FactoryAnswered u v msg outcome.created) ↔
      u.hierarchy.live sender = true ∧ getSignal outcome.response = .ok ∧
        outcome.created = some creatable.parent := by
  have hcallback : callback u.hierarchy s.hierarchy.sent.length =
      some (.factoryEntityCreated (some sender) creatable.parent msg.id) :=
    callback_of_prefix (run_sent hbetween) (receive_forwards hcontent hclient hforwards hreceive)
  have hcarries := carries_of_getClient hclient
  have hendpoint : endpointOf u.hierarchy sender = some msg.originEndpointUUID := by
    have howned : sender < s.hierarchy.next :=
      (Cabling.Wired.opened.run hbefore).owned.allocated sender (List.mem_of_mem_filter hcarries.1)
    rw [(run_endpoint (Library.run_cons_ok.mpr ⟨t, hreceive, hbetween⟩) howned).2]
    exact hcarries.2
  by_cases hlive : u.hierarchy.live sender = true
  · obtain ⟨k, hk, hsent⟩ := factoryEntityCreated_sent hlive hendpoint creatable.parent msg.id
      outcome.response
    have hstep : step u (.respond s.hierarchy.sent.length outcome.response) =
        .ok { u with hierarchy := k } := by
      simp only [step, hcallback, onRecvResponse, hk]
      rfl
    have hanswered : (∃ v, step u (.respond s.hierarchy.sent.length outcome.response) = .ok v ∧
        FactoryAnswered u v msg outcome.created) ↔
          FactoryAnswered u { u with hierarchy := k } msg outcome.created := by
      rw [hstep]
      simp
    rw [hanswered, ← verifySignal_ok]
    by_cases hok : verifySignal outcome.response .ok = true
    · rw [if_pos hok, List.append_nil] at hsent
      have hreplies : replies u { u with hierarchy := k } msg.originEndpointUUID msg.id =
          [{ target := msg.originEndpointUUID, content := .factoryCreateEntityAck creatable.parent
             msgID := some msg.id }] := by
        simp [replies, hsent]
      unfold FactoryAnswered
      rw [hreplies]
      cases outcome.created with
      | none => simp [Tells]
      | some path => simp [Tells, hlive, hok, eq_comm]
    · rw [if_neg hok] at hsent
      refine iff_of_false ?_ fun hgood => hok hgood.2.1
      -- the error is followed by the acknowledgement
      rintro ⟨m, hreplies, -⟩
      simp [replies, hsent] at hreplies
  · refine iff_of_false ?_ fun hgood => hlive hgood.1
    rintro ⟨v, hstep, -⟩
    simp only [step, hcallback, onRecvResponse, factoryEntityCreated,
      ConnectReplies.deref_some_of_freed hlive] at hstep
    cases hstep

/-! ## Three parties -/

def makerStage : List StageEvent :=
  [joining "ada" 1, joining "bob" 2,
    .receive
      { content := .entityCreateRequest
          { entityType := .factory, uri := ["bob", "maker"]
            creatables := [["bob", "maker", "synth"]] }
        id := 1
        originEndpointUUID := 2 }]

def asks (name : String) : ZstStageMessage :=
  { content := .factoryCreateEntityRequest ["bob", "maker", "synth"] name
    id := 7
    originEndpointUUID := 1 }

def makerClient : ZstHierarchy :=
  ofList
    [ { entityType := .performer, uri := ["bob"], registered := true, syncStatus := .activated
        children := [["bob", "maker"]] },
      { entityType := .factory, uri := ["bob", "maker"], parentAddress := ["bob"]
        registered := true, syncStatus := .activated, creatables := [["bob", "maker", "synth"]] } ]
    (some 0)

/-- What `bob` makes of the request, with a stage that accepts the entity. -/
def made (name : String) : ForwardOutcome :=
  let link : StageLink := { connected := true, answer := fun _ => none }
  ZstClientHierarchy.outcome (ZstClientHierarchy.overrides link 0) link 0
    (fun _ name => some { entityType := .component, uri := [name] }) makerClient
    ["bob", "maker", "synth"] name 7 (some (.signalMessage .ok))

/-- An entity that is named as the factory itself is found where `ada` is told. -/
theorem factoryAnsweredOnce_iff_maker : ∃ t v,
    Library.run step opened (makerStage ++ [.receive (asks "maker")]) = .ok t ∧
      step t (.respond 3 (made "maker").response) = .ok v ∧
      FactoryAnswered t v (asks "maker") (made "maker").created := by
  obtain ⟨s, t, hs, hclient, hforwards, ht, hlive, hindex⟩ : ∃ s t,
      Library.run step opened makerStage = .ok s ∧
        getClientFromEndpointUUID s.hierarchy 1 = some 0 ∧
        ForwardsCreation s.hierarchy ["bob", "maker", "synth"] ∧
        step s (.receive (asks "maker")) = .ok t ∧ t.hierarchy.live 0 = true ∧
        s.hierarchy.sent.length = 3 :=
    ⟨_, _, rfl, by decide, by decide, rfl, by decide, by decide⟩
  obtain ⟨v, hv, hanswered⟩ := (factoryAnsweredOnce_iff (made "maker") hs rfl hclient hforwards ht
    (Library.run_nil t)).mpr ⟨hlive, by decide, by decide⟩
  rw [hindex] at hv
  exact ⟨t, v, Library.run_concat_ok.mpr ⟨s, hs, ht⟩, hv, hanswered⟩

/-- Of the entity `bob/s1` the stage tells `ada` that it is `bob/maker`. -/
theorem factoryPath_not_answeredOnce : ∃ t v,
    Library.run step opened (makerStage ++ [.receive (asks "s1")]) = .ok t ∧
      step t (.respond 3 (made "s1").response) = .ok v ∧
      (made "s1").created = some ["bob", "s1"] ∧
      ¬ FactoryAnswered t v (asks "s1") (made "s1").created := by
  obtain ⟨t, v, ht, hv, hmade, hreplies⟩ : ∃ t v,
      Library.run step opened (makerStage ++ [.receive (asks "s1")]) = .ok t ∧
        step t (.respond 3 (made "s1").response) = .ok v ∧
        (made "s1").created = some ["bob", "s1"] ∧
        (replies t v 1 7).map Outgoing.content = [.factoryCreateEntityAck ["bob", "maker"]] :=
    ⟨_, _, rfl, rfl, by decide, by decide⟩
  refine ⟨t, v, ht, hv, hmade, ?_⟩
  rintro ⟨m, hm, htells⟩
  have hcontent : m.content = .factoryCreateEntityAck ["bob", "maker"] := by
    have hmap := hreplies
    rw [show replies t v 1 7 = [m] from hm] at hmap
    exact List.singleton_inj.mp hmap
  rw [hmade] at htells
  simp [Tells, hcontent] at htells

end FactoryRequests
end Showtime
