import Showtime.Sending
import Showtime.Snapshot
import Showtime.Subscribers
/-!
# Messages that name entities

Messages about cables, peer handshakes and owners name entities by their
paths. For every step this module tells from the state before it which clients
such messages go to, and which paths they hear.
-/

namespace Showtime.Naming

open ZstHierarchy ZstStageHierarchy ZstStageSession ZstStage Sending
open Subscribers (joined mem_joined)

/-! ## Names -/

/-- The paths that a message about a cable, a handshake or an owner names. -/
def names : Content → List ZstURI
  | .cableCreateRequest cable => [cable.inputURI, cable.outputURI]
  | .clientGraphHandshakeStart input _ => [input]
  | .entityTakeOwnershipRequest path newOwner =>
    if newOwner = [] then [path] else [path, newOwner]
  | _ => []

/-- The endpoint of a performer's client. -/
def endpointOf (h : ZstHierarchy) (c : EntityId) : Option Endpoint :=
  (h.entities c).stageProxy.map StageProxy.originEndpointUUID

theorem mem_joined_iff {h : ZstHierarchy} {c : EntityId} :
    c ∈ joined h ↔ c ∈ h.proxies ∧ ∃ endpoint, endpointOf h c = some endpoint := by
  rw [mem_joined, ← Option.isSome_iff_exists]
  simp [endpointOf]

/-- Every client hears the paths. -/
def toAll (h : ZstHierarchy) (paths : List ZstURI) : List (EntityId × ZstURI) :=
  (joined h).flatMap fun c => paths.map fun path => (c, path)

theorem mem_toAll {h : ZstHierarchy} {paths : List ZstURI} {c : EntityId} {path : ZstURI} :
    (c, path) ∈ toAll h paths ↔ c ∈ joined h ∧ path ∈ paths := by
  simp [toAll]

/-- A publisher that is not connected yet hears of its subscriber. -/
def starts (h : ZstHierarchy) (output input : EntityId) : List (EntityId × ZstURI) :=
  if (h.entities output).hasConnectedSubscriber (h.entities input) then []
  else if (h.entities output).uri = (h.entities input).uri then []
  else [(output, (h.entities input).uri)]

/-- The clients to which a step names entities, and the paths it names. -/
def mentions (s : ZstSession) : StageEvent → List (EntityId × ZstURI)
  | .receive msg =>
    match getClientFromEndpointUUID s.hierarchy msg.originEndpointUUID with
    | none => []
    | some sender =>
      match msg.content with
      | .signalMessage signal =>
        if signal = .clientSync then
          (Snapshot.addresses s).flatMap fun cable =>
            (names (.cableCreateRequest cable)).map fun path => (sender, path)
        else []
      | .cableCreateRequest cable =>
        match ConnectReplies.course s msg sender with
        | .peers output input _ =>
          if (s.hierarchy.entities output).uri = (s.hierarchy.entities input).uri then
            toAll s.hierarchy (names (.cableCreateRequest cable))
          else starts s.hierarchy output input
        | _ => []
      | .entityObserveRequest _ =>
        match ConnectReplies.course s msg sender with
        | .peers output input _ => starts s.hierarchy output input
        | _ => []
      | .entityTakeOwnershipRequest path newOwner =>
        if (s.hierarchy.findEntity path).isSome ∧
            (newOwner = [] ∨ (findStageProxy s.hierarchy newOwner).isSome) then
          toAll s.hierarchy (names (.entityTakeOwnershipRequest path newOwner))
        else []
      | _ => []
  | .respond message response =>
    match callback s.hierarchy message with
    | some (.clientsConnected _ _ (.cable cable _ _)) =>
      if verifySignal response .ok then
        toAll s.hierarchy (names (.cableCreateRequest (s.cableObjects cable).address))
      else []
    | _ => []
  | _ => []

/-- The client that asks for the graph in a step. -/
def syncer (s : ZstSession) : StageEvent → Option EntityId
  | .receive msg =>
    if msg.content = .signalMessage .clientSync then
      getClientFromEndpointUUID s.hierarchy msg.originEndpointUUID
    else none
  | _ => none

/-! ## What is sent -/

/-- The message names nobody. -/
def NamesNobody (m : Outgoing) : Prop :=
  names m.content = []

/-- What the message names was to be expected at its target. -/
def Mentioned (h : ZstHierarchy) (mentioned : List (EntityId × ZstURI)) (m : Outgoing) : Prop :=
  ∀ path ∈ names m.content, ∃ c ∈ joined h, (c, path) ∈ mentioned ∧
    endpointOf h c = some m.target

theorem NamesNobody.mentioned {m : Outgoing} (hm : NamesNobody m) (h : ZstHierarchy)
    (mentioned : List (EntityId × ZstURI)) : Mentioned h mentioned m := by
  intro path hpath
  rw [hm] at hpath
  cases hpath

theorem nameless_of_hierarchical {m : Outgoing} (hm : Hierarchical m) : NamesNobody m := by
  unfold Hierarchical at hm
  unfold NamesNobody
  split at hm <;> rename_i hcontent
  case h_8 => exact hm.elim
  all_goals
    rw [hcontent]
    rfl

theorem mentioned_of_nameless {h k : ZstHierarchy} (hk : Sends NamesNobody h k) (h' : ZstHierarchy)
    (mentions : List (EntityId × ZstURI)) : Sends (Mentioned h' mentions) h k :=
  hk.mono fun _ hm => hm.mentioned h' mentions

theorem mentioned_of_hierarchical {h k : ZstHierarchy} (hk : Sends Hierarchical h k)
    (h' : ZstHierarchy) (mentions : List (EntityId × ZstURI)) :
    Sends (Mentioned h' mentions) h k :=
  mentioned_of_nameless (hk.mono fun _ => nameless_of_hierarchical) h' mentions

/-! ## Who hears -/

/-- The second hierarchy has the clients of the first one at the same endpoints. -/
structure SameClients (h k : ZstHierarchy) : Prop where
  proxies : k.proxies = h.proxies
  endpoint : ∀ c, endpointOf k c = endpointOf h c

namespace SameClients

variable {h k l : ZstHierarchy}

theorem refl (h : ZstHierarchy) : SameClients h h :=
  ⟨rfl, fun _ => rfl⟩

theorem trans (hk : SameClients h k) (kl : SameClients k l) : SameClients h l :=
  ⟨kl.proxies.trans hk.proxies, fun c => (kl.endpoint c).trans (hk.endpoint c)⟩

theorem of_standing (hk : Standing h k) : SameClients h k :=
  ⟨hk.proxies, hk.field (fun x => x.stageProxy.map StageProxy.originEndpointUUID) fun _ => rfl⟩

theorem subscribe (h : ZstHierarchy) (output input : EntityId) :
    SameClients h (subscribe h output input) := by
  refine ⟨rfl, fun c => ?_⟩
  unfold endpointOf ZstStageSession.subscribe
  rw [modify_entities]
  split
  · rename_i hc
    simp [Entity.addSubscriber, hc, Function.comp_def]
  · rfl

theorem mem_joined (hk : SameClients h k) {c : EntityId} : c ∈ joined k ↔ c ∈ joined h := by
  rw [mem_joined_iff, mem_joined_iff, hk.proxies, hk.endpoint]

variable {mentioned : List (EntityId × ZstURI)} {content : Content}

theorem broadcast (hk : SameClients h k)
    (hnames : ∀ path ∈ names content, ∀ c ∈ joined h, (c, path) ∈ mentioned)
    (excluded : Option EntityId) :
    Sends (Mentioned h mentioned) k (broadcast k content excluded) := by
  rw [broadcast_eq]
  refine ⟨_, fun m hm path hpath => ?_, rfl⟩
  obtain ⟨c, hc, hm⟩ := List.mem_flatMap.mp hm
  split at hm
  · cases hm
  · obtain ⟨proxy, hproxy, rfl⟩ := mem_whisperMessages.mp hm
    have hendpoint : endpointOf k c = some proxy.originEndpointUUID := by
      simp [endpointOf, hproxy]
    have hjoined : c ∈ joined h :=
      hk.mem_joined.mp (mem_joined_iff.mpr ⟨List.mem_of_mem_filter hc, _, hendpoint⟩)
    exact ⟨c, hjoined, hnames path hpath c hjoined, hk.endpoint c ▸ hendpoint⟩

end SameClients

/-! ## Cables -/

section Cables

variable {s t : ZstSession} {h : ZstHierarchy} {mentioned : List (EntityId × ZstURI)}

theorem destroyCable_nameless (s : ZstSession) (c : CableId) :
    Sends NamesNobody s.hierarchy (destroyCable s c).hierarchy := by
  refine (destroyCable_sends s c).mono fun m hm => ?_
  rw [NamesNobody, hm]
  rfl

theorem plugged_nameless (s : ZstSession) (input output : EntityId) :
    Sends NamesNobody s.hierarchy (ConnectReplies.plugged s input output).hierarchy := by
  refine .trans ?_ (.silent (Mute.createCable _ input output).sent)
  unfold ConnectReplies.makeRoom
  split
  · exact Sends.foldl destroyCable_nameless _ s
  · exact .refl _

theorem plugged_address (s : ZstSession) (input output : EntityId) :
    ((ConnectReplies.plugged s input output).cableObjects
        (ConnectReplies.requestedCable s input output)).address =
      ⟨(s.hierarchy.entities input).uri, (s.hierarchy.entities output).uri⟩ := by
  have huri := (ConnectReplies.makeRoom_keeps s input).1.field Entity.uri fun _ => rfl
  rw [← (ConnectReplies.plugged_keeps s input output).2.1]
  unfold ConnectReplies.plugged
  rw [createCable_address, huri, huri]

/-- A publisher hears of the subscriber that is to be connected. -/
theorem handshakeMessages_mentioned {k : ZstHierarchy} (hk : SameClients h k)
    {output input : EntityId} (hout : output ∈ joined h)
    (hstarts : ∀ mention ∈ starts k output input, mention ∈ mentioned) {action : ConnectAction} :
    ∀ m ∈ handshakeMessages k output input action, Mentioned h mentioned m := by
  intro m hm
  unfold handshakeMessages at hm
  unfold starts at hstarts
  simp only at hm
  split_ifs at hm hstarts
  · cases hm
  · cases hm
  · rcases List.mem_append.mp hm with hm | hm
    · have hlisten : NamesNobody m := by
        unfold NamesNobody
        rw [whisperMessages_content hm]
        rfl
      exact hlisten.mentioned h mentioned
    · obtain ⟨proxy, hproxy, rfl⟩ := mem_whisperMessages.mp hm
      intro path hpath
      rw [List.mem_singleton.mp hpath]
      refine ⟨output, hout, hstarts _ (List.mem_singleton_self _), ?_⟩
      rw [← hk.endpoint]
      simp [endpointOf, hproxy]

theorem connectClients_mentioned (hs : SameClients h s.hierarchy) {output input : EntityId}
    (hout : output ∈ joined h)
    (hstarts : ∀ mention ∈ starts s.hierarchy output input, mention ∈ mentioned)
    (action : ConnectAction) :
    Sends (Mentioned h mentioned) s.hierarchy
      (connectClients s output input action).hierarchy := by
  rw [connectClients_eq]
  exact ⟨_, handshakeMessages_mentioned hs hout hstarts, rfl⟩

theorem connectAll_mentioned (hs : SameClients h s.hierarchy) {outputs : List EntityId}
    {input : EntityId} (hout : ∀ output ∈ outputs, output ∈ joined h)
    (hstarts : ∀ output ∈ outputs, ∀ mention ∈ starts s.hierarchy output input,
      mention ∈ mentioned) (action : ConnectAction) :
    Sends (Mentioned h mentioned) s.hierarchy
      (outputs.foldl (fun s output => connectClients s output input action) s).hierarchy := by
  rw [foldl_connectClients_eq]
  refine ⟨_, fun m hm => ?_, rfl⟩
  obtain ⟨output, houtput, hm⟩ := List.mem_flatMap.mp hm
  exact handshakeMessages_mentioned hs (hout output houtput) (hstarts output houtput) m hm

/-- Everyone hears of a cable whose request is finished. -/
theorem cableConnectFinished_mentioned (hs : SameClients h s.hierarchy) {cable : CableId}
    {sender : EntityId} {id : ZstMsgID} {signal : Signal}
    (hall : ∀ path ∈ names (.cableCreateRequest (s.cableObjects cable).address),
      ∀ c ∈ joined h, (c, path) ∈ mentioned)
    (hrun : cableConnectFinished s cable sender id signal = .ok t) :
    Sends (Mentioned h mentioned) s.hierarchy t.hierarchy := by
  obtain ⟨told, htold, -, rfl⟩ := cableConnectFinished_succeeded hrun
  have hreply : Sends NamesNobody told (replyWithSignal told sender signal id) :=
    (Sends.whisperTo told sender _ _ _).mono fun m hm => by
      rw [NamesNobody, hm]
      rfl
  refine .trans ?_ (mentioned_of_nameless hreply h mentioned)
  rcases htold with ⟨-, -, rfl⟩ | ⟨-, rfl⟩
  · exact hs.broadcast hall none
  · exact .refl _

end Cables

/-! ## Handlers of the session -/

/-- Everyone who is found at a path is owned by the stage. -/
def Housed (h : ZstHierarchy) : Prop :=
  ∀ path e, h.findEntity path = some e → e ∈ h.proxies

theorem Housed.mem_joined {h : ZstHierarchy} (housed : Housed h) {path : ZstURI} {c : EntityId}
    (hfind : findStageProxy h path = some c) : c ∈ joined h := by
  obtain ⟨hfound, hproxy⟩ := Option.filter_eq_some_iff.mp hfind
  exact Subscribers.mem_joined.mpr ⟨housed path c hfound, hproxy⟩

section Session

variable {s t : ZstSession} {msg : ZstStageMessage} {sender : EntityId} {response : Signal}

theorem SameClients.of_replugged {u : ZstSession} (hu : ConnectReplies.Replugged s u) :
    SameClients s.hierarchy u.hierarchy :=
  ⟨hu.proxies, hu.field (fun x => x.stageProxy.map StageProxy.originEndpointUUID) fun _ => rfl⟩

theorem starts_replugged {u : ZstSession} (hu : ConnectReplies.Replugged s u)
    (output input : EntityId) :
    starts u.hierarchy output input = starts s.hierarchy output input := by
  have huri := hu.field Entity.uri fun _ => rfl
  have hconnected : (u.hierarchy.entities output).hasConnectedSubscriber
      (u.hierarchy.entities input) =
        (s.hierarchy.entities output).hasConnectedSubscriber (s.hierarchy.entities input) := by
    unfold Entity.hasConnectedSubscriber
    rw [hu.field Entity.stageProxy fun _ => rfl, huri]
  simp only [starts, hconnected, huri]

theorem performerOf_joined (sound : FindsOwned s.hierarchy) {e p : EntityId}
    (hp : ConnectReplies.performerOf s.hierarchy e = some p) : p ∈ joined s.hierarchy := by
  refine mem_joined.mpr ⟨?_, ConnectReplies.performerOf_isSome hp⟩
  unfold ConnectReplies.performerOf at hp
  split at hp
  · cases hp
  · exact (sound.live p).mp (Option.filter_eq_some_iff.mp hp).2

theorem createCableHandler_mentioned (sound : FindsOwned s.hierarchy) {path : ZstCableAddress}
    (hclient : getClientFromEndpointUUID s.hierarchy msg.originEndpointUUID = some sender)
    (hcontent : msg.content = .cableCreateRequest path)
    (hrun : createCableHandler s msg path sender = .ok (t, response)) :
    Sends (Mentioned s.hierarchy (mentions s (.receive msg))) s.hierarchy t.hierarchy := by
  rcases createCableHandler_ok hrun with
    ⟨-, rfl⟩ | ⟨-, input, output, p, q, hcable, hinput, houtput, hp, hq, hfinish⟩
  · exact .refl _
  have hcourse : ConnectReplies.course s msg sender =
      .peers p q (.cable (ConnectReplies.requestedCable s input output) sender msg.id) := by
    simp [ConnectReplies.course, hcontent, hcable, hinput, houtput, hp, hq]
  have hmentions : mentions s (.receive msg) =
      if (s.hierarchy.entities p).uri = (s.hierarchy.entities q).uri then
        toAll s.hierarchy (names (.cableCreateRequest path))
      else starts s.hierarchy p q := by
    simp only [mentions, hclient, hcontent, hcourse]
  have hkeeps := (ConnectReplies.plugged_keeps s input output).1
  have hsame : SameClients s.hierarchy (ConnectReplies.plugged s input output).hierarchy :=
    .of_replugged hkeeps
  refine (mentioned_of_nameless (plugged_nameless s input output) _ _).trans ?_
  rw [hmentions]
  split at hfinish
  · rename_i huri
    rw [if_pos huri]
    have haddress : ((ConnectReplies.plugged s input output).cableObjects
        (ConnectReplies.requestedCable s input output)).address = path := by
      rw [plugged_address, sound.keyed.uri _ _ (Option.filter_eq_some_iff.mp hinput).1,
        sound.keyed.uri _ _ (Option.filter_eq_some_iff.mp houtput).1]
    refine cableConnectFinished_mentioned hsame (fun name hname c hc => ?_) hfinish
    rw [haddress] at hname
    exact mem_toAll.mpr ⟨hc, hname⟩
  · rename_i huri
    rw [if_neg huri, hfinish]
    refine connectClients_mentioned hsame (performerOf_joined sound hp) ?_ _
    rw [starts_replugged hkeeps]
    exact fun _ hmention => hmention

theorem observeEntityHandler_mentioned (housed : Housed s.hierarchy) {path : ZstURI}
    (hclient : getClientFromEndpointUUID s.hierarchy msg.originEndpointUUID = some sender)
    (hcontent : msg.content = .entityObserveRequest path)
    (hrun : observeEntityHandler s msg path sender = .ok (t, response)) :
    Sends (Mentioned s.hierarchy (mentions s (.receive msg))) s.hierarchy t.hierarchy := by
  by_cases hpath : path = []
  · unfold observeEntityHandler firstSegment at hrun
    rw [if_pos hpath] at hrun
    cases hrun
  rw [ConnectReplies.observeEntityHandler_eq s msg path sender hpath] at hrun
  split at hrun
  · obtain ⟨rfl, -⟩ := Prod.mk.inj (Except.ok.inj hrun)
    exact .refl _
  · rename_i observed hobserved
    split at hrun
    · obtain ⟨rfl, -⟩ := Prod.mk.inj (Except.ok.inj hrun)
      exact .refl _
    · rename_i hself
      split at hrun
      · obtain ⟨rfl, -⟩ := Prod.mk.inj (Except.ok.inj hrun)
        exact .refl _
      · rename_i hfresh
        obtain ⟨rfl, -⟩ := Prod.mk.inj (Except.ok.inj hrun)
        have hcourse : ConnectReplies.course s msg sender =
            .peers observed sender (.observe sender msg.id) := by
          simp [ConnectReplies.course, hcontent, hpath, hobserved, hself, hfresh]
        have hmentions : mentions s (.receive msg) = starts s.hierarchy observed sender := by
          simp only [mentions, hclient, hcontent, hcourse]
        rw [hmentions]
        exact connectClients_mentioned (.refl _) (housed.mem_joined hobserved)
          (fun _ hmention => hmention) _

/-- The performers with an input below the plug are clients. -/
theorem receivers_joined {h : ZstHierarchy} (sound : FindsOwned h) (hs : SameClients h s.hierarchy)
    (hlive : s.hierarchy.live = h.live) {entity : EntityId} {found : List EntityId}
    (hrun : receivers s entity = .ok found) : ∀ receiver ∈ found, receiver ∈ joined h := by
  unfold receivers at hrun
  refine Library.run_history (fun _ found => ∀ receiver ∈ found, receiver ∈ joined h)
    (fun _ found c next hfound hstep => ?_) (by simp) hrun
  dsimp only at hstep
  obtain ⟨output, -, hstep⟩ := Library.bind_ok.mp hstep
  split at hstep
  · obtain ⟨input, -, hstep⟩ := Library.bind_ok.mp hstep
    obtain ⟨performer, -, hstep⟩ := Library.bind_ok.mp hstep
    obtain ⟨receiver, hreceiver, hstep⟩ := Library.bind_ok.mp hstep
    have hjoined : receiver ∈ joined h := by
      have hproxy := findStageProxy_isSome (deref_ok hreceiver)
      have hthere : s.hierarchy.live receiver = true := by
        rw [deref_ok hreceiver] at hreceiver
        unfold deref at hreceiver
        by_contra hdead
        simp [hdead] at hreceiver
      rw [hlive, sound.live, ← hs.proxies] at hthere
      exact hs.mem_joined.mp (mem_joined.mpr ⟨hthere, hproxy⟩)
    obtain rfl := Except.ok.inj hstep
    intro c hc
    split at hc
    · exact hfound c hc
    · rcases List.mem_append.mp hc with hc | hc
      · exact hfound c hc
      · rw [List.mem_singleton.mp hc]
        exact hjoined
  · obtain rfl := Except.ok.inj hstep
    exact hfound

/-- The receivers hear of the new owner, and everyone hears who owns the entity. -/
theorem handOver_mentioned {u : ZstSession} (hkeeps : Standing s.hierarchy u.hierarchy)
    (hsent : u.hierarchy.sent = s.hierarchy.sent) {entity owner : EntityId}
    {path newOwner : ZstURI} (huri : (s.hierarchy.entities entity).uri = path)
    (howner : (s.hierarchy.entities owner).uri = newOwner) (hgiven : newOwner ≠ [])
    {found : List EntityId} (hfound : ∀ receiver ∈ found, receiver ∈ joined s.hierarchy) :
    Sends (Mentioned s.hierarchy
        (toAll s.hierarchy (names (.entityTakeOwnershipRequest path newOwner)))) s.hierarchy
      (onHierarchy (found.foldl (fun s receiver => connectClients s receiver owner .none) u)
        fun h => broadcast h
          (.entityTakeOwnershipRequest (h.entities entity).uri newOwner)).hierarchy := by
  have hsame := SameClients.of_standing hkeeps
  have hstarts : ∀ output ∈ found, ∀ mention ∈ starts u.hierarchy output owner,
      mention ∈ toAll s.hierarchy (names (.entityTakeOwnershipRequest path newOwner)) := by
    intro output houtput mention hmention
    unfold starts at hmention
    rw [hkeeps.field Entity.uri (fun _ => rfl) owner, howner] at hmention
    split_ifs at hmention
    · cases hmention
    · cases hmention
    · rw [List.mem_singleton.mp hmention]
      exact mem_toAll.mpr ⟨hfound output houtput, by simp [names, hgiven]⟩
  refine .trans (.silent hsent) ((connectAll_mentioned hsame hfound hstarts .none).trans ?_)
  rw [foldl_connectClients_eq]
  have hlater := hkeeps.trans (Standing.sends u.hierarchy (found.flatMap fun output =>
    handshakeMessages u.hierarchy output owner .none))
  refine (SameClients.of_standing hlater).broadcast (fun name hname c hc => ?_) none
  change name ∈ names (.entityTakeOwnershipRequest (u.hierarchy.entities entity).uri newOwner)
    at hname
  rw [hkeeps.field Entity.uri (fun _ => rfl) entity, huri] at hname
  exact mem_toAll.mpr ⟨hc, hname⟩

theorem aquireEntityOwnershipHandler_mentioned (sound : FindsOwned s.hierarchy)
    {path newOwner : ZstURI}
    (hclient : getClientFromEndpointUUID s.hierarchy msg.originEndpointUUID = some sender)
    (hcontent : msg.content = .entityTakeOwnershipRequest path newOwner)
    (hrun : aquireEntityOwnershipHandler s path newOwner = .ok (t, response)) :
    Sends (Mentioned s.hierarchy (mentions s (.receive msg))) s.hierarchy t.hierarchy := by
  unfold aquireEntityOwnershipHandler at hrun
  split at hrun
  · obtain ⟨rfl, -⟩ := Prod.mk.inj (Except.ok.inj hrun)
    exact .refl _
  rename_i entity hentity
  have huri : (s.hierarchy.entities entity).uri = path := sound.keyed.uri _ _ hentity
  have howned : ∀ owner, Standing s.hierarchy (onHierarchy s fun h =>
      h.modify entity fun x => setOwner x owner).hierarchy := Standing.setOwner s entity
  have hmentions : newOwner = [] ∨ (findStageProxy s.hierarchy newOwner).isSome →
      mentions s (.receive msg) =
        toAll s.hierarchy (names (.entityTakeOwnershipRequest path newOwner)) := fun howner => by
    simp only [mentions, hclient, hcontent, hentity, Option.isSome_some, true_and]
    exact if_pos howner
  dsimp only at hrun
  split at hrun
  · rename_i hrelease
    obtain ⟨found, -, hrun⟩ := Library.bind_ok.mp hrun
    obtain ⟨rfl, -⟩ := Prod.mk.inj (Except.ok.inj hrun)
    rw [hmentions (Or.inl hrelease)]
    refine .trans (k := (onHierarchy s fun h => h.modify entity fun x => setOwner x []).hierarchy)
      (.silent rfl) ?_
    refine (SameClients.of_standing (howned [])).broadcast (fun name hname c hc => ?_) none
    rw [(howned []).field Entity.uri fun _ => rfl, huri] at hname
    subst hrelease
    exact mem_toAll.mpr ⟨hc, hname⟩
  · split at hrun
    · obtain ⟨rfl, -⟩ := Prod.mk.inj (Except.ok.inj hrun)
      exact .refl _
    · rename_i hgiven _ owner howner
      obtain ⟨found, hfound, hrun⟩ := Library.bind_ok.mp hrun
      obtain ⟨rfl, -⟩ := Prod.mk.inj (Except.ok.inj hrun)
      have hownerURI : (s.hierarchy.entities owner).uri = newOwner :=
        sound.keyed.uri _ _ (Option.filter_eq_some_iff.mp howner).1
      rw [hmentions (Or.inr (by rw [howner]; rfl))]
      have hkeeps := howned (s.hierarchy.entities owner).uri
      refine handOver_mentioned hkeeps rfl huri hownerURI hgiven ?_
      exact receivers_joined sound (.of_standing hkeeps) hkeeps.live hfound

/-- What the handlers of the session name, but for the graph snapshot. -/
theorem sessionDispatch_mentioned (sound : FindsOwned s.hierarchy) (housed : Housed s.hierarchy)
    (hclient : getClientFromEndpointUUID s.hierarchy msg.originEndpointUUID = some sender)
    (hsync : msg.content ≠ .signalMessage .clientSync)
    (hrun : ZstStageSession.dispatch s msg sender = .ok (t, response)) :
    Sends (Mentioned s.hierarchy (mentions s (.receive msg))) s.hierarchy t.hierarchy := by
  unfold ZstStageSession.dispatch at hrun
  split at hrun
  · rename_i signal hcontent
    have hother : signal ≠ .clientSync := fun heq => hsync (heq ▸ hcontent)
    unfold ZstStageSession.signalHandler at hrun
    rw [if_neg hother] at hrun
    obtain ⟨rfl, -⟩ := Prod.mk.inj (Except.ok.inj hrun)
    exact .refl _
  · rename_i cable hcontent
    exact createCableHandler_mentioned sound hclient hcontent hrun
  · rename_i cable hcontent
    obtain rfl : (destroyCableHandler s cable).1 = t := congrArg Prod.fst (Except.ok.inj hrun)
    unfold destroyCableHandler
    split
    · exact mentioned_of_nameless (destroyCable_nameless s _) _ _
    · exact .refl _
  · rename_i path hcontent
    exact observeEntityHandler_mentioned housed hclient hcontent hrun
  · rename_i path newOwner hcontent
    exact aquireEntityOwnershipHandler_mentioned sound hclient hcontent hrun
  · obtain ⟨rfl, -⟩ := Prod.mk.inj (Except.ok.inj hrun)
    exact .refl _

theorem receive_mentioned (sound : FindsOwned s.hierarchy) (housed : Housed s.hierarchy)
    (hsync : syncer s (.receive msg) = none) (hrun : receive s msg = .ok t) :
    Sends (Mentioned s.hierarchy (mentions s (.receive msg))) s.hierarchy t.hierarchy := by
  obtain ⟨u, hsession, hrun⟩ := Library.bind_ok.mp hrun
  obtain ⟨k, hhierarchy, hrun⟩ := Library.bind_ok.mp hrun
  obtain rfl := Except.ok.inj hrun
  have hlast := hierarchyReceive_hierarchical hhierarchy
  refine .trans ?_ (mentioned_of_hierarchical hlast _ _)
  unfold ZstStageSession.onReceiveMsg at hsession
  split at hsession
  · obtain rfl := Except.ok.inj hsession
    exact .refl _
  · rename_i sender hclient
    obtain ⟨⟨v, response⟩, hdispatch, hrespond⟩ := Library.bind_ok.mp hsession
    obtain rfl := Except.ok.inj hrespond
    have hother : msg.content ≠ .signalMessage .clientSync := fun hcontent => by
      simp [syncer, hcontent, hclient] at hsync
    refine (sessionDispatch_mentioned sound housed hclient hother hdispatch).trans ?_
    exact mentioned_of_hierarchical (Sends.respond v.hierarchy msg response) _ _

theorem endpointOf_client {h : ZstHierarchy} {endpoint : Endpoint} {c : EntityId}
    (hclient : getClientFromEndpointUUID h endpoint = some c) : endpointOf h c = some endpoint := by
  have hfound := List.find?_some hclient
  rw [Option.any_eq_true] at hfound
  obtain ⟨proxy, hproxy, hendpoint⟩ := hfound
  unfold endpointOf
  rw [hproxy, ← of_decide_eq_true hendpoint]
  rfl

theorem synchroniseClientGraphHandler_sent {proxy : StageProxy}
    (hproxy : (s.hierarchy.entities sender).stageProxy = some proxy) :
    (synchroniseClientGraphHandler s sender).1.hierarchy.sent = s.hierarchy.sent ++
      (Snapshot.published s.hierarchy sender).map (fun e =>
        { target := proxy.originEndpointUUID
          content := .entityCreateRequest (s.hierarchy.entities e).serialize }) ++
      (Snapshot.addresses s).map (fun cable =>
        { target := proxy.originEndpointUUID, content := .cableCreateRequest cable }) := by
  have hentities := Snapshot.foldl_whisperTo
    (fun entities e => .entityCreateRequest (entities e).serialize)
    (Snapshot.published s.hierarchy sender) s.hierarchy hproxy
  have hcables := Snapshot.foldl_whisperTo
    (fun _ c => .cableCreateRequest (s.cableObjects c).address)
    s.cables { s.hierarchy with
      sent := s.hierarchy.sent ++ (Snapshot.published s.hierarchy sender).map fun e =>
        { target := proxy.originEndpointUUID
          content := .entityCreateRequest (s.hierarchy.entities e).serialize } } hproxy
  unfold synchroniseClientGraphHandler
  simp only
  unfold Snapshot.published at hentities hcables ⊢
  rw [hentities, hcables]
  simp [Snapshot.addresses, Function.comp_def]

/-- The graph snapshot: first all the entities, and then all the cables. -/
theorem receive_sync
    (hclient : getClientFromEndpointUUID s.hierarchy msg.originEndpointUUID = some sender)
    (hcontent : msg.content = .signalMessage .clientSync) (hrun : receive s msg = .ok t) :
    t.hierarchy.sent = s.hierarchy.sent ++
      (Snapshot.published s.hierarchy sender).map (fun e =>
        { target := msg.originEndpointUUID
          content := .entityCreateRequest (s.hierarchy.entities e).serialize }) ++
      ((Snapshot.addresses s).map (fun cable =>
        { target := msg.originEndpointUUID, content := .cableCreateRequest cable }) ++
        responseMessages msg .ok) := by
  obtain ⟨proxy, hproxy, horigin⟩ := Option.map_eq_some_iff.mp (endpointOf_client hclient)
  obtain ⟨u, hsession, hrun⟩ := Library.bind_ok.mp hrun
  obtain ⟨k, hhierarchy, hrun⟩ := Library.bind_ok.mp hrun
  obtain rfl := Except.ok.inj hrun
  have hlater := (Standing.onReceiveMsg hsession).getClientFromEndpointUUID_eq
    msg.originEndpointUUID
  have hu : (onHierarchy (synchroniseClientGraphHandler s sender).1 fun h =>
      respond h msg .ok) = u := by
    simp only [ZstStageSession.onReceiveMsg, ZstStageSession.dispatch, hclient, hcontent] at hsession
    exact Except.ok.inj hsession
  have hk : k = u.hierarchy := by
    unfold ZstStageHierarchy.onReceiveMsg ZstStageHierarchy.dispatch at hhierarchy
    rw [hcontent, hlater, hclient] at hhierarchy
    exact (Except.ok.inj hhierarchy).symm
  change k.sent = _
  rw [hk, ← hu, ← horigin]
  simp only [onHierarchy, respond_eq, synchroniseClientGraphHandler_sent hproxy,
    List.append_assoc]

end Session

/-! ## Steps -/

section Steps

variable {s t : ZstSession}

/-- The event loop announces entities, and names nobody else. -/
theorem processHierarchyEvent_nameless {event : HierarchyEvent}
    (hrun : processHierarchyEvent s event = .ok t) : Sends NamesNobody s.hierarchy t.hierarchy := by
  have hleaving : ∀ path, Sends NamesNobody s.hierarchy
      (disconnectCables s (s.hierarchy.findEntity path)).hierarchy := by
    intro path
    unfold disconnectCables
    split
    · exact .refl _
    · exact Sends.foldl destroyCable_nameless _ s
  cases event with
  | entityArriving e | performerArriving e =>
    obtain ⟨e, -, hrun⟩ := Library.bind_ok.mp hrun
    obtain rfl := Except.ok.inj hrun
    exact ((onEntityArriving_hierarchical s.hierarchy e).mono fun _ => nameless_of_hierarchical).trans
      (.silent (Mute.registerEntity _ e).sent)
  | factoryArriving e =>
    obtain ⟨e, -, hrun⟩ := Library.bind_ok.mp hrun
    obtain rfl := Except.ok.inj hrun
    exact (onEntityArriving_hierarchical s.hierarchy e).mono fun _ => nameless_of_hierarchical
  | entityLeaving path | performerLeaving path =>
    obtain rfl := Except.ok.inj hrun
    exact hleaving path
  | factoryLeaving path | entityUpdated e =>
    obtain rfl := Except.ok.inj hrun
    exact .refl _

/-- A response names the plugs of the cable that waited for it. -/
theorem respond_mentioned {message : Nat} {response : Option Content}
    (hrun : step s (.respond message response) = .ok t) :
    Sends (Mentioned s.hierarchy (mentions s (.respond message response))) s.hierarchy
      t.hierarchy := by
  simp only [ZstStage.step] at hrun
  split at hrun
  · rename_i action hcallback
    unfold onRecvResponse at hrun
    split at hrun
    · obtain ⟨k, hfactory, hrun⟩ := Library.bind_ok.mp hrun
      obtain rfl := Except.ok.inj hrun
      exact mentioned_of_hierarchical (factoryEntityCreated_hierarchical hfactory) _ _
    · rename_i output input follow
      by_cases hok : verifySignal response .ok = true
      · obtain ⟨-, -, hfollow⟩ := clientsConnected_succeeded hok hrun
        have hstop : Sends NamesNobody s.hierarchy
            (completeClientConnection s output input).hierarchy := by
          rw [completeClientConnection_eq]
          refine ⟨_, fun m hm => ?_, rfl⟩
          unfold NamesNobody
          rw [whisperMessages_content hm]
          rfl
        have hsame : SameClients s.hierarchy
            (completeClientConnection s output input).hierarchy := by
          rw [completeClientConnection_eq]
          exact (SameClients.subscribe s.hierarchy output input).trans
            (.of_standing (Standing.sends _ _))
        refine (mentioned_of_nameless hstop _ _).trans ?_
        unfold onConnected at hfollow
        split at hfollow
        · obtain rfl := Except.ok.inj hfollow
          exact .refl _
        · rename_i cable sender id
          refine cableConnectFinished_mentioned hsame (fun path hpath c hc => ?_) hfollow
          simp only [mentions, hcallback, hok, if_true]
          exact mem_toAll.mpr ⟨hc, hpath⟩
        · rename_i sender id
          obtain ⟨sender, -, hfollow⟩ := Library.bind_ok.mp hfollow
          obtain rfl := Except.ok.inj hfollow
          refine mentioned_of_nameless ((Sends.whisperTo _ sender _ _ _).mono fun m hm => ?_) _ _
          rw [NamesNobody, hm]
          rfl
      · unfold clientsConnected at hrun
        rw [if_neg hok] at hrun
        obtain rfl := Except.ok.inj hrun
        exact .refl _
    · obtain rfl := Except.ok.inj hrun
      exact .refl _
  · obtain rfl := Except.ok.inj hrun
    exact .refl _

/-- What any step names, but for the graph snapshot. -/
theorem step_mentioned (sound : FindsOwned s.hierarchy) (housed : Housed s.hierarchy)
    {event : StageEvent} (hsync : syncer s event = none) (hrun : step s event = .ok t) :
    Sends (Mentioned s.hierarchy (mentions s event)) s.hierarchy t.hierarchy := by
  cases event with
  | receive msg => exact receive_mentioned sound housed hsync hrun
  | respond message response => exact respond_mentioned hrun
  | heartbeatTimer =>
    obtain rfl := Except.ok.inj hrun
    exact .silent (stageHeartbeatTimer_sent s.hierarchy)
  | hierarchyEvent =>
    simp only [ZstStage.step] at hrun
    split at hrun
    · obtain rfl := Except.ok.inj hrun
      exact .refl _
    · exact mentioned_of_nameless (processHierarchyEvent_nameless hrun) _ _
  | synchronisableEvent =>
    obtain rfl := Except.ok.inj hrun
    exact .silent (Mute.processItems 1 s.hierarchy).sent
  | cleanup =>
    obtain rfl := Except.ok.inj hrun
    exact .silent (Mute.reapAll 1 s.hierarchy).sent
  | forgetDead =>
    obtain rfl := Except.ok.inj hrun
    exact .silent rfl
  | cableEvents =>
    obtain rfl := Except.ok.inj hrun
    refine .silent ?_
    rw [Standing.cableEvents_hierarchy]

end Steps

end Showtime.Naming
