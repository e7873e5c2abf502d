import Showtime.NamedEntities
/-!
# Requests for entities

What the stage does with a client's requests to create an entity, to update one,
and to have one created by a factory. The paths are the client's, and what is
found there is cast to a component without a check. A path without a last segment
is taken as well, though an entity with such a path cannot be moved any more.
-/

namespace Showtime.Requests

open ZstHierarchy ZstStageHierarchy ZstStage Library Calls NamedEntities

/-! ## The stage's runs -/

/-- The request gets as far as `add_proxy_entity`. -/
def Adds (h : ZstHierarchy) (buffer : EntityBuffer) (sender : Option EntityId) : Prop :=
  (h.createProxyEntity buffer).isSome = true ∧
    ∃ performer ∈ sender, (h.entities performer).uri.first = buffer.uri.first

/-- The entity that a request adds has a name, and what is found at the parent's path
can have children. -/
structure Addable (h : ZstHierarchy) (buffer : EntityBuffer) : Prop where
  named : HasName (Entity.unpack buffer)
  component : ∀ p, h.findEntity buffer.uri.parent = some p → (h.entities p).isComponent = true

/-- The message brings no entity without a name, and none below an entity that
cannot have children. -/
def NamedAttachable (s : ZstSession) : StageEvent → Prop
  | .receive msg =>
    match msg.content with
    | .clientJoinRequest performer _ =>
      s.hierarchy.findEntity performer.uri = none → performer.uri.last ≠ []
    | .entityCreateRequest buffer => buffer.entityType ≠ .none ∧ buffer.uri ≠ [] ∧
      (Adds s.hierarchy buffer (getClientFromEndpointUUID s.hierarchy msg.originEndpointUUID) →
        Addable s.hierarchy buffer)
    | .entityUpdateRequest buffer originalPath => buffer.entityType ≠ .none ∧
      ∀ e, s.hierarchy.findEntity originalPath = some e → Updatable s.hierarchy e buffer
    | _ => True
  | _ => True

/-- The table is in order, everybody has a name, and the proxies are alive. -/
structure Tended (h : ZstHierarchy) : Prop where
  marked : Marked h.next h
  owned : Owned h
  alive : ∀ e ∈ h.proxies, h.live e = true

theorem createEntityHandler_adds {h k : ZstHierarchy} {buffer : EntityBuffer}
    {sender : Option EntityId} {response : Signal}
    (hrun : createEntityHandler h buffer sender = .ok (k, response)) :
    k = h ∨ Adds h buffer sender ∧
      addProxyEntity stageOverrides h (Entity.unpack buffer) = .ok k := by
  by_cases hadds : Adds h buffer sender
  · exact (createEntityHandler_ok hrun).imp_right fun ⟨x, hx, hadd⟩ =>
      ⟨hadds, (createProxyEntity_eq_some hx).2 ▸ hadd⟩
  left
  unfold createEntityHandler at hrun
  obtain ⟨field, hfield, hrun⟩ := bind_ok.mp hrun
  obtain rfl : buffer = field := by
    unfold getEntityField at hfield
    split at hfield
    · cases hfield
    · exact Except.ok.inj hfield
  obtain ⟨performer, hperformer, hrun⟩ := bind_ok.mp hrun
  obtain ⟨first, hfirst, hrun⟩ := bind_ok.mp hrun
  obtain ⟨entityFirst, hentityFirst, hrun⟩ := bind_ok.mp hrun
  dsimp only at hrun
  split at hrun
  · obtain ⟨rfl, -⟩ := Prod.mk.inj (Except.ok.inj hrun)
    rfl
  · rename_i hsame
    have hnone : h.createProxyEntity buffer = none := by
      by_contra hsome
      refine hadds ⟨Option.isSome_iff_ne_none.mpr hsome, performer, deref_ok hperformer, ?_⟩
      rw [← firstSegment_ok hfirst, ← firstSegment_ok hentityFirst]
      exact not_not.mp hsame
    rw [hnone] at hrun
    obtain ⟨l, hl, hrun⟩ := bind_ok.mp hrun
    obtain rfl := Except.ok.inj hl
    split at hrun
    · exact (Prod.mk.inj (Except.ok.inj hrun)).1.symm
    · exact (Prod.mk.inj (Except.ok.inj hrun)).1.symm

namespace Tended

variable {h k : ZstHierarchy}

theorem keyed (tended : Tended h) : Keyed h := by
  have hindexed := tended.marked.indexed
  refine ⟨fun q e hq => hindexed.findEntity_uri hq, fun q e hq => ?_, ?_⟩
  · rw [hindexed.findEntity_eq] at hq
    exact hindexed.lt_next hq
  · cases hnowhere : h.findEntity [] with
    | none => rfl
    | some e =>
      have huri := hindexed.findEntity_uri hnowhere
      rw [hindexed.findEntity_eq] at hnowhere
      have hlast := (tended.marked.named e (hindexed.lt_next hnowhere)).last
      rw [huri] at hlast
      exact absurd rfl hlast

theorem standing (tended : Tended h) (hk : Standing h k) : Tended k := by
  refine ⟨?_, tended.owned.standing hk, fun e he => ?_⟩
  · rw [hk.next]
    exact tended.marked.standing hk
  · rw [hk.live]
    rw [hk.proxies] at he
    exact tended.alive e he

theorem dequeues (tended : Tended h) (events : List HierarchyEvent) :
    Tended { h with hierarchyEvents := events } :=
  ⟨⟨tended.marked.indexed.of_same rfl rfl (fun _ _ hd => hd) (fun _ => rfl) fun _ => rfl,
      rfl, tended.marked.named⟩,
    ⟨tended.owned.nodup, tended.owned.allocated, tended.owned.proxy⟩, tended.alive⟩

/-- Entities are moved, and nothing else happens. -/
theorem edited (tended : Tended h) (hedit : TreeEdit h k) (hmarked : Marked h.next k) :
    Tended k := by
  refine ⟨?_, tended.owned.same (.of_treeEdit hedit), fun e he => ?_⟩
  · rw [hedit.next]
    exact hmarked
  · rw [hedit.live]
    rw [hedit.proxies] at he
    exact tended.alive e he

theorem subscribe (tended : Tended h) (output input : EntityId) :
    Tended (ZstStageSession.subscribe h output input) :=
  ⟨tended.marked.modify output _ (fun _ => rfl) (fun _ => rfl) (fun _ => rfl) fun _ => rfl,
    tended.owned.subscribe output input, tended.alive⟩

theorem removeProxyEntity (tended : Tended h) {e : EntityId} (he : e < h.next) :
    Tended (h.removeProxyEntity stageOverrides e) := by
  have hhalf : 2 * h.depth / 2 = h.depth := by omega
  have hremoved : Tended (removeFromParent stageOverrides h e) := by
    unfold removeFromParent
    split
    · rename_i p _
      refine tended.edited (TreeEdit.removeChild TreeEdit.stage_activation h p e) ?_
      have hmoves : MovesInHeap h.next (.removeChild p e) := he
      have hmarked := tended.marked.eval hmoves (2 * h.depth)
      simp only [eval, hhalf] at hmarked
      exact hmarked
    · exact tended
  unfold ZstHierarchy.removeProxyEntity
  split
  · refine hremoved.standing ?_
    exact (Standing.defersLeaving _ _).trans (Standing.foldl Standing.enqueueDeactivation _ _)
  · exact tended

theorem forgets (tended : Tended h) (path : ZstURI) : Tended (h.removeEntityFromLookup path) :=
  ⟨⟨tended.marked.indexed.forgets path, rfl, tended.marked.named⟩, tended.owned.forgets path,
    tended.alive⟩

theorem buries (tended : Tended h) (e : EntityId) : Tended (h.bury e) := by
  refine ⟨⟨tended.marked.indexed.buries e, rfl, fun d hd => ?_⟩, tended.owned.buries e,
    fun d hd => ?_⟩
  · have hnamed := tended.marked.named d hd
    rw [FindsOwned.bury_entities]
    split
    · rename_i hde
      rw [hde] at hnamed
      exact ⟨hnamed.last, hnamed.creatables⟩
    · exact hnamed
  · have hde : d ≠ e := by
      rintro rfl
      exact tended.owned.nodup.not_mem_erase hd
    change Function.update h.live e false d = true
    rw [Function.update_of_ne hde]
    exact tended.alive d (List.mem_of_mem_erase hd)

theorem placed_named {x : Entity} (named : HasName x) : HasName (h.placed x) := by
  unfold placed
  split
  · split
    · exact named
    · simp only
      split
      · rename_i hkind
        exact HasName.updateCreateableURIs named.last (named.creatables hkind)
      · exact ⟨named.last, named.creatables⟩
  · exact named

/-- A named entity arrives. -/
theorem arrive (tended : Tended h) {x : Entity} (unplaced : Unplaced x) (named : HasName x)
    (hadd : addProxyEntity stageOverrides h x = .ok k) : Tended k := by
  have hindexed := tended.marked.indexed.addProxyEntity hadd
  have howned := tended.owned.addProxyEntity hadd
  obtain rfl := eq_arrive_of_ok (tended.keyed.above _) unplaced hadd
  refine ⟨⟨hindexed, rfl, fun e he => ?_⟩, howned, fun e he => ?_⟩
  · have hplaced := placed_named (h := h) named
    simp only [ZstHierarchy.arrive]
    split
    · exact ⟨hplaced.last, hplaced.creatables⟩
    · rename_i hne
      have hold := tended.marked.named e (Nat.lt_of_le_of_ne (Nat.lt_succ_iff.mp he) hne)
      split
      · exact ⟨hold.last, hold.creatables⟩
      · exact hold
  · simp only [ZstHierarchy.arrive, Function.update_apply]
    split
    · rfl
    · rename_i hne
      rcases List.mem_append.mp he with he | he
      · exact tended.alive e he
      · exact absurd (List.mem_singleton.mp he) hne

theorem updateProxyEntity_live (h : ZstHierarchy) (e : EntityId) (buffer : EntityBuffer) :
    (h.updateProxyEntity stageOverrides e buffer).live = h.live := by
  have hqueued (k : ZstHierarchy) := (Standing.synchronisableHasEvent k e).live
  have hnamed (k : ZstHierarchy) (name : ZstURI) :
      (setName stageOverrides k e name).live = k.live :=
    (TreeEdit.setName TreeEdit.stage_activation (fun k _ _ => .refl k) k e name).live
  obtain ⟨k, hk, hupdate⟩ := updateProxyEntity_cases stageOverrides h e buffer
  have hcreatables : k.live = h.live := by
    rcases hk with rfl | ⟨-, -, rfl⟩
    · rfl
    · rw [hqueued, modify_live]
  rcases hupdate with hupdate | ⟨-, -, hupdate⟩
  · rw [hupdate, hcreatables]
  · rw [hupdate, ← hcreatables]
    exact hnamed k buffer.uri.last

theorem updateProxyEntity (tended : Tended h) {e : EntityId} (he : e < h.next)
    {buffer : EntityBuffer} (hupdatable : Updatable h e buffer) :
    Tended (h.updateProxyEntity stageOverrides e buffer) := by
  have hsame := SameProxies.updateProxyEntity h e buffer
  refine ⟨?_, tended.owned.same hsame, fun d hd => ?_⟩
  · rw [hsame.next]
    exact tended.marked.updateProxyEntity he hupdatable
  · rw [updateProxyEntity_live]
    rw [hsame.proxies] at hd
    exact tended.alive d hd

theorem step {s t : ZstSession} {event : StageEvent} (tended : Tended s.hierarchy)
    (hclear : NamedAttachable s event) (hrun : ZstStage.step s event = .ok t) :
    Tended t.hierarchy := by
  cases step_shift hrun with
  | stands hk => exact tended.standing hk
  | dequeues events _ hk => exact (tended.dequeues events).standing hk
  | connects _ _ output input _ _ _ _ _ _ hk => exact (tended.subscribe output input).standing hk
  | removes l hl hk =>
    refine Tended.standing ?_ hk
    refine (List.foldlRecOn (motive := fun (k : ZstHierarchy) => Tended k ∧
      k.next = s.hierarchy.next) _ _ ⟨tended.standing hl, hl.next⟩ fun k hk e he => ?_).1
    have hlt := tended.marked.indexed.lt_of_mem_leavers tended.owned he
    exact ⟨hk.1.removeProxyEntity (hk.2.symm ▸ hlt),
      (SameProxies.removeProxyEntity k e).next.trans hk.2⟩
  | renames msg buffer path proxy hevent hcontent hfind hk =>
    subst hevent
    simp only [NamedAttachable, hcontent] at hclear
    have hupdatable := hclear.2 proxy hfind
    rw [tended.marked.indexed.findEntity_eq] at hfind
    exact (tended.updateProxyEntity (tended.marked.indexed.lt_next hfind) hupdatable).standing hk
  | joins msg performer address l hevent hcontent hfind hadd hk =>
    subst hevent
    simp only [NamedAttachable, hcontent] at hclear
    refine Tended.standing ?_ hk
    exact tended.arrive (unplaced_performerStageProxy _ _ _) ⟨hclear hfind, nofun⟩ hadd
  | creates msg buffer l hevent hcontent _ _ _ _ =>
    subst hevent
    simp only [NamedAttachable, hcontent] at hclear
    have hcalm : ¬ EntityPreserving msg.content := by
      rw [hcontent]
      exact id
    obtain ⟨k, response, hdispatch, rfl⟩ := receive_not_calm hcalm hrun
    unfold ZstStageHierarchy.dispatch at hdispatch
    rw [hcontent] at hdispatch
    refine Tended.standing ?_ (.respond k msg response)
    rcases createEntityHandler_adds hdispatch with rfl | ⟨hadds, hadd⟩
    · exact tended
    · exact tended.arrive (unplaced_unpack buffer) (hclear.2.2 hadds).named hadd
  | forgets path hk => exact (tended.forgets path).standing hk
  | buries e _ hk => exact (tended.buries e).standing hk

theorem opened : Tended ZstStage.opened.hierarchy :=
  ⟨⟨Indexed.opened, rfl, nofun⟩, owned_opened, nofun⟩

end Tended

/-! ## What a request comes to -/

/-- A client asks for an entity, for an update, or for an entity of a factory. -/
def IsRequest : Content → Prop
  | .entityCreateRequest _ | .entityUpdateRequest _ _ | .factoryCreateEntityRequest _ _ => True
  | _ => False

/-- The handler of the request throws where it moves entities. -/
def RequestThrows (h : ZstHierarchy) (sender : EntityId) : Content → Prop
  | .entityCreateRequest buffer => Adds h buffer (some sender) ∧
    ∃ p, h.findEntity buffer.uri.parent = some p ∧ (h.entities p).isComponent = true ∧
      buffer.uri ∉ (h.entities p).children ∧ Nameless (Entity.unpack buffer)
  | .entityUpdateRequest buffer originalPath =>
    ∃ e, h.findEntity originalPath = some e ∧ UpdateThrows h e buffer
  | _ => False

/-- The lookup and every child set are what they were. -/
def SameLookupAndChildren (h k : ZstHierarchy) : Prop :=
  k.lookup = h.lookup ∧ ∀ e, (k.entities e).children = (h.entities e).children

def answer (msg : ZstStageMessage) (signal : Signal) : Outgoing :=
  { target := msg.originEndpointUUID, content := .signalMessage signal, msgID := some msg.id }

/-- The last message that is sent is the answer, and an error has changed nothing. -/
def AnsweredLast (h k : ZstHierarchy) (msg : ZstStageMessage) : Prop :=
  ∃ signal sent, h.sent <+: sent ∧ k.sent = sent ++ [answer msg signal] ∧
    (signal ≠ .ok → SameLookupAndChildren h k)

/-- The request is sent on to a performer, whose response is waited for. -/
def Forwards (h k : ZstHierarchy) (msg : ZstStageMessage) : Prop :=
  ∃ m, k.sent = h.sent ++ [m] ∧ m.content = msg.content ∧ m.onRecvResponse.isSome = true

structure RequestHandled (h : ZstHierarchy) (msg : ZstStageMessage) (sender : EntityId) : Prop where
  returns : ¬ RequestThrows h sender msg.content
  answered : ∃ k, onReceiveMsg h msg = .ok k ∧ (AnsweredLast h k msg ∨ Forwards h k msg)

section Handlers

variable {h : ZstHierarchy} {msg : ZstStageMessage} {sender : EntityId} {buffer : EntityBuffer}

theorem firstSegment_of_ne {path : ZstURI} (hpath : path ≠ []) :
    firstSegment path = .ok path.first :=
  if_neg hpath

theorem getEntityField_of_ne (hkind : buffer.entityType ≠ .none) :
    getEntityField buffer = .ok buffer :=
  if_neg hkind

/-- The message is answered with whatever signal the handler returns. -/
theorem answers_of_dispatch {k : ZstHierarchy} {signal : Signal}
    (hjoined : getClientFromEndpointUUID h msg.originEndpointUUID = some sender)
    (hdispatch : dispatch h msg (some sender) = .ok (k, signal)) (hsignal : signal ≠ .empty)
    (hsent : h.sent <+: k.sent) (herror : signal ≠ .ok → k = h) :
    ∃ l, onReceiveMsg h msg = .ok l ∧ AnsweredLast h l msg := by
  refine ⟨respond k msg signal, ?_, signal, k.sent, hsent, ?_, fun hnot => ?_⟩
  · unfold onReceiveMsg
    rw [hjoined, hdispatch]
    rfl
  · rw [respond_eq]
    unfold responseMessages
    rw [if_neg hsignal]
    rfl
  · rw [respond_eq, herror hnot]
    exact ⟨rfl, fun _ => rfl⟩

theorem createEntityHandler_answers (tended : Tended h) (hlive : h.live sender = true)
    (hsender : (h.entities sender).uri ≠ []) (hkind : buffer.entityType ≠ .none)
    (huri : buffer.uri ≠ []) (haddable : Adds h buffer (some sender) → Addable h buffer) :
    ∃ k signal, createEntityHandler h buffer (some sender) = .ok (k, signal) ∧
      signal ≠ .empty ∧ h.sent <+: k.sent ∧ (signal ≠ .ok → k = h) := by
  have hderef : h.deref (some sender) = .ok sender := if_pos hlive
  unfold createEntityHandler
  rw [getEntityField_of_ne hkind, hderef]
  simp only [bind, Except.bind, firstSegment_of_ne hsender, firstSegment_of_ne huri]
  split
  · exact ⟨h, _, rfl, nofun, List.prefix_refl _, fun _ => rfl⟩
  · rename_i hfirst
    cases hcreate : h.createProxyEntity buffer with
    | none =>
      simp only
      split
      · exact ⟨h, _, rfl, nofun, List.prefix_refl _, fun _ => rfl⟩
      · exact ⟨h, _, rfl, nofun, List.prefix_refl _, fun _ => rfl⟩
    | some x =>
      have hadds : Adds h buffer (some sender) :=
        ⟨by rw [hcreate]; rfl, sender, rfl, not_not.mp hfirst⟩
      obtain ⟨-, rfl⟩ := createProxyEntity_eq_some hcreate
      have hadded := addProxyEntity_eq stageOverrides (tended.keyed.above _)
        (unplaced_unpack buffer) (haddable hadds).component
      have hfound : (h.arrive (Entity.unpack buffer)).findEntity buffer.uri = some h.next := by
        have hroot : (h.arrive (Entity.unpack buffer)).root = none := tended.marked.indexed.root
        unfold findEntity
        rw [hroot]
        exact Function.update_self ..
      simp only [hadded, hfound]
      exact ⟨_, _, rfl, nofun, List.prefix_refl _, fun hnot => absurd rfl hnot⟩

theorem updateProxyEntity_sent (h : ZstHierarchy) (e : EntityId) (buffer : EntityBuffer) :
    h.sent <+: (h.updateProxyEntity stageOverrides e buffer).sent := by
  have hqueued (k : ZstHierarchy) : k.sent <+: (k.synchronisableHasEvent e).sent :=
    (Standing.synchronisableHasEvent k e).sent
  have hnamed (k : ZstHierarchy) (name : ZstURI) :
      (setName stageOverrides k e name).sent = k.sent :=
    (TreeEdit.setName TreeEdit.stage_activation (fun k _ _ => .refl k) k e name).sent
  obtain ⟨k, hk, hupdate⟩ := updateProxyEntity_cases stageOverrides h e buffer
  have hcreatables : h.sent <+: k.sent := by
    rcases hk with rfl | ⟨-, -, rfl⟩
    · exact List.prefix_refl _
    · exact hqueued (h.modify e _)
  rcases hupdate with hupdate | ⟨-, -, hupdate⟩
  · rwa [hupdate]
  · rw [hupdate]
    exact hcreatables.trans (hnamed k buffer.uri.last ▸ List.prefix_refl _)

theorem updateEntityHandler_answers (h : ZstHierarchy) (sender : EntityId)
    (hkind : buffer.entityType ≠ .none) (originalPath : ZstURI) :
    ∃ k, updateEntityHandler h buffer originalPath (some sender) = .ok (k, .ok) ∧
      h.sent <+: k.sent := by
  unfold updateEntityHandler
  rw [getEntityField_of_ne hkind]
  simp only [bind, Except.bind]
  split
  · exact ⟨h, rfl, List.prefix_refl _⟩
  · rename_i e _
    refine ⟨_, rfl, ?_⟩
    rw [broadcast_eq]
    exact (updateProxyEntity_sent h e buffer).trans (List.prefix_append _ _)

theorem factoryCreateEntityHandler_answers (tended : Tended h) (msg : ZstStageMessage)
    (sender : EntityId) (creatable : ZstURI) (name : String) :
    (∃ signal, factoryCreateEntityHandler h msg creatable name (some sender) = .ok (h, signal) ∧
      signal ≠ .empty) ∨
    ∃ k m, factoryCreateEntityHandler h msg creatable name (some sender) = .ok (k, .empty) ∧
      k.sent = h.sent ++ [m] ∧ m.content = .factoryCreateEntityRequest creatable name ∧
        m.onRecvResponse.isSome = true := by
  unfold factoryCreateEntityHandler
  simp only
  split
  · exact Or.inl ⟨_, rfl, nofun⟩
  · rename_i factory hfactory
    have hpath : creatable.parent ≠ [] := by
      intro hempty
      have hfound := (Option.filter_eq_some_iff.mp hfactory).1
      rw [hempty, tended.keyed.nowhere] at hfound
      cases hfound
    simp only [bind, Except.bind, firstSegment_of_ne hpath]
    split
    · exact Or.inl ⟨_, rfl, nofun⟩
    · rename_i performer hperformer
      obtain ⟨proxy, hproxy⟩ := Option.isSome_iff_exists.mp (findStageProxy_isSome hperformer)
      refine Or.inr ⟨_,
        { target := proxy.originEndpointUUID
          content := .factoryCreateEntityRequest creatable name
          onRecvResponse := some (.factoryEntityCreated (some sender) creatable.parent msg.id) },
        rfl, ?_, rfl, rfl⟩
      unfold whisperTo
      rw [hproxy]
      rfl

/-- In a stage where everybody has a name, a clear request is handled. -/
theorem handled_of_clear {s : ZstSession} (tended : Tended s.hierarchy)
    (hrequest : IsRequest msg.content)
    (hjoined : getClientFromEndpointUUID s.hierarchy msg.originEndpointUUID = some sender)
    (hclear : NamedAttachable s (.receive msg)) : RequestHandled s.hierarchy msg sender := by
  have hproxy : sender ∈ s.hierarchy.proxies :=
    List.mem_of_mem_filter (List.mem_of_find?_eq_some hjoined)
  have hlt := tended.owned.allocated sender hproxy
  have hsender : (s.hierarchy.entities sender).uri ≠ [] := by
    intro hempty
    apply (tended.marked.named sender hlt).last
    rw [hempty]
    rfl
  cases hcontent : msg.content with
  | entityCreateRequest buffer =>
    simp only [NamedAttachable, hcontent, hjoined] at hclear
    obtain ⟨hkind, huri, haddable⟩ := hclear
    constructor
    · rw [hcontent]
      rintro ⟨hadds, p, -, -, -, hnameless⟩
      exact (haddable hadds).named.not_nameless hnameless
    · obtain ⟨k, signal, hrun, hsignal, hsent, herror⟩ := createEntityHandler_answers tended
        (tended.alive sender hproxy) hsender hkind huri haddable
      have hdispatch : dispatch s.hierarchy msg (some sender) = .ok (k, signal) := by
        unfold dispatch
        rw [hcontent]
        exact hrun
      obtain ⟨l, hl, hanswers⟩ := answers_of_dispatch hjoined hdispatch hsignal hsent herror
      exact ⟨l, hl, Or.inl hanswers⟩
  | entityUpdateRequest buffer originalPath =>
    simp only [NamedAttachable, hcontent] at hclear
    obtain ⟨hkind, hupdatable⟩ := hclear
    constructor
    · rw [hcontent]
      rintro ⟨e, hfind, hthrows⟩
      have hupdates := hupdatable e hfind
      rw [tended.marked.indexed.findEntity_eq] at hfind
      exact tended.marked.not_updateThrows (tended.marked.indexed.lt_next hfind) hupdates hthrows
    · obtain ⟨k, hrun, hsent⟩ :=
        updateEntityHandler_answers s.hierarchy sender hkind originalPath
      have hdispatch : dispatch s.hierarchy msg (some sender) = .ok (k, .ok) := by
        unfold dispatch
        rw [hcontent]
        exact hrun
      obtain ⟨l, hl, hanswers⟩ :=
        answers_of_dispatch hjoined hdispatch nofun hsent fun hnot => absurd rfl hnot
      exact ⟨l, hl, Or.inl hanswers⟩
  | factoryCreateEntityRequest creatable name =>
    constructor
    · rw [hcontent]
      exact id
    · rcases factoryCreateEntityHandler_answers tended msg sender creatable name with
        ⟨signal, hrun, hsignal⟩ | ⟨k, m, hrun, hsent, hforwarded, hcallback⟩
      · have hdispatch : dispatch s.hierarchy msg (some sender) = .ok (s.hierarchy, signal) := by
          unfold dispatch
          rw [hcontent]
          exact hrun
        obtain ⟨l, hl, hanswers⟩ := answers_of_dispatch hjoined hdispatch hsignal
          (List.prefix_refl _) fun _ => rfl
        exact ⟨l, hl, Or.inl hanswers⟩
      · refine ⟨k, ?_, Or.inr ⟨m, hsent, hforwarded.trans hcontent.symm, hcallback⟩⟩
        have hdispatch : dispatch s.hierarchy msg (some sender) = .ok (k, .empty) := by
          unfold dispatch
          rw [hcontent]
          exact hrun
        unfold onReceiveMsg
        rw [hjoined, hdispatch]
        rfl
  | _ =>
    rw [hcontent] at hrequest
    cases hrequest

end Handlers

/-- **Requests for entities.** In every run of the stage whose messages are clear, the
request of a joined client is answered or sent on, nothing is dereferenced that is not
there, and an error has changed neither the lookup nor a child set. -/
theorem requests_handled (events : List StageEvent) (s : ZstSession) (msg : ZstStageMessage)
    (sender : EntityId) (hrun : run ZstStage.step ZstStage.opened events = .ok s)
    (halong : Along ZstStage.step NamedAttachable ZstStage.opened events)
    (hrequest : IsRequest msg.content)
    (hjoined : getClientFromEndpointUUID s.hierarchy msg.originEndpointUUID = some sender)
    (hclear : NamedAttachable s (.receive msg)) : RequestHandled s.hierarchy msg sender := by
  have hstep (s : ZstSession) (event : StageEvent) (t : ZstSession) (hs : Tended s.hierarchy)
      (hclear : NamedAttachable s event) (hstep : ZstStage.step s event = .ok t) :
      Tended t.hierarchy :=
    hs.step hclear hstep
  have tended : Tended s.hierarchy := run_invariant hstep Tended.opened halong hrun
  exact handled_of_clear tended hrequest hjoined hclear

/-- A request of the client at endpoint 1 to create an entity. -/
def creating (entityType : ZstEntityType) (uri : ZstURI) : ZstStageMessage :=
  { content := .entityCreateRequest { entityType, uri }, id := 7, originEndpointUUID := 1 }

theorem requests_handled_synth :
    ∃ s, run ZstStage.step ZstStage.opened [joining "ada" 1] = .ok s ∧
      RequestHandled s.hierarchy (creating .component ["ada", "synth"]) 0 := by
  refine ⟨_, rfl, requests_handled [joining "ada" 1] _ _ 0 rfl ?_ trivial rfl ?_⟩
  · exact ⟨fun _ => by decide, fun _ _ => trivial⟩
  · refine ⟨nofun, by decide, fun _ => ⟨⟨by decide, nofun⟩, fun p hp => ?_⟩⟩
    obtain rfl := Option.some.inj hp
    rfl

/-- A component below a plug: the plug is cast to a component, and the result is used. -/
theorem component_below_plug :
    ¬ ∀ (events : List StageEvent) (s : ZstSession) (msg : ZstStageMessage) (sender : EntityId),
      run ZstStage.step ZstStage.opened events = .ok s → IsRequest msg.content →
        getClientFromEndpointUUID s.hierarchy msg.originEndpointUUID = some sender →
          RequestHandled s.hierarchy msg sender := by
  intro hall
  have hhandled := hall [joining "ada" 1, .receive (creating .plug ["ada", "out"])] _
    (creating .component ["ada", "out", "synth"]) 0 rfl trivial rfl
  obtain ⟨k, hk, -⟩ := hhandled.answered
  cases hk

end Showtime.Requests
