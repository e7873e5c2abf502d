import Showtime.Footprint
import Showtime.CableSets
/-!
# What stays with an entity

Most of what the stage does to an entity concerns its place, its owner, its
status and who listens to it. The rest of the entity is written in few places.
-/

namespace Showtime

open ZstHierarchy ZstStageHierarchy ZstStageSession ZstStage

namespace ZstHierarchy

/-- An entity without its place, its owner, its status and its listeners. -/
def inert (x : Entity) : Entity :=
  { x with
    uri := []
    parentAddress := []
    currentOwner := []
    registered := false
    sessionAdaptor := false
    isProxy := false
    syncStatus := .deactivated
    synchronisableEvents := []
    children := []
    stageProxy := none
    canFire := false
    creatables := [] }

/-- Every entity that was there keeps this of itself. -/
structure KeepsField {β : Type} (f : Entity → β) (h k : ZstHierarchy) : Prop where
  next : h.next ≤ k.next
  field : ∀ e < h.next, f (k.entities e) = f (h.entities e)

namespace KeepsField

variable {β : Type} {f : Entity → β} {h k l : ZstHierarchy}

theorem refl (h : ZstHierarchy) : KeepsField f h h :=
  ⟨Nat.le_refl _, fun _ _ => rfl⟩

theorem trans (hk : KeepsField f h k) (kl : KeepsField f k l) : KeepsField f h l :=
  ⟨Nat.le_trans hk.next kl.next, fun e he =>
    (kl.field e (Nat.lt_of_lt_of_le he hk.next)).trans (hk.field e he)⟩

theorem of_entities (hnext : k.next = h.next) (hentities : k.entities = h.entities) :
    KeepsField f h k :=
  ⟨Nat.le_of_eq hnext.symm, fun e _ => by rw [hentities]⟩

theorem of_field (hnext : k.next = h.next)
    (hfield : ∀ e, f (k.entities e) = f (h.entities e)) : KeepsField f h k :=
  ⟨Nat.le_of_eq hnext.symm, fun e _ => hfield e⟩

theorem modify_field (h : ZstHierarchy) (e : EntityId) (g : Entity → Entity)
    (hg : ∀ x, f (g x) = f x) : KeepsField f h (h.modify e g) := by
  refine of_field rfl fun d => ?_
  rw [modify_entities]
  split
  · rename_i hde
    rw [hg, hde]
  · rfl

theorem foldl {α : Type} {g : ZstHierarchy → α → ZstHierarchy} (hg : ∀ h a, KeepsField f h (g h a))
    (items : List α) (h : ZstHierarchy) : KeepsField f h (items.foldl g h) := by
  induction items generalizing h with
  | nil => exact .refl h
  | cons a items ih => exact (hg h a).trans (ih (g h a))

theorem sends (h : ZstHierarchy) (sent : List Outgoing) : KeepsField f h { h with sent } :=
  .of_entities rfl rfl

theorem whisperTo (h : ZstHierarchy) (performer : EntityId) (content : Content)
    (msgID : Option ZstMsgID) (action : Option ResponseAction) :
    KeepsField f h (ZstStageHierarchy.whisperTo h performer content msgID action) := by
  rw [whisperTo_eq]
  exact .sends h _

theorem broadcast (h : ZstHierarchy) (content : Content) (excluded : Option EntityId) :
    KeepsField f h (ZstStageHierarchy.broadcast h content excluded) := by
  rw [broadcast_eq]
  exact .sends h _

theorem respond (h : ZstHierarchy) (msg : ZstStageMessage) (response : Signal) :
    KeepsField f h (ZstStageHierarchy.respond h msg response) := by
  rw [respond_eq]
  exact .sends h _

theorem synchronisableHasEvent (h : ZstHierarchy) (e : EntityId) :
    KeepsField f h (h.synchronisableHasEvent e) := by
  unfold ZstHierarchy.synchronisableHasEvent
  split
  · exact .of_entities rfl rfl
  · exact .refl h

section Inert

variable (hf : ∀ x, f (inert x) = f x)

include hf

theorem eq_of_inert {x y : Entity} (hxy : inert x = inert y) : f x = f y := by
  rw [← hf x, hxy, hf]

theorem modify (h : ZstHierarchy) (e : EntityId) (g : Entity → Entity)
    (hg : ∀ x, inert (g x) = inert x) : KeepsField f h (h.modify e g) :=
  .modify_field h e g fun x => eq_of_inert hf (hg x)

theorem of_treeEdit (hk : TreeEdit h k) : KeepsField f h k :=
  .of_field hk.next (hk.field f fun _ => eq_of_inert hf rfl)

theorem setActivationStatus (h : ZstHierarchy) (e : EntityId) (status : ZstSyncStatus) :
    KeepsField f h (h.setActivationStatus e status) :=
  .modify hf h e _ fun _ => rfl

theorem enqueueDeactivation (h : ZstHierarchy) (e : EntityId) :
    KeepsField f h (h.enqueueDeactivation e) := by
  unfold ZstHierarchy.enqueueDeactivation
  split
  · refine .trans ?_ (synchronisableHasEvent _ e)
    refine (setActivationStatus hf h e .deactivationQueued).trans ?_
    exact .modify hf _ e _ fun _ => rfl
  · exact .refl h

theorem deactivateEntityBase (h : ZstHierarchy) (e : EntityId) :
    KeepsField f h (h.deactivateEntityBase e) := by
  unfold ZstHierarchy.deactivateEntityBase
  split
  · exact .refl h
  · exact setActivationStatus hf h e _

theorem removeProxyEntity (h : ZstHierarchy) (e : EntityId) :
    KeepsField f h (h.removeProxyEntity stageOverrides e) := by
  unfold ZstHierarchy.removeProxyEntity
  split
  · refine (of_treeEdit hf (SameProxies.removeFromParent h e)).trans ?_
    unfold destroyEntityComplete
    refine .trans ?_ (foldl (enqueueDeactivation hf) _ _)
    exact .of_entities rfl rfl
  · exact .refl h

theorem updateProxyEntity (h : ZstHierarchy) (e : EntityId) (buffer : EntityBuffer) :
    KeepsField f h (h.updateProxyEntity stageOverrides e buffer) := by
  obtain ⟨k, hk, hupdate⟩ := updateProxyEntity_cases stageOverrides h e buffer
  have hcreatables : KeepsField f h k := by
    rcases hk with rfl | ⟨-, -, rfl⟩
    · exact .refl k
    · exact (modify hf h e (fun x => { x with creatables := buffer.creatables })
        fun _ => rfl).trans (synchronisableHasEvent _ e)
  rcases hupdate with hupdate | ⟨-, -, hupdate⟩
  · rwa [hupdate]
  · rw [hupdate]
    refine (hcreatables.trans (of_treeEdit hf (TreeEdit.setName TreeEdit.stage_activation
      (fun h _ _ => .refl h) k e buffer.uri.last))).trans ?_
    exact .of_entities rfl rfl

theorem announce (h : ZstHierarchy) (e : EntityId) :
    KeepsField f h (h.announce e) ∧ (h.announce e).proxies = h.proxies ++ [e] := by
  unfold ZstHierarchy.announce
  have hmarked : KeepsField f h ((h.getChildEntities e).foldl (fun h c =>
        (h.setProxy c).setActivationStatus c .activated) h) ∧
      ((h.getChildEntities e).foldl (fun h c =>
        (h.setProxy c).setActivationStatus c .activated) h).proxies = h.proxies := by
    refine List.foldlRecOn (motive := fun (k : ZstHierarchy) => KeepsField f h k ∧
      k.proxies = h.proxies) _ _ ⟨.refl h, rfl⟩ fun k hk c _ => ⟨?_, hk.2⟩
    exact (hk.1.trans (modify hf k c (fun x => { x with isProxy := true }) fun _ => rfl)).trans
      (setActivationStatus hf _ c _)
  generalize (h.getChildEntities e).foldl (fun h c =>
    (h.setProxy c).setActivationStatus c .activated) h = k at hmarked ⊢
  exact ⟨hmarked.1.trans (.of_entities rfl rfl), congrArg (· ++ [e]) hmarked.2⟩

/-- A new proxy leaves everybody else alone, and keeps what it came with. -/
theorem addProxyEntity {x : Entity}
    (hrun : ZstHierarchy.addProxyEntity stageOverrides h x = .ok k) :
    KeepsField f h k ∧ f (k.entities h.next) = f x ∧ k.proxies = h.proxies ++ [h.next] := by
  have hcases := addProxyEntity_cases stageOverrides h x
  simp only at hcases
  rw [hrun] at hcases
  have halloc : ∀ e, ((h.alloc x).1.setProxy h.next).entities e =
      if e = h.next then { x with isProxy := true } else h.entities e := fun e => by
    simp only [ZstHierarchy.setProxy, alloc, modify_entities, Function.update_self]
    split
    · rfl
    · rename_i hne
      rw [Function.update_of_ne hne]
  have hnext : h.next < ((h.alloc x).1.setProxy h.next).next := Nat.lt_succ_self h.next
  have hfinish : ∀ l, TreeEdit ((h.alloc x).1.setProxy h.next) l →
      k = (l.registerEntity h.next).announce h.next →
      KeepsField f h k ∧ f (k.entities h.next) = f x ∧ k.proxies = h.proxies ++ [h.next] := by
    rintro l hl rfl
    have hedit := hl.trans (TreeEdit.registerEntity l h.next)
    obtain ⟨hkeeps, hproxies⟩ := announce hf (l.registerEntity h.next) h.next
    have hall := (of_treeEdit hf hedit).trans hkeeps
    refine ⟨⟨Nat.le_trans (Nat.le_of_lt hnext) hall.next, fun e he => ?_⟩, ?_, ?_⟩
    · rw [hall.field e (Nat.lt_trans he hnext), halloc, if_neg (Nat.ne_of_lt he)]
    · rw [hall.field _ hnext, halloc, if_pos rfl]
      exact eq_of_inert hf rfl
    · rw [hproxies, hedit.proxies]
      rfl
  split at hcases
  · split at hcases
    · exact hfinish _ (TreeEdit.addChild TreeEdit.stage_activation _ _ _ true)
        (Except.ok.inj hcases)
    · cases hcases
  · exact hfinish _ (.refl _) (Except.ok.inj hcases)

theorem onSynchronisableDestroyed (h : ZstHierarchy) (e : EntityId) (alreadyRemoved : Bool) :
    KeepsField f h (ZstHierarchy.onSynchronisableDestroyed stageOverrides h e alreadyRemoved) := by
  have hbase : KeepsField f h
      (if (h.entities e).isActivated ∨ (h.entities e).syncStatus = .destroyed
      then stageOverrides.deactivateEntity h e
        (if alreadyRemoved then .publish else .syncReply) else h) := by
    split
    · exact deactivateEntityBase hf h e
    · exact .refl h
  unfold ZstHierarchy.onSynchronisableDestroyed
  dsimp only
  generalize (if (h.entities e).isActivated ∨ (h.entities e).syncStatus = .destroyed
    then stageOverrides.deactivateEntity h e
      (if alreadyRemoved then .publish else .syncReply) else h) = k at hbase ⊢
  split
  · exact hbase.trans (.of_entities rfl rfl)
  · refine (hbase.trans ?_).trans (setActivationStatus hf _ e .destroyed)
    exact .of_entities rfl rfl

theorem cleanup (h : ZstHierarchy) (e : EntityId) :
    KeepsField f h (ZstHierarchy.cleanup stageOverrides h e) := by
  have hdelete : ∀ k : ZstHierarchy, KeepsField f k (deleteEntity stageOverrides k e) := fun k => by
    have hcomponent : KeepsField f k (destroyComponent stageOverrides k e) := by
      unfold destroyComponent
      refine .trans (foldl (fun h c => ?_) _ _) (modify hf _ e _ fun _ => rfl)
      split
      · exact deactivateEntityBase hf h c
      · exact .refl h
    unfold deleteEntity destroyEntityBase
    dsimp only
    split
    · exact (hcomponent.trans (onSynchronisableDestroyed hf _ e true)).trans
        (.of_entities rfl rfl)
    · exact hcomponent.trans (.of_entities rfl rfl)
  unfold ZstHierarchy.cleanup
  split
  · exact .refl h
  · dsimp only
    split
    · refine .trans ?_ (hdelete _)
      exact .of_entities rfl rfl
    · exact .of_entities rfl rfl

theorem reapAll (fuel : Nat) (h : ZstHierarchy) :
    KeepsField f h (ZstHierarchy.reapAll stageOverrides fuel h) := by
  refine reapAll_rule stageOverrides (P := KeepsField f h) ?_ fuel (.refl h)
  intro k e rest hk _
  have hpopped : KeepsField f k { k with cleanupOps := rest } := .of_entities rfl rfl
  exact (hk.trans hpopped).trans (cleanup hf _ e)

theorem subscribe (h : ZstHierarchy) (output input : EntityId) :
    KeepsField f h (ZstStageSession.subscribe h output input) :=
  modify hf h output _ fun _ => rfl

theorem registerEntity (s : ZstSession) (e : EntityId) :
    KeepsField f s.hierarchy (s.registerEntity e).hierarchy :=
  foldl (fun h c => modify hf h c (fun x => { x with sessionAdaptor := true }) fun _ => rfl) _ _

theorem setOwner (h : ZstHierarchy) (e : EntityId) (owner : ZstURI) :
    KeepsField f h (h.modify e fun x => ZstStageSession.setOwner x owner) := by
  refine modify hf h e (fun x => ZstStageSession.setOwner x owner) fun x => ?_
  unfold ZstStageSession.setOwner
  split <;> rfl

end Inert

/-! ## Steps of the session -/

section Steps

variable {s t : ZstSession} (hf : ∀ x, f (inert x) = f x)

theorem cableConnectFinished {cable : CableId} {sender : EntityId} {id : ZstMsgID}
    {signal : Signal} (hrun : ZstStageSession.cableConnectFinished s cable sender id signal = .ok t) :
    KeepsField f s.hierarchy t.hierarchy := by
  obtain ⟨told, htold, -, rfl⟩ := cableConnectFinished_succeeded hrun
  refine .trans ?_ (whisperTo told sender _ _ _)
  rcases htold with ⟨-, -, rfl⟩ | ⟨-, rfl⟩
  · exact broadcast s.hierarchy _ none
  · exact .refl _

theorem connectClients (s : ZstSession) (output input : EntityId) (action : ConnectAction) :
    KeepsField f s.hierarchy (ZstStageSession.connectClients s output input action).hierarchy := by
  rw [connectClients_eq]
  exact .sends _ _

theorem observeEntityHandler {msg : ZstStageMessage} {path : ZstURI} {sender : EntityId}
    {response : Signal}
    (hrun : ZstStageSession.observeEntityHandler s msg path sender = .ok (t, response)) :
    KeepsField f s.hierarchy t.hierarchy := by
  by_cases hpath : path = []
  · unfold ZstStageSession.observeEntityHandler firstSegment at hrun
    rw [if_pos hpath] at hrun
    cases hrun
  rw [ConnectReplies.observeEntityHandler_eq s msg path sender hpath] at hrun
  split at hrun
  · obtain ⟨rfl, -⟩ := Prod.mk.inj (Except.ok.inj hrun)
    exact .refl _
  · split at hrun
    · obtain ⟨rfl, -⟩ := Prod.mk.inj (Except.ok.inj hrun)
      exact .refl _
    · split at hrun
      · obtain ⟨rfl, -⟩ := Prod.mk.inj (Except.ok.inj hrun)
        exact .refl _
      · obtain ⟨rfl, -⟩ := Prod.mk.inj (Except.ok.inj hrun)
        exact connectClients s _ _ _

include hf

theorem onRecvResponse {action : ResponseAction} {response : Option Content}
    (hrun : ZstStageSession.onRecvResponse s action response = .ok t) :
    KeepsField f s.hierarchy t.hierarchy := by
  unfold ZstStageSession.onRecvResponse at hrun
  split at hrun
  · obtain ⟨k, hfactory, hrun⟩ := Library.bind_ok.mp hrun
    obtain rfl := Except.ok.inj hrun
    unfold factoryEntityCreated at hfactory
    obtain ⟨performer, -, hfactory⟩ := Library.bind_ok.mp hfactory
    obtain rfl := Except.ok.inj hfactory
    dsimp only
    split
    · exact whisperTo _ _ _ _ _
    · exact (whisperTo _ _ _ _ _).trans (whisperTo _ _ _ _ _)
  · rename_i output input follow
    by_cases hok : verifySignal response .ok = true
    · obtain ⟨-, -, hfollow⟩ := clientsConnected_succeeded hok hrun
      have hsubscribed :
          KeepsField f s.hierarchy (completeClientConnection s output input).hierarchy := by
        rw [completeClientConnection_eq]
        exact (subscribe hf s.hierarchy output input).trans (.sends _ _)
      refine hsubscribed.trans ?_
      cases follow with
      | none =>
        obtain rfl := Except.ok.inj hfollow
        exact .refl _
      | cable cable sender id => exact cableConnectFinished hfollow
      | observe sender id =>
        unfold onConnected at hfollow
        obtain ⟨sender, -, hreply⟩ := Library.bind_ok.mp hfollow
        obtain rfl := Except.ok.inj hreply
        exact whisperTo _ sender _ _ _
    · unfold clientsConnected at hrun
      rw [if_neg hok] at hrun
      obtain rfl := Except.ok.inj hrun
      exact .refl _
  · obtain rfl := Except.ok.inj hrun
    exact .refl _

theorem aquireEntityOwnershipHandler {path newOwner : ZstURI} {response : Signal}
    (hrun : ZstStageSession.aquireEntityOwnershipHandler s path newOwner = .ok (t, response)) :
    KeepsField f s.hierarchy t.hierarchy := by
  unfold ZstStageSession.aquireEntityOwnershipHandler at hrun
  split at hrun
  · obtain ⟨rfl, -⟩ := Prod.mk.inj (Except.ok.inj hrun)
    exact .refl _
  · rename_i entity hentity
    dsimp only at hrun
    split at hrun
    · obtain ⟨receivers, -, hrun⟩ := Library.bind_ok.mp hrun
      obtain ⟨rfl, -⟩ := Prod.mk.inj (Except.ok.inj hrun)
      exact (setOwner hf s.hierarchy entity []).trans (broadcast _ _ none)
    · split at hrun
      · obtain ⟨rfl, -⟩ := Prod.mk.inj (Except.ok.inj hrun)
        exact .refl _
      · rename_i owner howner
        obtain ⟨receivers, -, hrun⟩ := Library.bind_ok.mp hrun
        obtain ⟨rfl, -⟩ := Prod.mk.inj (Except.ok.inj hrun)
        refine (setOwner hf s.hierarchy entity (s.hierarchy.entities owner).uri).trans ?_
        rw [foldl_connectClients_eq]
        exact (sends _ _).trans (broadcast _ _ none)

/-- A message for the session that asks for no cable and for the end of none. -/
theorem sessionDispatch {msg : ZstStageMessage} {sender : EntityId} {response : Signal}
    (hcable : ¬ CableSets.IsCableRequest msg.content)
    (hrun : ZstStageSession.dispatch s msg sender = .ok (t, response)) :
    t = { s with hierarchy := t.hierarchy } ∧ KeepsField f s.hierarchy t.hierarchy := by
  unfold ZstStageSession.dispatch at hrun
  cases hcontent : msg.content with
  | signalMessage signal =>
    rw [hcontent] at hrun
    obtain rfl : (ZstStageSession.signalHandler s signal sender).1 = t :=
      congrArg Prod.fst (Except.ok.inj hrun)
    unfold ZstStageSession.signalHandler
    split
    · refine ⟨rfl, ?_⟩
      unfold synchroniseClientGraphHandler
      dsimp only
      refine .trans ?_ (foldl (fun h c => whisperTo h sender _ _ _) _ _)
      exact foldl (fun h c => whisperTo h sender _ _ _) _ _
    · exact ⟨rfl, .refl _⟩
  | entityObserveRequest path =>
    rw [hcontent] at hrun
    exact ⟨(Cabling.observeEntityHandler_hushed hrun).1, observeEntityHandler hrun⟩
  | entityTakeOwnershipRequest path owner =>
    rw [hcontent] at hrun
    exact ⟨(Cabling.aquireEntityOwnershipHandler_hushed hrun).1,
      aquireEntityOwnershipHandler hf hrun⟩
  | cableCreateRequest | cableDestroyRequest =>
    rw [hcontent] at hcable
    exact absurd trivial hcable
  | _ =>
    rw [hcontent] at hrun
    obtain ⟨rfl, -⟩ := Prod.mk.inj (Except.ok.inj hrun)
    exact ⟨rfl, .refl _⟩

theorem sessionReceive {msg : ZstStageMessage} (hcable : ¬ CableSets.IsCableRequest msg.content)
    (hrun : ZstStageSession.onReceiveMsg s msg = .ok t) :
    t = { s with hierarchy := t.hierarchy } ∧ KeepsField f s.hierarchy t.hierarchy := by
  unfold ZstStageSession.onReceiveMsg at hrun
  split at hrun
  · obtain rfl := Except.ok.inj hrun
    exact ⟨rfl, .refl _⟩
  · obtain ⟨⟨u, response⟩, hdispatch, hrespond⟩ := Library.bind_ok.mp hrun
    obtain rfl := Except.ok.inj hrespond
    obtain ⟨hu, hkeeps⟩ := sessionDispatch hf hcable hdispatch
    refine ⟨?_, hkeeps.trans (respond u.hierarchy msg response)⟩
    simp only [onHierarchy]
    rw [hu]

/-- No handler of the hierarchy writes anything else, but for the one that
notes a heartbeat. -/
theorem hierarchyDispatch {h k : ZstHierarchy} {msg : ZstStageMessage} {sender : Option EntityId}
    {response : Signal} (hbeat : msg.content ≠ .signalMessage .clientHeartbeat)
    (hrun : ZstStageHierarchy.dispatch h msg sender = .ok (k, response)) : KeepsField f h k := by
  unfold ZstStageHierarchy.dispatch at hrun
  cases hcontent : msg.content with
  | signalMessage signal =>
    rw [hcontent] at hrun hbeat
    obtain rfl : (ZstStageHierarchy.signalHandler h signal sender).1 = k :=
      congrArg Prod.fst (Except.ok.inj hrun)
    have hsignal : signal ≠ .clientHeartbeat := fun heq => hbeat (by rw [heq])
    unfold ZstStageHierarchy.signalHandler
    cases sender with
    | none => exact .refl h
    | some sender =>
      dsimp only
      rw [if_neg hsignal]
      exact .refl h
  | clientJoinRequest performer address =>
    rw [hcontent] at hrun
    rcases createClientHandler_ok hrun with rfl | ⟨-, hadd⟩
    · exact .refl _
    · exact (addProxyEntity hf hadd).1
  | clientLeaveRequest path reason =>
    rw [hcontent] at hrun
    unfold clientLeavingHandler at hrun
    obtain ⟨e, -, hrun⟩ := Library.bind_ok.mp hrun
    obtain ⟨rfl, -⟩ := Prod.mk.inj (Except.ok.inj hrun)
    exact (removeProxyEntity hf h e).trans (broadcast _ _ none)
  | entityCreateRequest buffer =>
    rw [hcontent] at hrun
    rcases createEntityHandler_ok hrun with rfl | ⟨x, -, hadd⟩
    · exact .refl _
    · exact (addProxyEntity hf hadd).1
  | factoryCreateEntityRequest creatable name =>
    rw [hcontent] at hrun
    unfold factoryCreateEntityHandler at hrun
    dsimp only at hrun
    split at hrun
    · obtain ⟨rfl, -⟩ := Prod.mk.inj (Except.ok.inj hrun)
      exact .refl h
    · obtain ⟨first, -, hrun⟩ := Library.bind_ok.mp hrun
      split at hrun
      · obtain ⟨rfl, -⟩ := Prod.mk.inj (Except.ok.inj hrun)
        exact .refl h
      · obtain ⟨rfl, -⟩ := Prod.mk.inj (Except.ok.inj hrun)
        exact whisperTo h _ _ _ _
  | entityUpdateRequest buffer path =>
    rw [hcontent] at hrun
    unfold updateEntityHandler at hrun
    obtain ⟨update, -, hrun⟩ := Library.bind_ok.mp hrun
    split at hrun
    · obtain ⟨rfl, -⟩ := Prod.mk.inj (Except.ok.inj hrun)
      exact .refl h
    · rename_i proxy hfind
      obtain ⟨rfl, -⟩ := Prod.mk.inj (Except.ok.inj hrun)
      exact (updateProxyEntity hf h proxy update).trans (broadcast _ _ _)
  | entityDestroyRequest path =>
    rw [hcontent] at hrun
    obtain rfl : (destroyEntityHandler h path sender).1 = k :=
      congrArg Prod.fst (Except.ok.inj hrun)
    unfold destroyEntityHandler
    split
    · exact .refl h
    · exact (removeProxyEntity hf h _).trans (broadcast _ _ _)
  | _ =>
    rw [hcontent] at hrun
    obtain ⟨rfl, -⟩ := Prod.mk.inj (Except.ok.inj hrun)
    exact .refl h

end Steps

/-! ## Steps of the stage -/

section Uncabled

variable {s t : ZstSession} (hf : ∀ x, f (inert x) = f x)
  (hcables : ∀ x l, f { x with cables := l } = f x)

include hcables

theorem of_replugged (hnext : t.hierarchy.next = s.hierarchy.next)
    (hst : ConnectReplies.Replugged s t) : KeepsField f s.hierarchy t.hierarchy :=
  .of_field hnext (hst.field f fun x => hcables x [])

theorem destroyCables (cables : List CableId) (s : ZstSession) :
    KeepsField f s.hierarchy (cables.foldl ZstStageSession.destroyCable s).hierarchy :=
  of_replugged hcables (Standing.destroyCables cables s).next
    (ConnectReplies.destroyCables_keeps cables s).1

theorem createCableHandler {msg : ZstStageMessage} {path : ZstCableAddress} {sender : EntityId}
    {response : Signal}
    (hrun : ZstStageSession.createCableHandler s msg path sender = .ok (t, response)) :
    KeepsField f s.hierarchy t.hierarchy := by
  rcases Sending.createCableHandler_ok hrun with
    ⟨-, rfl⟩ | ⟨-, input, output, p, q, -, -, -, -, -, hfinish⟩
  · exact .refl _
  · have hplugged : KeepsField f s.hierarchy (ConnectReplies.plugged s input output).hierarchy := by
      refine of_replugged hcables ?_ (ConnectReplies.plugged_keeps s input output).1
      refine (Standing.createCable _ input output).next.trans ?_
      unfold ConnectReplies.makeRoom
      split
      · exact (Standing.destroyCables _ s).next
      · rfl
    split at hfinish
    · exact hplugged.trans (cableConnectFinished hfinish)
    · rw [hfinish]
      exact hplugged.trans (connectClients _ _ _ _)

theorem destroyCableHandler (s : ZstSession) (path : ZstCableAddress) :
    KeepsField f s.hierarchy (ZstStageSession.destroyCableHandler s path).1.hierarchy := by
  unfold ZstStageSession.destroyCableHandler
  split
  · rename_i c hfind
    exact destroyCables hcables [c] s
  · exact .refl _

include hf

theorem receive {msg : ZstStageMessage} (hbeat : msg.content ≠ .signalMessage .clientHeartbeat)
    (hrun : ZstStageSession.receive s msg = .ok t) : KeepsField f s.hierarchy t.hierarchy := by
  obtain ⟨u, hsession, hrun⟩ := Library.bind_ok.mp hrun
  obtain ⟨k, hhierarchy, hrun⟩ := Library.bind_ok.mp hrun
  obtain rfl := Except.ok.inj hrun
  have hfirst : KeepsField f s.hierarchy u.hierarchy := by
    by_cases hcable : CableSets.IsCableRequest msg.content
    · unfold ZstStageSession.onReceiveMsg at hsession
      split at hsession
      · obtain rfl := Except.ok.inj hsession
        exact .refl _
      · obtain ⟨⟨w, response⟩, hdispatch, hrespond⟩ := Library.bind_ok.mp hsession
        obtain rfl := Except.ok.inj hrespond
        refine .trans ?_ (respond w.hierarchy msg response)
        unfold ZstStageSession.dispatch at hdispatch
        cases hcontent : msg.content with
        | cableCreateRequest path =>
          rw [hcontent] at hdispatch
          exact createCableHandler hcables hdispatch
        | cableDestroyRequest path =>
          rw [hcontent] at hdispatch
          obtain rfl : (ZstStageSession.destroyCableHandler s path).1 = w :=
            congrArg Prod.fst (Except.ok.inj hdispatch)
          exact destroyCableHandler hcables s path
        | _ =>
          rw [hcontent] at hcable
          exact hcable.elim
    · exact (sessionReceive hf hcable hsession).2
  refine hfirst.trans ?_
  unfold ZstStageHierarchy.onReceiveMsg at hhierarchy
  obtain ⟨⟨l, response⟩, hdispatch, hrespond⟩ := Library.bind_ok.mp hhierarchy
  obtain rfl := Except.ok.inj hrespond
  exact (hierarchyDispatch hf hbeat hdispatch).trans (respond l msg response)

theorem processHierarchyEvent {event : HierarchyEvent}
    (hrun : ZstStageSession.processHierarchyEvent s event = .ok t) :
    KeepsField f s.hierarchy t.hierarchy := by
  have harriving : ∀ e,
      KeepsField f s.hierarchy (ZstStageSession.onEntityArriving s.hierarchy e) := by
    intro e
    unfold ZstStageSession.onEntityArriving
    dsimp only
    split
    · exact .refl _
    · exact broadcast _ _ _
  cases event with
  | entityArriving e | performerArriving e =>
    obtain ⟨e, -, hrun⟩ := Library.bind_ok.mp hrun
    obtain rfl := Except.ok.inj hrun
    exact (harriving e).trans
      (registerEntity hf (onHierarchy s fun h => ZstStageSession.onEntityArriving h e) e)
  | factoryArriving e =>
    obtain ⟨e, -, hrun⟩ := Library.bind_ok.mp hrun
    obtain rfl := Except.ok.inj hrun
    exact harriving e
  | entityLeaving path | performerLeaving path =>
    obtain rfl := Except.ok.inj hrun
    unfold disconnectCables
    split
    · exact .refl _
    · exact destroyCables hcables _ s
  | factoryLeaving path | entityUpdated e =>
    obtain rfl := Except.ok.inj hrun
    exact .refl _

theorem processEvent (h : ZstHierarchy) (e : EntityId) (event : SynchronisableEvent) :
    KeepsField f h (ZstHierarchy.processEvent stageOverrides h e event) := by
  cases event with
  | activated =>
    refine (setActivationStatus hf h e .activated).trans (modify hf _ e _ fun x => ?_)
    unfold onActivation
    split <;> rfl
  | deactivated =>
    refine (setActivationStatus hf h e .deactivated).trans (modify_field _ e _ fun x => ?_)
    unfold onDeactivation
    split
    · exact hcables x []
    · rfl
  | destroyed => exact onSynchronisableDestroyed hf h e false
  | updated => exact .refl h

theorem processItems (fuel : Nat) (h : ZstHierarchy) :
    KeepsField f h (ZstHierarchy.processItems stageOverrides fuel h) := by
  refine processItems_rule stageOverrides (P := KeepsField f h) ?_ fuel (.refl h)
  intro k e rest hk _
  have hpopped : ∀ freed,
      KeepsField f k { k with synchronisableEvents := rest, freedAccess := freed } :=
    fun _ => .of_entities rfl rfl
  unfold ZstHierarchy.processItem
  split
  · exact hk.trans (hpopped k.freedAccess)
  · refine processOwnEvents_rule stageOverrides (P := KeepsField f h) (fun l event own hl _ => ?_) _
      (hk.trans (hpopped _))
    exact (hl.trans (modify hf l e (fun x => { x with synchronisableEvents := own })
      fun _ => rfl)).trans (processEvent hf hcables _ e event)

/-- Neither a heartbeat nor a tick of the timer. -/
theorem step {event : StageEvent} (htick : event ≠ .heartbeatTimer)
    (hbeat : ∀ msg, event = .receive msg → msg.content ≠ .signalMessage .clientHeartbeat)
    (hrun : ZstStage.step s event = .ok t) : KeepsField f s.hierarchy t.hierarchy := by
  cases event with
  | receive msg => exact receive hf hcables (hbeat msg rfl) hrun
  | respond message response =>
    simp only [ZstStage.step] at hrun
    split at hrun
    · exact onRecvResponse hf hrun
    · obtain rfl := Except.ok.inj hrun
      exact .refl _
  | heartbeatTimer => exact absurd rfl htick
  | hierarchyEvent =>
    simp only [ZstStage.step] at hrun
    split at hrun
    · obtain rfl := Except.ok.inj hrun
      exact .refl _
    · rename_i event rest hevents
      refine .trans ?_ (processHierarchyEvent hf hcables hrun)
      exact .of_entities rfl rfl
  | synchronisableEvent =>
    obtain rfl := Except.ok.inj hrun
    exact processItems hf hcables 1 s.hierarchy
  | cleanup =>
    obtain rfl := Except.ok.inj hrun
    exact reapAll hf 1 s.hierarchy
  | forgetDead =>
    obtain rfl := Except.ok.inj hrun
    exact .of_entities rfl rfl
  | cableEvents =>
    obtain rfl := Except.ok.inj hrun
    rw [Standing.cableEvents_hierarchy]
    exact .refl _

end Uncabled

end KeepsField
end ZstHierarchy
end Showtime
