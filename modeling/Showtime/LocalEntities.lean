import Showtime.Fate
import Showtime.Library.Run
import Showtime.Tree
/-!
# Entities of the application

What an application does with its own entities: it makes them, puts them into
the hierarchy, moves, activates and deactivates them, deletes them, and lets
the client process its events, while the stage answers or does not. This
module asks whether the hierarchy ever holds on to an entity that was deleted.
-/

namespace Showtime

open ZstHierarchy

namespace LocalEntities

open ZstClientHierarchy Library

inductive LocalOperation
  | create (entityType : ZstEntityType) (name : ZstURI) (direction : ZstPlugDirection)
  | registerEntity (entity : EntityId)
  | addChild (parent child : EntityId) (autoActivate : Bool)
  | setName (entity : EntityId) (name : ZstURI)
  | activateEntity (entity : EntityId) (behaviour : SendBehaviour)
  | deactivateEntity (entity : EntityId) (behaviour : SendBehaviour)
  /-- The two destructors that run when an entity is deleted. -/
  | destroyComponent (entity : EntityId)
  | destroyEntityBase (entity : EntityId)
  /-- The response to a message that was sent, `none` for a timeout. -/
  | response (message : Nat) (response : Option Content)
  | processEvents
  deriving DecidableEq, Repr

namespace LocalOperation

/-- The objects that the application passes. -/
def arguments : LocalOperation → List EntityId
  | .registerEntity e | .setName e _ | .activateEntity e _ | .deactivateEntity e _
  | .destroyComponent e | .destroyEntityBase e => [e]
  | .addChild p child _ => [p, child]
  | .create _ _ _ | .response _ _ | .processEvents => []

end LocalOperation

/-- The hierarchy of a client, with the messages whose response has arrived. -/
structure LocalClient where
  hierarchy : ZstHierarchy
  answered : List Nat := []

/-- The callback that waits for the response to a message. -/
def callback (h : ZstHierarchy) (message : Nat) : Option ResponseAction :=
  (h.sent[message]?).bind Outgoing.onRecvResponse

def apply (link : StageLink) (fuel : Nat) (h : ZstHierarchy) : LocalOperation → ZstHierarchy
  | .create entityType uri direction => (h.alloc { entityType, uri, direction }).1
  | .registerEntity e => h.registerEntity e
  | .addChild p child autoActivate => addChild (overrides link fuel) h p child autoActivate
  | .setName e name => setName (overrides link fuel) h e name
  | .activateEntity e behaviour => activateEntity (overrides link fuel) link fuel h e behaviour
  | .deactivateEntity e behaviour => deactivateEntity (overrides link fuel) link fuel h e behaviour
  | .destroyComponent e => destroyComponent (overrides link fuel) h e
  | .destroyEntityBase e => destroyEntityBase (overrides link fuel) h e
  | .response message response =>
    match callback h message with
    | some action => onRecvResponse (overrides link fuel) link h action response
    | none => h
  | .processEvents => ZstClientHierarchy.processEvents (overrides link fuel) fuel h

/-- The application never deletes the root, and a message is answered once. -/
def refused (client : LocalClient) : LocalOperation → Option Fault
  | .destroyComponent e | .destroyEntityBase e =>
    if client.hierarchy.root = some e then some .freedPointer else none
  | .response message _ => if message ∈ client.answered then some .exception else none
  | _ => none

def answeredBy : LocalOperation → List Nat
  | .response message _ => [message]
  | _ => []

/-- One operation. The application only passes objects that it has not deleted. -/
def step (fuel : Nat) (client : LocalClient) (event : StageLink × LocalOperation) :
    Except Fault LocalClient :=
  if event.2.arguments.all client.hierarchy.live then
    match refused client event.2 with
    | some fault => .error fault
    | none =>
      .ok
        { hierarchy := apply event.1 fuel client.hierarchy event.2
          answered := answeredBy event.2 ++ client.answered }
  else .error .freedPointer

/-- A client that has nothing but its root performer. -/
def start (name : ZstURI) : LocalClient where
  hierarchy := ofList [{ entityType := .performer, uri := name, registered := true }] (some 0)

/-! ## The queued events of an entity -/

/-- Events are queued as one activation or as a deactivation with its destruction. -/
inductive EventBlocks : List SynchronisableEvent → Prop
  | nil : EventBlocks []
  | activated {rest} : EventBlocks rest → EventBlocks (.activated :: rest)
  | destroyed {rest} : EventBlocks rest → EventBlocks (.deactivated :: .destroyed :: rest)

theorem EventBlocks.append {first second : List SynchronisableEvent} (hfirst : EventBlocks first)
    (hsecond : EventBlocks second) : EventBlocks (first ++ second) := by
  induction hfirst with
  | nil => exact hsecond
  | activated _ ih => exact .activated ih
  | destroyed _ ih => exact .destroyed ih

theorem EventBlocks.own {events : List SynchronisableEvent} (hblocks : EventBlocks events) :
    OwnEvents events := by
  induction hblocks with
  | nil => exact .nil
  | activated _ ih => exact .activated ih
  | destroyed _ ih => exact .destroyed ih

/-! ## The invariant -/

/-- Nothing that the hierarchy may still follow is deleted. -/
structure Tidy (h : ZstHierarchy) : Prop where
  lookup : ∀ q e, h.lookup q = some e →
    h.live e = true ∧ (h.entities e).registered = true ∧ (h.entities e).uri = q
  root : ∀ r, h.root = some r → h.live r = true ∧ (h.entities r).registered = true
  fresh : ∀ e, h.next ≤ e → h.live e = false ∧ (h.entities e).registered = false
  queue : ∀ e ∈ h.synchronisableEvents, e ∈ h.deadIDs ∨
    h.live e = true ∧ (h.entities e).registered = true ∧ (h.entities e).syncStatus ≠ .destroyed
  events : ∀ e, EventBlocks (h.entities e).synchronisableEvents
  owned : ∀ e, (h.entities e).isProxy = false
  hierarchyEvents : h.hierarchyEvents = []
  cleanupOps : h.cleanupOps = []
  freedAccess : h.freedAccess = false
  requests : ∀ m ∈ h.sent, ∀ e id, m.onRecvResponse = some (.entityActivated e id) →
    (h.entities e).registered = true

/-- No object was made or deleted between the two hierarchies. -/
structure SameAllocation (h k : ZstHierarchy) : Prop where
  live : k.live = h.live
  next : k.next = h.next
  root : k.root = h.root
  registered : ∀ e, (h.entities e).registered = true → (k.entities e).registered = true

theorem SameAllocation.refl (h : ZstHierarchy) : SameAllocation h h :=
  ⟨rfl, rfl, rfl, fun _ he => he⟩

theorem SameAllocation.trans {h k l : ZstHierarchy} (hk : SameAllocation h k)
    (kl : SameAllocation k l) :
    SameAllocation h l :=
  ⟨kl.live.trans hk.live, kl.next.trans hk.next, kl.root.trans hk.root,
    fun e he => kl.registered e (hk.registered e he)⟩

/-- A step that keeps the hierarchy tidy without making or deleting an object. -/
def KeepsTidy (h k : ZstHierarchy) : Prop :=
  Tidy k ∧ SameAllocation h k

theorem KeepsTidy.trans {h k l : ZstHierarchy} (hk : KeepsTidy h k) (kl : KeepsTidy k l) :
    KeepsTidy h l :=
  ⟨kl.1, hk.2.trans kl.2⟩

theorem KeepsTidy.live {h k : ZstHierarchy} (hk : KeepsTidy h k) {e : EntityId}
    (he : h.live e = true) :
    k.live e = true := by
  rw [hk.2.live]
  exact he

/-- A loop keeps what each of its passes keeps. -/
theorem keeps_foldl {α : Type} (f : ZstHierarchy → α → ZstHierarchy) (items : List α)
    {h : ZstHierarchy} (hh : Tidy h)
    (hf : ∀ k, KeepsTidy h k → ∀ a ∈ items, KeepsTidy k (f k a)) : KeepsTidy h (items.foldl f h) :=
  List.foldlRecOn (motive := KeepsTidy h) items f ⟨hh, .refl h⟩
    fun k hk a ha => hk.trans (hf k hk a ha)

namespace Tidy

variable {h : ZstHierarchy} (hh : Tidy h)

include hh

theorem refl : KeepsTidy h h :=
  ⟨hh, .refl h⟩

/-- What is found can be followed. -/
theorem found {q : ZstURI} {e : EntityId} (he : h.findEntity q = some e) :
    h.live e = true ∧ (h.entities e).registered = true := by
  unfold findEntity at he
  cases hroot : h.root with
  | none =>
    rw [hroot] at he
    exact ⟨(hh.lookup q e he).1, (hh.lookup q e he).2.1⟩
  | some r =>
    rw [hroot] at he
    simp only at he
    split at he
    · cases he
      exact hh.root _ hroot
    · exact ⟨(hh.lookup q e he).1, (hh.lookup q e he).2.1⟩

theorem of_mem_childEntities {p c : EntityId} (hc : c ∈ h.childEntities p) :
    h.live c = true ∧ (h.entities c).registered = true := by
  unfold childEntities at hc
  split at hc
  · obtain ⟨q, -, hfind⟩ := List.mem_filterMap.mp hc
    unfold getChildByURI at hfind
    split at hfind
    · exact hh.found hfind
    · cases hfind
  · cases hc

theorem of_mem_getChildEntities {e c : EntityId} (hc : c ∈ h.getChildEntities e) :
    c = e ∨ h.live c = true ∧ (h.entities c).registered = true := by
  have hdepth : ∀ n e, c ∈ h.descendants n e →
      c = e ∨ h.live c = true ∧ (h.entities c).registered = true := by
    intro n
    induction n with
    | zero =>
      intro e hc
      exact Or.inl (List.mem_singleton.mp hc)
    | succ n ih =>
      intro e hc
      rcases List.mem_cons.mp hc with rfl | hc
      · exact Or.inl rfl
      · obtain ⟨d, hd, hcd⟩ := List.mem_flatMap.mp hc
        rcases ih d hcd with rfl | hfound
        · exact Or.inr (hh.of_mem_childEntities hd)
        · exact Or.inr hfound
  exact hdepth _ e hc

theorem live_of_mem_getChildEntities {e c : EntityId} (he : h.live e = true)
    (hc : c ∈ h.getChildEntities e) : h.live c = true := by
  rcases hh.of_mem_getChildEntities hc with rfl | hfound
  · exact he
  · exact hfound.1

/-- An entity and the lookup table may change together. -/
theorem relabel (e : EntityId) (f : Entity → Entity) (lookup : ZstURI → Option EntityId)
    (hlookup : ∀ q d, lookup q = some d → h.live d = true ∧
      ((h.modify e f).entities d).registered = true ∧ ((h.modify e f).entities d).uri = q)
    (hregistered : (h.entities e).registered = true → (f (h.entities e)).registered = true)
    (hlive : (f (h.entities e)).registered = true →
      (h.entities e).registered = true ∨ h.live e = true)
    (hproxy : (f (h.entities e)).isProxy = (h.entities e).isProxy)
    (hevents : EventBlocks (f (h.entities e)).synchronisableEvents)
    (hstatus : (h.entities e).syncStatus ≠ .destroyed →
      (f (h.entities e)).syncStatus ≠ .destroyed) :
    KeepsTidy h { h.modify e f with lookup } := by
  have hregister : ∀ d, (h.entities d).registered = true →
      ((h.modify e f).entities d).registered = true := by
    intro d hd
    rw [modify_entities]
    split
    · rename_i hde
      exact hregistered (hde ▸ hd)
    · exact hd
  refine ⟨{ hh with
    lookup := hlookup
    root := fun r hr => ⟨(hh.root r hr).1, hregister r (hh.root r hr).2⟩
    fresh := fun d hd => ⟨(hh.fresh d hd).1, ?_⟩
    queue := fun d hd => ?_
    events := fun d => ?_
    owned := fun d => ?_
    requests := fun m hm d id hd => hregister d (hh.requests m hm d id hd) },
    rfl, rfl, rfl, hregister⟩
  · obtain ⟨hdead, hnot⟩ := hh.fresh d hd
    change ((h.modify e f).entities d).registered = false
    rw [modify_entities]
    split
    · rename_i hde
      rw [hde] at hdead hnot
      refine Bool.eq_false_iff.mpr fun hreg => ?_
      rcases hlive hreg with hreg | hlive
      · rw [hnot] at hreg
        cases hreg
      · rw [hdead] at hlive
        cases hlive
    · exact hnot
  · rcases hh.queue d hd with hdead | ⟨hlive, hreg, halive⟩
    · exact Or.inl hdead
    · refine Or.inr ⟨hlive, hregister d hreg, ?_⟩
      change ((h.modify e f).entities d).syncStatus ≠ .destroyed
      rw [modify_entities]
      split
      · rename_i hde
        exact hstatus (hde ▸ halive)
      · exact halive
  · change EventBlocks ((h.modify e f).entities d).synchronisableEvents
    rw [modify_entities]
    split
    · exact hevents
    · exact hh.events d
  · change ((h.modify e f).entities d).isProxy = false
    rw [modify_entities]
    split
    · rw [hproxy]
      exact hh.owned e
    · exact hh.owned d

/-- An entity may change in what the hierarchy does not follow. -/
theorem modify (e : EntityId) (f : Entity → Entity)
    (huri : (f (h.entities e)).uri = (h.entities e).uri)
    (hregistered : (f (h.entities e)).registered = (h.entities e).registered)
    (hproxy : (f (h.entities e)).isProxy = (h.entities e).isProxy)
    (hevents : EventBlocks (f (h.entities e)).synchronisableEvents)
    (hstatus : (h.entities e).syncStatus ≠ .destroyed →
      (f (h.entities e)).syncStatus ≠ .destroyed) : KeepsTidy h (h.modify e f) := by
  refine hh.relabel e f h.lookup (fun q d hd => ?_) (fun hreg => hregistered.trans hreg)
    (fun hreg => Or.inl (hregistered.symm.trans hreg)) hproxy hevents hstatus
  obtain ⟨hlive, hreg, hq⟩ := hh.lookup q d hd
  refine ⟨hlive, ?_⟩
  rw [modify_entities]
  split
  · rename_i hde
    rw [hregistered, huri, ← hde]
    exact ⟨hreg, hq⟩
  · exact ⟨hreg, hq⟩

/-- As `modify`, for a change that touches neither the status nor the events. -/
theorem modify_of_same (e : EntityId) (f : Entity → Entity)
    (hf : ∀ x, (f x).uri = x.uri ∧ (f x).registered = x.registered ∧ (f x).isProxy = x.isProxy ∧
      (f x).synchronisableEvents = x.synchronisableEvents ∧ (f x).syncStatus = x.syncStatus) :
    KeepsTidy h (h.modify e f) := by
  obtain ⟨huri, hregistered, hproxy, hevents, hstatus⟩ := hf (h.entities e)
  refine hh.modify e f huri hregistered hproxy ?_ ?_
  · rw [hevents]
    exact hh.events e
  · rw [hstatus]
    exact id

theorem addEntityToLookup {e : EntityId} (hlive : h.live e = true)
    (hregistered : (h.entities e).registered = true) : KeepsTidy h (h.addEntityToLookup e) := by
  refine ⟨{ hh with lookup := fun q d hd => ?_ }, rfl, rfl, rfl, fun _ hd => hd⟩
  by_cases hq : q = (h.entities e).uri
  · rw [hq] at hd ⊢
    have hde : some e = some d := by simpa [ZstHierarchy.addEntityToLookup] using hd
    cases hde
    exact ⟨hlive, hregistered, rfl⟩
  · refine hh.lookup q d ?_
    simpa [ZstHierarchy.addEntityToLookup, Function.update_of_ne hq] using hd

theorem registerEntity {e : EntityId} (hlive : h.live e = true) :
    KeepsTidy h (h.registerEntity e) := by
  refine hh.relabel e (fun x => { x with registered := true })
    (Function.update h.lookup (h.entities e).uri (some e)) (fun q d hd => ?_) (fun _ => rfl)
    (fun _ => Or.inr hlive) rfl (hh.events e) id
  by_cases hq : q = (h.entities e).uri
  · rw [hq, Function.update_self] at hd
    cases hd
    rw [modify_entities_self]
    exact ⟨hlive, rfl, hq.symm⟩
  · rw [Function.update_of_ne hq] at hd
    obtain ⟨hdlive, hreg, huri⟩ := hh.lookup q d hd
    rw [modify_entities]
    split
    · rename_i hde
      exact ⟨hdlive, rfl, hde ▸ huri⟩
    · exact ⟨hdlive, hreg, huri⟩

/-- An entity moves, and its key with it. -/
theorem rekey {e : EntityId} (hlive : h.live e = true) (f : Entity → Entity)
    (hf : ∀ x, (f x).registered = x.registered ∧ (f x).isProxy = x.isProxy ∧
      (f x).synchronisableEvents = x.synchronisableEvents ∧ (f x).syncStatus = x.syncStatus) :
    KeepsTidy h ((h.modify e f).updateURI e (h.entities e).uri) := by
  obtain ⟨hregistered, hproxy, hevents, hstatus⟩ := hf (h.entities e)
  have hmoved : KeepsTidy h (if ((h.modify e f).entities e).registered then
      (h.modify e f).updateEntityInLookup e (h.entities e).uri else h.modify e f) := by
    have hsides : ∀ lookup, (∀ q d, lookup q = some d → h.live d = true ∧
        ((h.modify e f).entities d).registered = true ∧
          ((h.modify e f).entities d).uri = q) → KeepsTidy h { h.modify e f with lookup } := by
      intro lookup hlookup
      refine hh.relabel e f lookup hlookup (fun hreg => hregistered.trans hreg)
        (fun hreg => Or.inl (hregistered.symm.trans hreg)) hproxy ?_ ?_
      · rw [hevents]
        exact hh.events e
      · rw [hstatus]
        exact id
    -- a key other than the entity's old one belongs to somebody else
    have hother : ∀ q d, h.lookup q = some d → d ≠ e → h.live d = true ∧
        ((h.modify e f).entities d).registered = true ∧
          ((h.modify e f).entities d).uri = q := by
      intro q d hd hde
      obtain ⟨hdlive, hreg, huri⟩ := hh.lookup q d hd
      rw [modify_entities, if_neg hde]
      exact ⟨hdlive, hreg, huri⟩
    split
    · rename_i hreg
      refine hsides _ fun q d hd => ?_
      by_cases hq : q = ((h.modify e f).entities e).uri
      · rw [hq] at hd
        simp only [removeEntityFromLookup, Function.update_self, Option.some.injEq] at hd
        rw [← hd]
        exact ⟨hlive, hreg, hq.symm⟩
      · simp only [removeEntityFromLookup, Function.update_of_ne hq] at hd
        by_cases hold : q = (h.entities e).uri
        · rw [hold, Function.update_self] at hd
          cases hd
        · rw [Function.update_of_ne hold] at hd
          refine hother q d hd ?_
          rintro rfl
          exact hold (hh.lookup q d hd).2.2.symm
    · rename_i hreg
      refine hsides h.lookup fun q d hd => hother q d hd ?_
      rintro rfl
      rw [modify_entities_self, hregistered] at hreg
      exact hreg (hh.lookup q d hd).2.1
  unfold ZstHierarchy.updateURI
  dsimp only
  generalize (if ((h.modify e f).entities e).registered then
    (h.modify e f).updateEntityInLookup e (h.entities e).uri else h.modify e f) = k at hmoved ⊢
  split
  · exact hmoved.trans (hmoved.1.modify_of_same e _ fun _ => ⟨rfl, rfl, rfl, rfl, rfl⟩)
  · exact hmoved

theorem publish (link : StageLink) {m : Outgoing}
    (hm : ∀ e id, m.onRecvResponse = some (.entityActivated e id) →
      (h.entities e).registered = true) : KeepsTidy h (ZstClientHierarchy.publish link h m) := by
  unfold ZstClientHierarchy.publish
  split
  · refine ⟨{ hh with requests := fun n hn => ?_ }, rfl, rfl, rfl, fun _ hd => hd⟩
    rcases List.mem_append.mp hn with hn | hn
    · exact hh.requests n hn
    · rw [List.mem_singleton.mp hn]
      exact hm
  · exact hh.refl

end Tidy

/-! ## Moving entities -/

/-- What the overrides do to an entity that is not deleted keeps the hierarchy tidy. -/
structure TidyOverrides (v : Overrides) : Prop where
  requestEntityActivation : ∀ h e, Tidy h → h.live e = true →
    KeepsTidy h (v.requestEntityActivation h e)
  deactivateEntity : ∀ h e behaviour, Tidy h → h.live e = true →
    KeepsTidy h (v.deactivateEntity h e behaviour)
  publishEntityUpdate : ∀ h e path, Tidy h → KeepsTidy h (v.publishEntityUpdate h e path)

section Moving

variable {v : Overrides} (hv : TidyOverrides v) {h : ZstHierarchy}

theorem keeps_setParentBase (hh : Tidy h) {e : EntityId} (he : h.live e = true)
    (parent : Option EntityId) : KeepsTidy h (h.setParentBase e parent) :=
  hh.rekey he _ fun _ => ⟨rfl, rfl, rfl, rfl⟩

theorem keeps_removeChildWith
    {setParent : ZstHierarchy → EntityId → Option EntityId → ZstHierarchy}
    (hset : ∀ k e p, Tidy k → k.live e = true → KeepsTidy k (setParent k e p)) (hh : Tidy h)
    (p : EntityId) {child : EntityId} (hchild : h.live child = true) :
    KeepsTidy h (removeChildWith setParent h p child) := by
  unfold removeChildWith
  dsimp only
  split
  · have hmodify := hh.modify_of_same p
      (fun x => { x with children := x.children.erase (h.entities child).uri })
      fun _ => ⟨rfl, rfl, rfl, rfl, rfl⟩
    exact hmodify.trans (hset _ child none hmodify.1 (hmodify.live hchild))
  · exact hset h child none hh hchild

include hv

theorem keeps_adoptChild (hh : Tidy h) (p : EntityId) {child : EntityId}
    (hchild : h.live child = true) (autoActivate : Bool) :
    KeepsTidy h (adoptChild v h p child autoActivate) := by
  have hmodify := hh.modify_of_same p
    (fun x => { x with children := ZstURI.emplace x.children (h.entities child).uri })
    fun _ => ⟨rfl, rfl, rfl, rfl, rfl⟩
  unfold adoptChild
  dsimp only
  generalize h.modify p (fun x =>
    { x with children := ZstURI.emplace x.children (h.entities child).uri }) = k at hmodify ⊢
  have hregister : KeepsTidy k (if (k.entities p).registered && !(k.entities child).registered then
      k.registerEntity child else k) := by
    split
    · exact hmodify.1.registerEntity (hmodify.live hchild)
    · exact hmodify.1.refl
  generalize (if (k.entities p).registered && !(k.entities child).registered then
    k.registerEntity child else k) = l at hregister ⊢
  have hl := hmodify.trans hregister
  split
  · exact hl.trans (hv.requestEntityActivation l child hl.1 (hl.live hchild))
  · exact hl

theorem keeps_addChildWith
    {setParent : ZstHierarchy → EntityId → Option EntityId → ZstHierarchy}
    (hset : ∀ k e p, Tidy k → k.live e = true → KeepsTidy k (setParent k e p)) (hh : Tidy h)
    (p : EntityId) {child : EntityId} (hchild : h.live child = true) (autoActivate : Bool) :
    KeepsTidy h (addChildWith v setParent h p child autoActivate) := by
  unfold addChildWith
  split
  · split
    · exact hh.refl
    · have hmoved := hset h child (some p) hh hchild
      exact hmoved.trans (keeps_adoptChild hv hmoved.1 p (hmoved.live hchild) autoActivate)
  · exact hset h child (some p) hh hchild

theorem keeps_setParent (depth : Nat) (hh : Tidy h) {e : EntityId} (he : h.live e = true)
    (p : Option EntityId) : KeepsTidy h (setParent v depth h e p) := by
  induction depth generalizing h e p with
  | zero => exact hh.refl
  | succ depth ih =>
    have hbase := keeps_setParentBase hh he p
    refine hbase.trans (keeps_foldl _ _ hbase.1 fun k hk child hchild => ?_)
    have hlive := hk.live (hbase.1.of_mem_childEntities hchild).1
    have hset : ∀ k e p, Tidy k → k.live e = true → KeepsTidy k (setParent v depth k e p) :=
      fun k e p hk he => ih hk he p
    have hremoved := keeps_removeChildWith hset hk.1 e hlive
    exact hremoved.trans (keeps_addChildWith hv hset hremoved.1 e (hremoved.live hlive) true)

theorem keeps_removeChild (hh : Tidy h) (p : EntityId) {child : EntityId}
    (hchild : h.live child = true) : KeepsTidy h (removeChild v h p child) :=
  keeps_removeChildWith (fun _ _ p hk he => keeps_setParent hv _ hk he p) hh p hchild

theorem keeps_addChild (hh : Tidy h) (p : EntityId) {child : EntityId}
    (hchild : h.live child = true) (autoActivate : Bool) :
    KeepsTidy h (addChild v h p child autoActivate) :=
  keeps_addChildWith hv (fun _ _ p hk he => keeps_setParent hv _ hk he p) hh p hchild autoActivate

theorem keeps_setName (hh : Tidy h) {e : EntityId} (he : h.live e = true) (name : ZstURI) :
    KeepsTidy h (setName v h e name) := by
  have hbase : KeepsTidy h (setNameBase v h e name) := by
    unfold setNameBase
    dsimp only
    generalize (if (h.parent e).isSome then (h.entities e).uri.parent.add name else name) = uri
    have hmoved := hh.rekey he (fun x => { x with uri := uri }) fun _ => ⟨rfl, rfl, rfl, rfl⟩
    generalize (h.modify e fun x => { x with uri := uri }).updateURI e (h.entities e).uri = k
      at hmoved ⊢
    cases k.parent e with
    | none => exact hmoved.trans (hv.publishEntityUpdate k e _ hmoved.1)
    | some p =>
      have hremoved := hmoved.trans (keeps_removeChild hv hmoved.1 p (hmoved.live he))
      have hadded := hremoved.trans (keeps_addChild hv hremoved.1 p (hremoved.live he) true)
      exact hadded.trans (hv.publishEntityUpdate _ e _ hadded.1)
  refine hbase.trans (keeps_foldl _ _ hbase.1 fun k hk child hchild => ?_)
  have hlive : k.live child = true :=
    hk.live (hbase.live (hh.of_mem_childEntities hchild).1)
  have hremoved := keeps_removeChild hv hk.1 e hlive
  exact hremoved.trans (keeps_addChild hv hremoved.1 e (hremoved.live hlive) true)

end Moving

/-! ## Activation and deactivation -/

section Activation

variable {h : ZstHierarchy}

theorem keeps_setActivationStatus (hh : Tidy h) (e : EntityId) {status : ZstSyncStatus}
    (hstatus : status ≠ .destroyed) : KeepsTidy h (h.setActivationStatus e status) :=
  hh.modify e _ rfl rfl rfl (hh.events e) fun _ => hstatus

theorem keeps_synchronisableHasEvent (hh : Tidy h) {e : EntityId} (he : h.live e = true)
    (hstatus : (h.entities e).syncStatus ≠ .destroyed) : KeepsTidy h
    (h.synchronisableHasEvent e) := by
  unfold synchronisableHasEvent
  split
  · rename_i hregistered
    refine ⟨{ hh with queue := fun d hd => ?_ }, rfl, rfl, rfl, fun _ hd => hd⟩
    rcases List.mem_append.mp hd with hd | hd
    · exact hh.queue d hd
    · rw [List.mem_singleton.mp hd]
      exact Or.inr ⟨he, hregistered, hstatus⟩
  · exact hh.refl

/-- An entity queues some blocks of events and tells the hierarchy. -/
theorem keeps_enqueue (hh : Tidy h) {e : EntityId} (he : h.live e = true)
    {status : ZstSyncStatus} (hstatus : status ≠ .destroyed) {events : List SynchronisableEvent}
    (hevents : EventBlocks events) :
    KeepsTidy h
      (((h.setActivationStatus e status).deferEvents e events).synchronisableHasEvent e) := by
  have hset := keeps_setActivationStatus hh e hstatus
  have hdefer : KeepsTidy (h.setActivationStatus e status)
      ((h.setActivationStatus e status).deferEvents e events) :=
    hset.1.modify e _ rfl rfl rfl ((hset.1.events e).append hevents) id
  have hboth := hset.trans hdefer
  refine hboth.trans (keeps_synchronisableHasEvent hboth.1 (hboth.live he) ?_)
  simpa [deferEvents, setActivationStatus] using hstatus

theorem keeps_enqueueActivation (hh : Tidy h) {e : EntityId} (he : h.live e = true) :
    KeepsTidy h (h.enqueueActivation e) := by
  unfold enqueueActivation
  split
  · exact keeps_enqueue hh he (by simp) (.activated .nil)
  · exact hh.refl

theorem keeps_enqueueDeactivation (hh : Tidy h) {e : EntityId} (he : h.live e = true) :
    KeepsTidy h (h.enqueueDeactivation e) := by
  unfold enqueueDeactivation
  split
  · exact keeps_enqueue hh he (by simp) (.destroyed .nil)
  · exact hh.refl

theorem keeps_onEntityArriving (hh : Tidy h) (e : EntityId) : KeepsTidy h
    (onEntityArriving h e) := by
  have hsession : KeepsTidy h (registerSession h e) :=
    keeps_foldl _ _ hh fun k hk c _ => hk.1.modify_of_same c _ fun _ => ⟨rfl, rfl, rfl, rfl, rfl⟩
  refine hsession.trans (keeps_foldl _ _ hsession.1 fun k hk c _ => ?_)
  unfold initArrivingPlug
  split
  · exact hk.1.modify_of_same c _ fun _ => ⟨rfl, rfl, rfl, rfl, rfl⟩
  · exact hk.1.refl

theorem keeps_activateEntityComplete (hh : Tidy h) {e : EntityId} (he : h.live e = true)
    (hregistered : (h.entities e).registered = true) :
    KeepsTidy h (ZstClientHierarchy.activateEntityComplete h e) := by
  have hbase : KeepsTidy h (h.activateEntityComplete e) := by
    refine keeps_foldl _ _ hh fun k hk c hc => ?_
    have hfound : h.live c = true ∧ (h.entities c).registered = true := by
      rcases hh.of_mem_getChildEntities hc with rfl | hfound
      · exact ⟨he, hregistered⟩
      · exact hfound
    have hlookup := hk.1.addEntityToLookup (hk.live hfound.1) (hk.2.registered c hfound.2)
    have hset := hlookup.trans (keeps_setActivationStatus hlookup.1 c
      (by simp : ZstSyncStatus.activating ≠ .destroyed))
    exact hset.trans (keeps_enqueueActivation hset.1 (hset.live (hk.live hfound.1)))
  exact hbase.trans (keeps_foldl _ _ hbase.1 fun k hk c _ => keeps_onEntityArriving hk.1 c)

variable {v : Overrides} (hv : TidyOverrides v)

include hv

theorem keeps_destroyEntityComplete (hh : Tidy h) {e : EntityId} (he : h.live e = true) :
    KeepsTidy h (ZstClientHierarchy.destroyEntityComplete v h e) := by
  unfold ZstClientHierarchy.destroyEntityComplete
  split
  · exact hh.refl
  · unfold ZstHierarchy.destroyEntityComplete
    dsimp only
    have hremoved : KeepsTidy h (removeFromParent v h e) := by
      unfold removeFromParent
      cases h.parent e with
      | none => exact hh.refl
      | some p => exact keeps_removeChild hv hh p he
    generalize removeFromParent v h e = k at hremoved ⊢
    have hleaving : leavingEvent (k.entities e) = [] := by
      simp [leavingEvent, hremoved.1.owned e]
    rw [hleaving, List.append_nil]
    refine hremoved.trans (keeps_foldl _ _ hremoved.1 fun l hl c hc => ?_)
    exact keeps_enqueueDeactivation hl.1
      (hl.live (hremoved.1.live_of_mem_getChildEntities (hremoved.live he) hc))

end Activation

/-! ## Draining the queues -/

/-- The invariant while the queues are drained: an entity may wait for the reaper. -/
structure Draining (h : ZstHierarchy) : Prop where
  lookup : ∀ q e, h.lookup q = some e →
    h.live e = true ∧ (h.entities e).registered = true ∧ (h.entities e).uri = q
  root : ∀ r, h.root = some r → h.live r = true ∧ (h.entities r).registered = true
  fresh : ∀ e, h.next ≤ e → h.live e = false ∧ (h.entities e).registered = false
  queue : ∀ e ∈ h.synchronisableEvents, e ∈ h.deadIDs ∨ h.live e = true
  cleanupOps : ∀ e ∈ h.cleanupOps, e ∈ h.deadIDs ∨ h.live e = true
  events : ∀ e, EventBlocks (h.entities e).synchronisableEvents
  owned : ∀ e, (h.entities e).isProxy = false
  hierarchyEvents : h.hierarchyEvents = []
  freedAccess : h.freedAccess = false
  requests : ∀ m ∈ h.sent, ∀ e id, m.onRecvResponse = some (.entityActivated e id) →
    (h.entities e).registered = true

theorem Tidy.draining {h : ZstHierarchy} (hh : Tidy h) : Draining h where
  lookup := hh.lookup
  root := hh.root
  fresh := hh.fresh
  queue := fun e he => (hh.queue e he).imp id And.left
  cleanupOps := by simp [hh.cleanupOps]
  events := hh.events
  owned := hh.owned
  hierarchyEvents := hh.hierarchyEvents
  freedAccess := hh.freedAccess
  requests := hh.requests

section Drain

variable (v : Overrides)

/-- The events of an entity only change its own state, and its destructions
only add cleanup callbacks for it: each follows a deactivation. -/
theorem processOwnEvents_blocks {own : List SynchronisableEvent} (hblocks : EventBlocks own)
    (h : ZstHierarchy) (e : EntityId) (hown : (h.entities e).synchronisableEvents = own) :
    ∃ x n, processOwnEvents v own.length h e =
        { h.modify e (fun _ => x) with cleanupOps := h.cleanupOps ++ List.replicate n e } ∧
      x.uri = (h.entities e).uri ∧ x.registered = (h.entities e).registered ∧
      x.isProxy = (h.entities e).isProxy ∧ x.synchronisableEvents = [] := by
  obtain ⟨x, n, hx, huri, hregistered, hproxy, hdone, -⟩ :=
    processOwnEvents_own v hblocks.own h e hown
  exact ⟨x, n, hx, huri, hregistered, hproxy, hdone⟩

theorem draining_processItem {h : ZstHierarchy} (hh : Draining h) {e : EntityId}
    {rest : List EntityId} (hqueue : h.synchronisableEvents = e :: rest) :
    Draining (processItem v { h with synchronisableEvents := rest } e) ∧
      SameAllocation h (processItem v { h with synchronisableEvents := rest } e) ∧
      (processItem v { h with synchronisableEvents := rest } e).synchronisableEvents = rest := by
  have hrest : ∀ d ∈ rest, d ∈ h.deadIDs ∨ h.live d = true := fun d hd =>
    hh.queue d (by rw [hqueue]; exact List.mem_cons_of_mem e hd)
  unfold processItem
  split
  · exact ⟨{ hh with queue := hrest }, ⟨rfl, rfl, rfl, fun _ hd => hd⟩, rfl⟩
  · rename_i hdead
    have hlive : h.live e = true :=
      (hh.queue e (by simp [hqueue])).resolve_left hdead
    obtain ⟨x, n, hx, huri, hregistered, hproxy, hdone⟩ := processOwnEvents_blocks v (hh.events e)
      { h with synchronisableEvents := rest, freedAccess := h.freedAccess || !h.live e } e rfl
    dsimp only at hx huri hregistered hproxy ⊢
    rw [hx]
    have hentities : ∀ d, ((h.modify e fun _ => x).entities d) =
        if d = e then x else h.entities d := fun d => modify_entities h e d _
    have hregister : ∀ d, ((h.modify e fun _ => x).entities d).registered =
        (h.entities d).registered := by
      intro d
      rw [hentities]
      split
      · rename_i hde
        rw [hregistered, hde]
      · rfl
    refine ⟨{ hh with
      lookup := fun q d hd => ?_
      root := fun r hr => ⟨(hh.root r hr).1, (hregister r).trans (hh.root r hr).2⟩
      fresh := fun d hd => ⟨(hh.fresh d hd).1, (hregister d).trans (hh.fresh d hd).2⟩
      queue := hrest
      cleanupOps := fun d hd => ?_
      events := fun d => ?_
      owned := fun d => ?_
      freedAccess := by simp [ZstHierarchy.modify, hh.freedAccess, hlive]
      requests := fun m hm d id hd => (hregister d).trans (hh.requests m hm d id hd) },
      ⟨rfl, rfl, rfl, fun d hd => (hregister d).trans hd⟩, rfl⟩
    · obtain ⟨hdlive, hreg, hq⟩ := hh.lookup q d hd
      refine ⟨hdlive, (hregister d).trans hreg, ?_⟩
      change ((h.modify e fun _ => x).entities d).uri = q
      rw [hentities]
      split
      · rename_i hde
        rw [huri, ← hde, hq]
      · exact hq
    · rcases List.mem_append.mp hd with hd | hd
      · exact hh.cleanupOps d hd
      · rw [(List.mem_replicate.mp hd).2]
        exact Or.inr hlive
    · change EventBlocks ((h.modify e fun _ => x).entities d).synchronisableEvents
      rw [hentities]
      split
      · rw [hdone]
        exact .nil
      · exact hh.events d
    · change ((h.modify e fun _ => x).entities d).isProxy = false
      rw [hentities]
      split
      · rw [hproxy]
        exact hh.owned e
      · exact hh.owned d

theorem draining_processItems (fuel : Nat) {h : ZstHierarchy} (hh : Draining h)
    (hfuel : h.synchronisableEvents.length ≤ fuel) :
    Draining (processItems v fuel h) ∧ SameAllocation h (processItems v fuel h) ∧
      (processItems v fuel h).synchronisableEvents = [] := by
  induction fuel generalizing h with
  | zero => exact ⟨hh, .refl h, List.length_eq_zero_iff.mp (Nat.le_zero.mp hfuel)⟩
  | succ fuel ih =>
    unfold processItems
    split
    · rename_i hqueue
      exact ⟨hh, .refl h, hqueue⟩
    · rename_i e rest hqueue
      obtain ⟨hitem, hsame, hrest⟩ := draining_processItem v hh hqueue
      have hlength : rest.length ≤ fuel := by
        rw [hqueue, List.length_cons] at hfuel
        omega
      obtain ⟨hlast, hsame', hnil⟩ := ih hitem (by rw [hrest]; exact hlength)
      exact ⟨hlast, hsame.trans hsame', hnil⟩

theorem draining_cleanup {h : ZstHierarchy} (hh : Draining h) {e : EntityId}
    {rest : List EntityId} (hops : h.cleanupOps = e :: rest) :
    Draining (cleanup v { h with cleanupOps := rest } e) ∧
      SameAllocation h (cleanup v { h with cleanupOps := rest } e) ∧
      (cleanup v { h with cleanupOps := rest } e).cleanupOps = rest ∧
      (cleanup v { h with cleanupOps := rest } e).synchronisableEvents =
        h.synchronisableEvents := by
  have hrest : ∀ d ∈ rest, d ∈ h.deadIDs ∨ h.live d = true := fun d hd =>
    hh.cleanupOps d (by rw [hops]; exact List.mem_cons_of_mem e hd)
  unfold cleanup
  split
  · exact ⟨{ hh with cleanupOps := hrest }, ⟨rfl, rfl, rfl, fun _ hd => hd⟩, rfl, rfl⟩
  · rename_i hdead
    have hlive : h.live e = true :=
      (hh.cleanupOps e (by simp [hops])).resolve_left hdead
    rw [if_neg (by simp [removeEntityFromLookup, hh.owned e])]
    refine ⟨{ hh with
      lookup := fun q d hd => ?_
      cleanupOps := hrest
      freedAccess := by simp [removeEntityFromLookup, hh.freedAccess, hlive] },
      ⟨rfl, rfl, rfl, fun _ hd => hd⟩, rfl, rfl⟩
    refine hh.lookup q d ?_
    change Function.update h.lookup (h.entities e).uri none q = some d at hd
    by_cases hq : q = (h.entities e).uri
    · rw [hq, Function.update_self] at hd
      cases hd
    · rwa [Function.update_of_ne hq] at hd

theorem draining_reapAll (fuel : Nat) {h : ZstHierarchy} (hh : Draining h)
    (hfuel : h.cleanupOps.length ≤ fuel) :
    Draining (reapAll v fuel h) ∧ SameAllocation h (reapAll v fuel h) ∧
      (reapAll v fuel h).cleanupOps = [] ∧
      (reapAll v fuel h).synchronisableEvents = h.synchronisableEvents := by
  induction fuel generalizing h with
  | zero => exact ⟨hh, .refl h, List.length_eq_zero_iff.mp (Nat.le_zero.mp hfuel), rfl⟩
  | succ fuel ih =>
    unfold reapAll
    split
    · rename_i hops
      exact ⟨hh, .refl h, hops, rfl⟩
    · rename_i e rest hops
      obtain ⟨hclean, hsame, hrest, hqueue⟩ := draining_cleanup v hh hops
      have hlength : rest.length ≤ fuel := by
        rw [hops, List.length_cons] at hfuel
        omega
      obtain ⟨hlast, hsame', hnil, hqueue'⟩ := ih hclean (by rw [hrest]; exact hlength)
      exact ⟨hlast, hsame.trans hsame', hnil, hqueue'.trans hqueue⟩

theorem keeps_processEvents (fuel : Nat) {h : ZstHierarchy} (hh : Tidy h) :
    KeepsTidy h (ZstClientHierarchy.processEvents v fuel h) := by
  have hevents : h.hierarchyEvents.foldl processHierarchyEvent { h with hierarchyEvents := [] } =
      h := by
    rw [hh.hierarchyEvents]
    exact congrArg (fun events => { h with hierarchyEvents := events }) hh.hierarchyEvents.symm
  obtain ⟨hitems, hsame, hnil⟩ := draining_processItems v (h.synchronisableEvents.length + fuel)
    hh.draining (Nat.le_add_right _ _)
  unfold ZstClientHierarchy.processEvents
  rw [hevents]
  dsimp only
  generalize processItems v (h.synchronisableEvents.length + fuel) h = k at hitems hsame hnil ⊢
  obtain ⟨hreaped, hsame', hops, hqueue⟩ :=
    draining_reapAll v (k.cleanupOps.length + fuel) hitems (Nat.le_add_right _ _)
  generalize reapAll v (k.cleanupOps.length + fuel) k = l at hreaped hsame' hops hqueue ⊢
  have hall := hsame.trans hsame'
  refine ⟨?_, hall.live, hall.next, hall.root, hall.registered⟩
  exact
    { hreaped with
      cleanupOps := hops
      queue := fun e he => by
        change e ∈ l.synchronisableEvents at he
        rw [hqueue, hnil] at he
        cases he }

end Drain

/-! ## Requests to the stage -/

/-- The entity that a callback follows. -/
def followed : ResponseAction → Option EntityId
  | .entityActivated e _ | .entityDeactivated e => some e
  | _ => none

/-- The callback only follows an entity that is not deleted, and it was set up
after the entity was registered. -/
def AnswerSafe (h : ZstHierarchy) (action : ResponseAction) : Prop :=
  (∀ e ∈ followed action, h.live e = true) ∧
    ∀ e id, action = .entityActivated e id → (h.entities e).registered = true

section Requests

variable {v : Overrides} (hv : TidyOverrides v) (link : StageLink) {h : ZstHierarchy}

include hv

theorem keeps_onRecvResponse (hh : Tidy h) {action : ResponseAction} {response : Option Content}
    (hanswer : verifySignal response .ok = true → ∀ e ∈ followed action, h.live e = true)
    (hregistered : ∀ e id, action = .entityActivated e id → (h.entities e).registered = true) :
    KeepsTidy h (onRecvResponse v link h action response) := by
  cases action with
  | factoryEntityCreated => exact hh.refl
  | clientsConnected => exact hh.refl
  | entityActivated e factoryRequest =>
    unfold onRecvResponse
    dsimp only
    split
    · rename_i hok
      have hcomplete := keeps_activateEntityComplete hh (hanswer hok e rfl)
        (hregistered e factoryRequest rfl)
      cases factoryRequest with
      | none => exact hcomplete
      | some id => exact hcomplete.trans (hcomplete.1.publish link (by simp))
    · exact hh.refl
  | entityDeactivated e =>
    unfold onRecvResponse
    dsimp only
    split
    · rename_i hok
      exact keeps_destroyEntityComplete hv hh (hanswer hok e rfl)
    · exact hh.refl

theorem keeps_request (hh : Tidy h) (content : Content) (behaviour : SendBehaviour)
    {action : ResponseAction} (hanswer : AnswerSafe h action) :
    KeepsTidy h (request v link h content behaviour action) := by
  unfold request
  split
  · split
    · have hpublish := hh.publish link (m := { target := 0, content }) (by simp)
      refine hpublish.trans (keeps_onRecvResponse hv link hpublish.1
        (fun _ e he => hpublish.live (hanswer.1 e he))
        (fun e id he => hpublish.2.registered e (hanswer.2 e id he)))
    · exact hh.publish link fun e id he => hanswer.2 e id (Option.some.inj he)
  · exact hh.refl

variable (fuel : Nat)

theorem keeps_activateEntity (hh : Tidy h) {e : EntityId} (he : h.live e = true)
    (behaviour : SendBehaviour) :
    KeepsTidy h (activateEntity v link fuel h e behaviour) := by
  unfold activateEntity
  split
  · exact hh.refl
  · split
    · exact hh.refl
    · dsimp only
      have hregister := hh.registerEntity he
      have hregistered : ((h.registerEntity e).entities e).registered = true := by
        unfold ZstHierarchy.registerEntity
        rw [modify_entities_self]
      generalize h.registerEntity e = k at hregister hregistered ⊢
      have hrequests := keeps_foldl
        (fun l c => request v link l (.entityCreateRequest (l.entities c).serialize) behaviour
          (.entityActivated e none)) (k.getChildEntities e) hregister.1 fun l hl c _ => by
        refine keeps_request hv link hl.1 _ behaviour ⟨fun d hd => ?_, fun d id hd => ?_⟩
        · cases hd
          exact hl.live (hregister.live he)
        · cases hd
          exact hl.2.registered e hregistered
      have hall := hregister.trans hrequests
      split
      · exact hall.trans (keeps_processEvents v fuel hall.1)
      · exact hall

theorem keeps_deactivateEntity (hh : Tidy h) {e : EntityId} (he : h.live e = true)
    (behaviour : SendBehaviour) :
    KeepsTidy h (deactivateEntity v link fuel h e behaviour) := by
  unfold deactivateEntity
  dsimp only
  have hbase : KeepsTidy h (h.deactivateEntityBase e) := by
    unfold deactivateEntityBase
    split
    · exact hh.refl
    · exact keeps_setActivationStatus hh e (by simp)
  generalize h.deactivateEntityBase e = k at hbase ⊢
  have hproxy : ¬(k.entities e).isProxy = true := by simp [hbase.1.owned e]
  rw [if_neg hproxy]
  have hasked : KeepsTidy k (if behaviour = .publish then
      publish link k { target := 0, content := .entityDestroyRequest (k.entities e).uri }
      else request v link k (.entityDestroyRequest (k.entities e).uri) behaviour
        (.entityDeactivated e)) := by
    split
    · exact hbase.1.publish link (by simp)
    · refine keeps_request hv link hbase.1 _ behaviour ⟨fun d hd => ?_, fun d id hd => by cases hd⟩
      cases hd
      exact hbase.live he
  generalize (if behaviour = .publish then
      publish link k { target := 0, content := .entityDestroyRequest (k.entities e).uri }
      else request v link k (.entityDestroyRequest (k.entities e).uri) behaviour
        (.entityDeactivated e)) = l at hasked ⊢
  have hl := hbase.trans hasked
  have hgone : KeepsTidy l (if behaviour = .publish then
      ZstClientHierarchy.destroyEntityComplete v l e else l) := by
    split
    · exact keeps_destroyEntityComplete hv hl.1 (hl.live he)
    · exact hl.1.refl
  generalize (if behaviour = .publish then
    ZstClientHierarchy.destroyEntityComplete v l e else l) = m at hgone ⊢
  have hm := hl.trans hgone
  split
  · exact hm.trans (keeps_processEvents v fuel hm.1)
  · exact hm

end Requests

theorem keeps_publishEntityUpdate (link : StageLink) {h : ZstHierarchy} (hh : Tidy h)
    (e : EntityId) (path : ZstURI) : KeepsTidy h (publishEntityUpdate link h e path) := by
  unfold publishEntityUpdate
  split
  · exact hh.refl
  · exact hh.publish link (by simp)

/-- The client's own overrides, however deep their calls nest. -/
theorem overrides_tidy (link : StageLink) (fuel : Nat) : TidyOverrides (overrides link fuel) := by
  induction fuel with
  | zero =>
    exact ⟨fun _ _ hh _ => hh.refl, fun _ _ _ hh _ => hh.refl,
      fun _ e path hh => keeps_publishEntityUpdate link hh e path⟩
  | succ fuel ih =>
    exact ⟨fun _ _ hh he => keeps_activateEntity ih link fuel hh he .syncReply,
      fun _ _ behaviour hh he => keeps_deactivateEntity ih link fuel hh he behaviour,
      fun _ e path hh => keeps_publishEntityUpdate link hh e path⟩

/-! ## Deleting an entity -/

section Delete

variable {v : Overrides} (hv : TidyOverrides v) {h : ZstHierarchy}

/-- An object that nothing leads to can be freed. -/
theorem tidy_free (hh : Tidy h) {e : EntityId} (hroot : h.root ≠ some e)
    (hlookup : ∀ q, h.lookup q ≠ some e)
    (hqueue : e ∈ h.synchronisableEvents → e ∈ h.deadIDs) :
    Tidy { h with live := Function.update h.live e false } := by
  have hlive : ∀ d, d ≠ e → h.live d = true → Function.update h.live e false d = true := by
    intro d hde hd
    rw [Function.update_of_ne hde]
    exact hd
  refine { hh with
    lookup := fun q d hd => ?_
    root := fun r hr => ?_
    fresh := fun d hd => ⟨?_, (hh.fresh d hd).2⟩
    queue := fun d hd => ?_ }
  · obtain ⟨hdlive, hreg, hq⟩ := hh.lookup q d hd
    refine ⟨hlive d ?_ hdlive, hreg, hq⟩
    rintro rfl
    exact hlookup q hd
  · refine ⟨hlive r ?_ (hh.root r hr).1, (hh.root r hr).2⟩
    rintro rfl
    exact hroot hr
  · change Function.update h.live e false d = false
    by_cases hde : d = e
    · rw [hde, Function.update_self]
    · rw [Function.update_of_ne hde]
      exact (hh.fresh d hd).1
  · by_cases hde : d = e
    · exact Or.inl (hde ▸ hqueue (hde ▸ hd))
    · exact (hh.queue d hd).imp id fun halive => ⟨hlive d hde halive.1, halive.2⟩

include hv

theorem keeps_destroyComponent (hh : Tidy h) (e : EntityId) (he : h.live e = true) :
    KeepsTidy h (destroyComponent v h e) := by
  unfold destroyComponent
  have hdescendants := keeps_foldl
    (fun k c => if (k.entities c).registered && (k.entities c).isActivated then
      v.deactivateEntity k c .syncReply else k)
    ((h.getChildEntities e).drop 1) hh fun k hk c hc => by
    have hlive : k.live c = true :=
      hk.live (hh.live_of_mem_getChildEntities he (List.mem_of_mem_drop hc))
    split
    · exact hv.deactivateEntity k c .syncReply hk.1 hlive
    · exact hk.1.refl
  exact hdescendants.trans (hdescendants.1.modify_of_same e _ fun _ => ⟨rfl, rfl, rfl, rfl, rfl⟩)

theorem tidy_destroyEntityBase (hh : Tidy h) {e : EntityId} (he : h.live e = true)
    (hroot : h.root ≠ some e)
    (hgone : (h.entities e).syncStatus = .destroyed → h.lookup (h.entities e).uri ≠ some e) :
    Tidy (destroyEntityBase v h e) := by
  unfold destroyEntityBase
  split
  · rename_i hstatus
    have hasked : KeepsTidy h (if (h.entities e).isActivated ∨
        (h.entities e).syncStatus = .destroyed then v.deactivateEntity h e .publish else h) := by
      split
      · exact hv.deactivateEntity h e .publish hh he
      · exact hh.refl
    unfold onSynchronisableDestroyed
    dsimp only
    rw [if_pos rfl, if_pos rfl]
    generalize (if (h.entities e).isActivated ∨
      (h.entities e).syncStatus = .destroyed then v.deactivateEntity h e .publish else h) = k
      at hasked ⊢
    have hremoved : ∀ q d, Function.update k.lookup (k.entities e).uri none q = some d →
        q ≠ (k.entities e).uri ∧ k.lookup q = some d := by
      intro q d hd
      by_cases hq : q = (k.entities e).uri
      · rw [hq, Function.update_self] at hd
        cases hd
      · rw [Function.update_of_ne hq] at hd
        exact ⟨hq, hd⟩
    have hdead : Tidy ({ k with deadIDs := e :: k.deadIDs }.removeEntityFromLookup
        (k.entities e).uri) :=
      { hasked.1 with
        lookup := fun q d hd => hasked.1.lookup q d (hremoved q d hd).2
        queue := fun d hd => (hasked.1.queue d hd).imp (List.mem_cons_of_mem e) id }
    refine tidy_free hdead ?_ (fun q hq => ?_) (fun _ => List.mem_cons_self)
    · change k.root ≠ some e
      rw [hasked.2.root]
      exact hroot
    · obtain ⟨hne, hlookup⟩ := hremoved q e hq
      exact hne (hasked.1.lookup q e hlookup).2.2.symm
  · rename_i hstatus
    refine tidy_free hh hroot (fun q hq => ?_) (fun hqueue => ?_)
    · obtain ⟨-, hregistered, huri⟩ := hh.lookup q e hq
      refine hgone ?_ (by rw [huri]; exact hq)
      by_contra hne
      exact hstatus ⟨hne, hregistered⟩
    · rcases hh.queue e hqueue with hdead | ⟨-, hregistered, hne⟩
      · exact hdead
      · exact absurd ⟨hne, hregistered⟩ hstatus

end Delete

/-! ## Runs -/

/-- A destroyed entity is deleted only when it is off the lookup table, and
no answer arrives for an entity that is deleted. -/
def AllowedOperation (client : LocalClient) (event : StageLink × LocalOperation) : Prop :=
  let h := client.hierarchy
  match event.2 with
  | .destroyEntityBase e =>
    (h.entities e).syncStatus = .destroyed → h.lookup (h.entities e).uri ≠ some e
  | .response message response =>
    verifySignal response .ok = true →
      ∀ action ∈ callback h message, ∀ e ∈ followed action, h.live e = true
  | _ => True

instance (client : LocalClient) :
    ∀ event : StageLink × LocalOperation, Decidable (AllowedOperation client event)
  | (_, .destroyEntityBase e) =>
    inferInstanceAs (Decidable ((client.hierarchy.entities e).syncStatus = .destroyed →
      client.hierarchy.lookup (client.hierarchy.entities e).uri ≠ some e))
  | (_, .response message response) =>
    inferInstanceAs (Decidable (verifySignal response .ok = true →
      ∀ action ∈ callback client.hierarchy message, ∀ e ∈ followed action,
        client.hierarchy.live e = true))
  | (_, .create _ _ _) | (_, .registerEntity _) | (_, .addChild _ _ _) | (_, .setName _ _)
  | (_, .activateEntity _ _) | (_, .deactivateEntity _ _) | (_, .destroyComponent _)
  | (_, .processEvents) => inferInstanceAs (Decidable True)

theorem tidy_create {h : ZstHierarchy} (hh : Tidy h) (entityType : ZstEntityType) (uri : ZstURI)
    (direction : ZstPlugDirection) : Tidy (h.alloc { entityType, uri, direction }).1 := by
  have hold : ∀ d, d ≠ h.next →
      (h.alloc { entityType, uri, direction }).1.entities d = h.entities d ∧
        (h.alloc { entityType, uri, direction }).1.live d = h.live d := fun d hd =>
    ⟨Function.update_of_ne hd _ _, Function.update_of_ne hd _ _⟩
  have hnew : (h.alloc { entityType, uri, direction }).1.entities h.next =
      { entityType, uri, direction } := Function.update_self _ _ _
  have hne : ∀ d, (h.entities d).registered = true → d ≠ h.next := by
    rintro d hd rfl
    rw [(hh.fresh h.next (Nat.le_refl _)).2] at hd
    cases hd
  refine { hh with
    lookup := fun q d hd => ?_
    root := fun r hr => ?_
    fresh := fun d hd => ?_
    queue := fun d hd => ?_
    events := fun d => ?_
    owned := fun d => ?_
    requests := fun m hm d id hd => ?_ }
  · have hq := hh.lookup q d hd
    rw [(hold d (hne d hq.2.1)).1, (hold d (hne d hq.2.1)).2]
    exact hq
  · have hlive := hh.root r hr
    rw [(hold r (hne r hlive.2)).1, (hold r (hne r hlive.2)).2]
    exact hlive
  · have hlt : h.next < d := hd
    rw [(hold d (Nat.ne_of_gt hlt)).1, (hold d (Nat.ne_of_gt hlt)).2]
    exact hh.fresh d (Nat.le_of_lt hlt)
  · rcases hh.queue d hd with hdead | halive
    · exact Or.inl hdead
    · right
      rw [(hold d (hne d halive.2.1)).1, (hold d (hne d halive.2.1)).2]
      exact halive
  · by_cases hd : d = h.next
    · rw [hd, hnew]
      exact .nil
    · rw [(hold d hd).1]
      exact hh.events d
  · by_cases hd : d = h.next
    · rw [hd, hnew]
    · rw [(hold d hd).1]
      exact hh.owned d
  · have hregistered := hh.requests m hm d id hd
    rw [(hold d (hne d hregistered)).1]
    exact hregistered

/-- One operation keeps the hierarchy tidy. -/
theorem tidy_apply (link : StageLink) (fuel : Nat) {client : LocalClient}
    (hh : Tidy client.hierarchy) {operation : LocalOperation}
    (harguments : ∀ e ∈ operation.arguments, client.hierarchy.live e = true)
    (hroot : ∀ e, operation = .destroyEntityBase e → client.hierarchy.root ≠ some e)
    (hallowed : AllowedOperation client (link, operation)) :
    Tidy (apply link fuel client.hierarchy operation) := by
  have hv := overrides_tidy link fuel
  cases operation with
  | create entityType uri direction => exact tidy_create hh entityType uri direction
  | registerEntity e => exact (hh.registerEntity (harguments e (by simp [LocalOperation.arguments]))).1
  | addChild p child autoActivate =>
    exact (keeps_addChild hv hh p (harguments child (by simp [LocalOperation.arguments]))
      autoActivate).1
  | setName e name =>
    exact (keeps_setName hv hh (harguments e (by simp [LocalOperation.arguments])) name).1
  | activateEntity e behaviour =>
    exact (keeps_activateEntity hv link fuel hh
      (harguments e (by simp [LocalOperation.arguments])) behaviour).1
  | deactivateEntity e behaviour =>
    exact (keeps_deactivateEntity hv link fuel hh
      (harguments e (by simp [LocalOperation.arguments])) behaviour).1
  | destroyComponent e =>
    exact (keeps_destroyComponent hv hh e (harguments e (by simp [LocalOperation.arguments]))).1
  | destroyEntityBase e =>
    exact tidy_destroyEntityBase hv hh (harguments e (by simp [LocalOperation.arguments]))
      (hroot e rfl) hallowed
  | response message response =>
    unfold apply
    dsimp only
    cases haction : callback client.hierarchy message with
    | none => exact hh
    | some action =>
      refine (keeps_onRecvResponse hv link hh (fun hok e he => hallowed hok action haction e he)
        fun e id he => ?_).1
      obtain ⟨m, hm, hrecv⟩ := Option.bind_eq_some_iff.mp haction
      exact hh.requests m (List.mem_of_getElem? hm) e id (he ▸ hrecv)
  | processEvents => exact (keeps_processEvents _ fuel hh).1

theorem tidy_step (fuel : Nat) {client next : LocalClient} {event : StageLink × LocalOperation}
    (hh : Tidy client.hierarchy) (hallowed : AllowedOperation client event)
    (hstep : step fuel client event = .ok next) : Tidy next.hierarchy := by
  obtain ⟨link, operation⟩ := event
  unfold step at hstep
  split at hstep
  · rename_i harguments
    cases hrefused : refused client operation with
    | some fault =>
      rw [hrefused] at hstep
      cases hstep
    | none =>
      rw [hrefused] at hstep
      cases hstep
      refine tidy_apply link fuel hh (fun e he => List.all_eq_true.mp harguments e he) ?_ hallowed
      rintro e rfl hroot
      simp [refused, hroot] at hrefused
  · cases hstep

theorem tidy_start (name : ZstURI) : Tidy (start name).hierarchy := by
  have hentity : ∀ e, ((start name).hierarchy.entities e).synchronisableEvents = [] ∧
      ((start name).hierarchy.entities e).isProxy = false := by
    intro e
    cases e with
    | zero => exact ⟨rfl, rfl⟩
    | succ n => exact ⟨rfl, rfl⟩
  refine
    { lookup := fun q e he => ?_
      root := fun r hr => ?_
      fresh := fun e he => ?_
      queue := by simp [start, ofList]
      events := fun e => by rw [(hentity e).1]; exact .nil
      owned := fun e => (hentity e).2
      hierarchyEvents := rfl
      cleanupOps := rfl
      freedAccess := rfl
      requests := by simp [start, ofList] }
  · obtain ⟨hlt, huri⟩ := ofList_lookup he
    obtain rfl : e = 0 := Nat.lt_one_iff.mp hlt
    exact ⟨rfl, rfl, huri⟩
  · cases hr
    exact ⟨rfl, rfl⟩
  · have hlt : 1 ≤ e := he
    obtain ⟨n, rfl⟩ := Nat.exists_eq_add_of_le' hlt
    exact ⟨by simp [start, ofList], rfl⟩

/-- In every run that deletes destroyed entities only while they are off the
table, and in which no deleted entity gets an answer, the lookup table never
holds a deleted entity, and no callback follows one. -/
theorem noDangling_run (fuel : Nat) (name : ZstURI) (events : List (StageLink × LocalOperation))
    (client : LocalClient) (hrun : run (step fuel) (start name) events = .ok client)
    (hallowed : Along (step fuel) AllowedOperation (start name) events) :
    (∀ q e, client.hierarchy.lookup q = some e → client.hierarchy.live e = true) ∧
      client.hierarchy.freedAccess = false := by
  have hstep : ∀ (s : LocalClient) (event : StageLink × LocalOperation) (t : LocalClient),
      Tidy s.hierarchy → AllowedOperation s event → step fuel s event = .ok t → Tidy t.hierarchy :=
    fun _ _ _ hh hallowed hstep => tidy_step fuel hh hallowed hstep
  have hh : Tidy client.hierarchy := run_invariant hstep (tidy_start name) hallowed hrun
  exact ⟨fun q e he => (hh.lookup q e he).1, hh.freedAccess⟩

/-- A stage that answers every request with OK. -/
def answering : StageLink where
  connected := true
  answer _ := some (.signalMessage .ok)

/-- A synthesiser is put on the stage and deleted. -/
def deletedSynth : List (StageLink × LocalOperation) :=
  [ (answering, .create .component ["synth"] .none),
    (answering, .addChild 0 1 false),
    (answering, .activateEntity 1 .syncReply),
    (answering, .destroyComponent 1),
    (answering, .destroyEntityBase 1) ]

theorem noDangling_run_deletedSynth : ∃ client,
    run (step 4) (start ["ada"]) deletedSynth = .ok client ∧
      (∀ q e, client.hierarchy.lookup q = some e → client.hierarchy.live e = true) ∧
        client.hierarchy.freedAccess = false := by
  cases hrun : run (step 4) (start ["ada"]) deletedSynth with
  | error fault =>
    have hok : (run (step 4) (start ["ada"]) deletedSynth).isOk = true := by decide
    rw [hrun] at hok
    cases hok
  | ok client =>
    exact ⟨client, rfl, noDangling_run 4 ["ada"] deletedSynth client hrun (by decide)⟩

/-- A synthesiser that was deactivated is renamed and then deleted: its
destructor takes it for gone, but the new name is still in the table. -/
theorem renamed_after_destruction_dangles :
    ¬ ∀ events client, run (step 4) (start ["ada"]) events = .ok client →
      (∀ q e, client.hierarchy.lookup q = some e → client.hierarchy.live e = true) ∧
        client.hierarchy.freedAccess = false := by
  intro hsafe
  let events : List (StageLink × LocalOperation) :=
    [ (answering, .create .component ["synth"] .none),
      (answering, .addChild 0 1 false),
      (answering, .activateEntity 1 .syncReply),
      (answering, .deactivateEntity 1 .syncReply),
      (answering, .setName 1 ["organ"]),
      (answering, .destroyComponent 1),
      (answering, .destroyEntityBase 1) ]
  have hview : (run (step 4) (start ["ada"]) events).map (fun client =>
      (client.hierarchy.lookup ["organ"], client.hierarchy.live 1)) = .ok (some 1, false) := by
    decide
  cases hrun : run (step 4) (start ["ada"]) events with
  | error fault =>
    rw [hrun] at hview
    cases hview
  | ok client =>
    rw [hrun] at hview
    obtain ⟨hkey, hdead⟩ := Prod.mk.inj (Except.ok.inj hview)
    have hlive := (hsafe events client hrun).1 ["organ"] 1 hkey
    rw [hdead] at hlive
    cases hlive

end LocalEntities
end Showtime
