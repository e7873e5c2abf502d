import Mathlib.Data.List.Find
import Showtime.StageRun
/-!
# Orders of creation

A client asks for the entities of a tree one by one, and a pool of threads
sends the requests. The stage puts each entity below its parent if that is
there, and answers with OK if it is not.
-/

namespace Showtime.CreateOrder

open ZstHierarchy ZstStageHierarchy ZstStageSession ZstStage

/-! ## Trees -/

/-- The entities are a tree below a joined performer, or below an entity of its
tree, that is new to the stage. -/
structure Tree (h : ZstHierarchy) (endpoint : Endpoint) (performer : EntityId)
    (members : List EntityBuffer) : Prop where
  client : getClientFromEndpointUUID h endpoint = some performer
  found : h.findEntity (h.entities performer).uri = some performer
  nodup : (members.map EntityBuffer.uri).Nodup
  kind : ∀ b ∈ members, b.entityType = .component ∨ b.entityType = .plug ∨ b.entityType = .factory
  below : ∀ b ∈ members, (h.entities performer).uri <+: b.uri
  parent : ∀ b ∈ members, (∃ p ∈ h.findEntity b.uri.parent, (h.entities p).isComponent = true) ∨
    ∃ c ∈ members, c.entityType = .component ∧ c.uri = b.uri.parent
  new : ∀ b ∈ members, h.findEntity b.uri = none ∧
    ∀ p ∈ h.findEntity b.uri.parent, b.uri ∉ (h.entities p).children

/-- Every entity comes after its parent, unless that was known before. -/
def ParentsFirst : (ZstURI → Bool) → List EntityBuffer → Prop
  | _, [] => True
  | known, b :: rest =>
    known b.uri.parent = true ∧ ParentsFirst (fun path => path = b.uri || known path) rest

instance : ∀ (known : ZstURI → Bool) (order : List EntityBuffer),
    Decidable (ParentsFirst known order)
  | _, [] => inferInstanceAs (Decidable True)
  | known, b :: rest =>
    haveI := instDecidableParentsFirst (fun path => path = b.uri || known path) rest
    inferInstanceAs (Decidable (_ ∧ _))

/-- The paths that the stage knows. -/
def known (h : ZstHierarchy) (path : ZstURI) : Bool :=
  (h.findEntity path).isSome

/-! ## Requests -/

/-- The request for an entity. -/
def request (endpoint : Endpoint) (id : EntityBuffer → ZstMsgID) (b : EntityBuffer) :
    ZstStageMessage where
  content := .entityCreateRequest b
  id := id b
  originEndpointUUID := endpoint

/-- The requests reach the stage in some order. -/
def create (s : ZstSession) (endpoint : Endpoint) (id : EntityBuffer → ZstMsgID)
    (order : List EntityBuffer) : Except Fault ZstSession :=
  Library.run receive s (order.map (request endpoint id))

/-- Every request was answered with OK, and nothing else was sent. -/
def AllOk (s t : ZstSession) (endpoint : Endpoint) (id : EntityBuffer → ZstMsgID)
    (order : List EntityBuffer) : Prop :=
  t.hierarchy.sent = s.hierarchy.sent ++ order.map fun b =>
    { target := endpoint, content := .signalMessage .ok, msgID := some (id b) }

/-! ## One request -/

section One

variable {h : ZstHierarchy} {endpoint : Endpoint} {performer : EntityId} {b : EntityBuffer}
  {rest : List EntityBuffer}

/-- The stage after the request for `b` was answered. -/
def created (h : ZstHierarchy) (endpoint : Endpoint) (id : EntityBuffer → ZstMsgID)
    (b : EntityBuffer) : ZstHierarchy :=
  respond (h.arrive (Entity.unpack b)) (request endpoint id b) .ok

theorem created_standing (h : ZstHierarchy) (endpoint : Endpoint)
    (id : EntityBuffer → ZstMsgID) (b : EntityBuffer) :
    Standing (h.arrive (Entity.unpack b)) (created h endpoint id b) :=
  .respond _ _ _

theorem Tree.performer_ne_nil (sound : FindsOwned h)
    (tree : Tree h endpoint performer (b :: rest)) :
    (h.entities performer).uri ≠ [] := by
  intro hempty
  have hfound := tree.found
  rw [hempty, sound.keyed.nowhere] at hfound
  cases hfound

theorem Tree.uri_ne_nil (sound : FindsOwned h) (tree : Tree h endpoint performer (b :: rest)) :
    b.uri ≠ [] := by
  intro hempty
  have hbelow := tree.below b List.mem_cons_self
  rw [hempty] at hbelow
  exact tree.performer_ne_nil sound (List.prefix_nil.mp hbelow)

theorem Tree.mem_getPerformers (tree : Tree h endpoint performer (b :: rest)) :
    performer ∈ getPerformers h :=
  List.mem_of_find?_eq_some tree.client

theorem Tree.parent_isComponent (tree : Tree h endpoint performer (b :: rest)) {p : EntityId}
    (hp : h.findEntity b.uri.parent = some p) : (h.entities p).isComponent = true := by
  rcases tree.parent b List.mem_cons_self with ⟨q, hq, hkind⟩ | ⟨c, hc, -, hcuri⟩
  · obtain rfl := Option.some.inj (hp.symm.trans hq)
    exact hkind
  · rw [← hcuri, (tree.new c hc).1] at hp
    cases hp

theorem first_of_prefix {u v : ZstURI} (hu : u ≠ []) (hextends : u <+: v) : v.first = u.first := by
  obtain ⟨w, rfl⟩ := hextends
  obtain ⟨s, u, rfl⟩ := List.exists_cons_of_ne_nil hu
  simp [ZstURI.first]

theorem Tree.parent_ne_nil (sound : FindsOwned h) (tree : Tree h endpoint performer (b :: rest)) :
    b.uri.parent ≠ [] := by
  intro hempty
  rcases tree.parent b List.mem_cons_self with ⟨p, hp, -⟩ | ⟨c, hc, -, hcuri⟩
  · rw [hempty, sound.keyed.nowhere] at hp
    cases hp
  · have hbelow := tree.below c hc
    rw [hcuri, hempty] at hbelow
    exact tree.performer_ne_nil sound (List.prefix_nil.mp hbelow)

/-- The handler creates the entity, and answers with OK. -/
theorem Tree.createEntityHandler_eq (sound : FindsOwned h)
    (tree : Tree h endpoint performer (b :: rest)) :
    createEntityHandler h b (some performer) = .ok (h.arrive (Entity.unpack b), .ok) := by
  have huri := tree.uri_ne_nil sound
  have hperformer := tree.performer_ne_nil sound
  have hkind := tree.kind b List.mem_cons_self
  obtain ⟨hnew, -⟩ := tree.new b List.mem_cons_self
  have hlive : h.live performer = true :=
    (sound.live performer).mpr (List.mem_of_mem_filter tree.mem_getPerformers)
  have hfirst : b.uri.first = (h.entities performer).uri.first :=
    first_of_prefix hperformer (tree.below b List.mem_cons_self)
  have hfield : getEntityField b = .ok b := by
    unfold getEntityField
    rw [if_neg (by rcases hkind with hk | hk | hk <;> simp [hk])]
  have hparent := tree.parent_ne_nil sound
  have hcreate : h.createProxyEntity b = some (Entity.unpack b) := by
    unfold createProxyEntity
    rw [if_neg (by simp [hnew]), if_neg fun hand => hparent hand.2]
  have hadd := addProxyEntity_eq stageOverrides (sound.keyed.above _) (unplaced_unpack b)
    fun p hp => tree.parent_isComponent hp
  have hfind : (h.arrive (Entity.unpack b)).findEntity b.uri = some h.next := by
    rw [sound.keyed.findEntity_arrive hnew]
    exact if_pos rfl
  unfold createEntityHandler
  simp only [hfield, deref, hlive, firstSegment, hperformer, huri, hfirst, hcreate, hadd, hfind,
    if_true, if_false, ne_eq, not_true_eq_false, Option.isNone_some, Bool.false_eq_true,
    bind, Except.bind, pure, Except.pure]

theorem Tree.receive_eq {s : ZstSession} {id : EntityBuffer → ZstMsgID}
    (sound : FindsOwned s.hierarchy) (tree : Tree s.hierarchy endpoint performer (b :: rest)) :
    receive s (request endpoint id b) =
      .ok { s with hierarchy := created s.hierarchy endpoint id b } := by
  have hsession : ZstStageSession.onReceiveMsg s (request endpoint id b) = .ok s := by
    unfold ZstStageSession.onReceiveMsg
    cases getClientFromEndpointUUID s.hierarchy (request endpoint id b).originEndpointUUID <;> rfl
  have hhierarchy : ZstStageHierarchy.onReceiveMsg s.hierarchy (request endpoint id b) =
      .ok (created s.hierarchy endpoint id b) := by
    unfold ZstStageHierarchy.onReceiveMsg ZstStageHierarchy.dispatch
    simp only [request, tree.client, tree.createEntityHandler_eq sound, bind, Except.bind]
    rfl
  unfold receive
  rw [hsession]
  simp only [bind, Except.bind, hhierarchy]
  rfl

theorem Tree.sound_created (sound : FindsOwned h) (tree : Tree h endpoint performer (b :: rest))
    (id : EntityBuffer → ZstMsgID) : FindsOwned (created h endpoint id b) := by
  refine FindsOwned.standing ?_ (created_standing h endpoint id b)
  refine (sound.arrive (unplaced_unpack b) (tree.uri_ne_nil sound)
    (tree.new b List.mem_cons_self).1 ?_).2
  exact addProxyEntity_eq stageOverrides (sound.keyed.above _) (unplaced_unpack b)
    fun p hp => tree.parent_isComponent hp

theorem Tree.standing {k : ZstHierarchy} (tree : Tree h endpoint performer rest)
    (hk : Standing h k) : Tree k endpoint performer rest := by
  have huri := fun e => hk.field Entity.uri (fun _ => rfl) e
  have hkind := fun e => hk.field Entity.isComponent (fun _ => rfl) e
  have hchildren := fun e => hk.field Entity.children (fun _ => rfl) e
  refine ⟨hk.getClientFromEndpointUUID_eq endpoint ▸ tree.client, ?_, tree.nodup, tree.kind, ?_,
    ?_, ?_⟩
  · rw [huri, hk.findEntity_eq]
    exact tree.found
  · rw [huri]
    exact tree.below
  · simp only [hk.findEntity_eq, hkind]
    exact tree.parent
  · simp only [hk.findEntity_eq, hchildren]
    exact tree.new

theorem Tree.perm {members : List EntityBuffer} (tree : Tree h endpoint performer members)
    {order : List EntityBuffer} (horder : order.Perm members) :
    Tree h endpoint performer order := by
  refine ⟨tree.client, tree.found, ?_, fun b hb => tree.kind b (horder.mem_iff.mp hb),
    fun b hb => tree.below b (horder.mem_iff.mp hb), fun b hb => ?_,
    fun b hb => tree.new b (horder.mem_iff.mp hb)⟩
  · exact (horder.map EntityBuffer.uri).nodup_iff.mpr tree.nodup
  · refine (tree.parent b (horder.mem_iff.mp hb)).imp_right ?_
    rintro ⟨c, hc, hparent⟩
    exact ⟨c, horder.mem_iff.mpr hc, hparent⟩

/-- The client finds its performer as before. -/
theorem Tree.client_arrive (sound : FindsOwned h) (tree : Tree h endpoint performer (b :: rest)) :
    getClientFromEndpointUUID (h.arrive (Entity.unpack b)) endpoint = some performer := by
  have hkind : (Entity.unpack b).entityType ≠ .performer := by
    rcases tree.kind b List.mem_cons_self with hk | hk | hk <;> simp [Entity.unpack, hk]
  have hold : ∀ e ∈ h.proxies, e ≠ h.next := fun e he =>
    Nat.ne_of_lt (sound.owned.allocated e he)
  have hperformers : getPerformers (h.arrive (Entity.unpack b)) = getPerformers h := by
    unfold getPerformers
    change (h.proxies ++ [h.next]).filter _ = _
    rw [List.filter_append]
    have hlast : [h.next].filter (fun e =>
        ((h.arrive (Entity.unpack b)).entities e).entityType = .performer) = [] := by
      simp [arrive_kind_next, hkind]
    rw [hlast, List.append_nil]
    refine List.filter_congr fun e he => ?_
    rw [arrive_kind h _ (hold e he)]
  have hproxy : ∀ e ∈ getPerformers h, ((h.arrive (Entity.unpack b)).entities e).stageProxy =
      (h.entities e).stageProxy := fun e he => by
    simp only [arrive, if_neg (hold e (List.mem_of_mem_filter he))]
    split <;> rfl
  have hclient := tree.client
  unfold getClientFromEndpointUUID at hclient ⊢
  rw [hperformers, ← hclient]
  refine List.find?_congr fun e he => ?_
  rw [hproxy e he]

/-- The others are a tree that is new to the stage afterwards. -/
theorem Tree.arrive (sound : FindsOwned h) (tree : Tree h endpoint performer (b :: rest)) :
    Tree (h.arrive (Entity.unpack b)) endpoint performer rest := by
  obtain ⟨hnew, hunlisted⟩ := tree.new b List.mem_cons_self
  have huri := tree.uri_ne_nil sound
  obtain ⟨hother, hnodup⟩ := List.nodup_cons.mp tree.nodup
  have hfind : ∀ path, (h.arrive (Entity.unpack b)).findEntity path =
      if path = b.uri then some h.next else h.findEntity path :=
    sound.keyed.findEntity_arrive hnew
  have hold : ∀ {path e}, h.findEntity path = some e → e ≠ h.next := fun he =>
    Nat.ne_of_lt (sound.keyed.allocated _ _ he)
  have hperformer : performer ≠ h.next := hold tree.found
  have hfound : (h.entities performer).uri ≠ b.uri := fun heq => by
    have hfound := tree.found
    rw [heq, hnew] at hfound
    cases hfound
  refine ⟨tree.client_arrive sound, ?_, hnodup, fun c hc => tree.kind c (List.mem_cons_of_mem _ hc),
    fun c hc => ?_, fun c hc => ?_, fun c hc => ?_⟩
  · rw [arrive_uri hperformer, hfind, if_neg hfound]
    exact tree.found
  · rw [arrive_uri hperformer]
    exact tree.below c (List.mem_cons_of_mem _ hc)
  · rcases tree.parent c (List.mem_cons_of_mem _ hc) with ⟨p, hp, hkind⟩ | ⟨d, hd, hkind, hduri⟩
    · left
      refine ⟨p, ?_, ?_⟩
      · rw [hfind, if_neg fun heq => ?_]
        · exact hp
        · rw [heq, hnew] at hp
          cases hp
      · unfold Entity.isComponent at hkind ⊢
        rw [arrive_kind h _ (hold hp)]
        exact hkind
    · rcases List.mem_cons.mp hd with rfl | hd
      · left
        refine ⟨h.next, ?_, ?_⟩
        · rw [hfind, if_pos hduri.symm]
          rfl
        · unfold Entity.isComponent
          rw [arrive_kind_next]
          simp [Entity.unpack, hkind]
      · exact Or.inr ⟨d, hd, hkind, hduri⟩
  · obtain ⟨hcnew, hcunlisted⟩ := tree.new c (List.mem_cons_of_mem _ hc)
    have hne : c.uri ≠ b.uri := fun heq => hother (heq ▸ List.mem_map_of_mem hc)
    refine ⟨by rw [hfind, if_neg hne]; exact hcnew, fun p hp hlisted => ?_⟩
    have hlists : (h.arrive (Entity.unpack b)).ListsChild c.uri.parent c.uri := ⟨p, hp, hlisted⟩
    rcases (lists_arrive sound.keyed (unplaced_unpack b) huri hnew _ _).mp hlists with
      ⟨q, hq, hqlisted⟩ | ⟨heq, -, -⟩
    · exact hcunlisted q hq hqlisted
    · exact hne heq

end One

/-! ## All requests -/

section All

variable {s : ZstSession} {endpoint : Endpoint} {performer : EntityId}
  {order : List EntityBuffer} {id : EntityBuffer → ZstMsgID}

/-- What the stage shows after a tree was created in some order. An entity has
its parent, and is its child, only if it came after it. -/
structure Grown (h k : ZstHierarchy) (order : List EntityBuffer) : Prop where
  entry : ∀ path, path ∉ order.map EntityBuffer.uri → k.entryAt path = h.entryAt path
  linked : ParentsFirst (known h) order → ∀ b ∈ order,
    k.entryAt b.uri = some (b.entityType, b.uri.parent)
  unlinked : (∀ b ∈ order, k.entryAt b.uri = some (b.entityType, b.uri.parent)) →
    ParentsFirst (known h) order
  lists : ParentsFirst (known h) order → ∀ path child, k.ListsChild path child ↔
    h.ListsChild path child ∨ ∃ b ∈ order, child = b.uri ∧ path = b.uri.parent

theorem known_created {h : ZstHierarchy} {b : EntityBuffer} {rest : List EntityBuffer}
    (sound : FindsOwned h) (tree : Tree h endpoint performer (b :: rest)) :
    known (created h endpoint id b) = fun path => path = b.uri || known h path := by
  funext path
  change ((h.arrive (Entity.unpack b)).findEntity path).isSome = _
  rw [sound.keyed.findEntity_arrive (tree.new b List.mem_cons_self).1]
  by_cases hpath : path = b.uri
  · simp [hpath, Entity.unpack]
  · have hpath' : path ≠ (Entity.unpack b).uri := hpath
    simp [hpath, hpath', known]

theorem created_sent (h : ZstHierarchy) (b : EntityBuffer) :
    (created h endpoint id b).sent = h.sent ++
      [{ target := endpoint, content := .signalMessage .ok, msgID := some (id b) }] := rfl

/-- One entity, and then the rest of the tree. -/
theorem Grown.cons {h k : ZstHierarchy} {b : EntityBuffer} {rest : List EntityBuffer}
    (sound : FindsOwned h) (tree : Tree h endpoint performer (b :: rest))
    (hgrown : Grown (created h endpoint id b) k rest) : Grown h k (b :: rest) := by
  obtain ⟨hnew, hunlisted⟩ := tree.new b List.mem_cons_self
  obtain ⟨hother, -⟩ := List.nodup_cons.mp tree.nodup
  have hentry : ∀ path, (created h endpoint id b).entryAt path =
      if path = b.uri then
        some (b.entityType, if (h.findEntity b.uri.parent).isSome then b.uri.parent else [])
      else h.entryAt path :=
    entryAt_arrive sound.keyed (unplaced_unpack b) hnew hunlisted
  have hlists : ∀ path child, (created h endpoint id b).ListsChild path child ↔
      h.ListsChild path child ∨
        child = b.uri ∧ path = b.uri.parent ∧ (h.findEntity path).isSome = true :=
    lists_arrive sound.keyed (unplaced_unpack b) (tree.uri_ne_nil sound) hnew
  have hb : k.entryAt b.uri =
      some (b.entityType, if (h.findEntity b.uri.parent).isSome then b.uri.parent else []) := by
    rw [hgrown.entry b.uri hother, hentry, if_pos rfl]
  have hlinked := hgrown.linked
  have hunlinked := hgrown.unlinked
  have hchildren := hgrown.lists
  simp only [known_created sound tree] at hlinked hunlinked hchildren
  refine ⟨fun path hpath => ?_, fun hfirst c hc => ?_, fun hall => ⟨?_, hunlinked fun c hc => ?_⟩,
    fun hfirst path child => ?_⟩
  · rw [List.map_cons, List.mem_cons, not_or] at hpath
    rw [hgrown.entry path hpath.2, hentry, if_neg hpath.1]
  · rcases List.mem_cons.mp hc with rfl | hc
    · have hknown : (h.findEntity c.uri.parent).isSome = true := hfirst.1
      rw [hb, if_pos hknown]
    · exact hlinked hfirst.2 c hc
  · -- an entity that has its parent's address came after its parent
    have hparent := hb.symm.trans (hall b List.mem_cons_self)
    change (h.findEntity b.uri.parent).isSome = true
    by_contra hmissing
    rw [if_neg hmissing] at hparent
    exact tree.parent_ne_nil sound (Prod.mk.inj (Option.some.inj hparent)).2.symm
  · exact hall c (List.mem_cons_of_mem _ hc)
  · have hknown : (h.findEntity b.uri.parent).isSome = true := hfirst.1
    rw [hchildren hfirst.2, hlists]
    constructor
    · rintro ((hold | ⟨hchild, hpath, -⟩) | ⟨c, hc, hcuri⟩)
      · exact Or.inl hold
      · exact Or.inr ⟨b, List.mem_cons_self, hchild, hpath⟩
      · exact Or.inr ⟨c, List.mem_cons_of_mem _ hc, hcuri⟩
    · rintro (hold | ⟨c, hc, hchild, hpath⟩)
      · exact Or.inl (Or.inl hold)
      · rcases List.mem_cons.mp hc with rfl | hc
        · exact Or.inl (Or.inr ⟨hchild, hpath, hpath ▸ hknown⟩)
        · exact Or.inr ⟨c, hc, hchild, hpath⟩

/-- Every order of creation succeeds, and every request is answered with OK. -/
theorem Tree.create_grown (sound : FindsOwned s.hierarchy)
    (tree : Tree s.hierarchy endpoint performer order) :
    ∃ t, create s endpoint id order = .ok t ∧ AllOk s t endpoint id order ∧
      Grown s.hierarchy t.hierarchy order := by
  induction order generalizing s with
  | nil => exact ⟨s, rfl, by simp [AllOk], fun _ _ => rfl, by simp, fun _ => trivial, by simp⟩
  | cons b rest ih =>
    obtain ⟨t, hrun, hok, hgrown⟩ := ih
      (s := { s with hierarchy := created s.hierarchy endpoint id b })
      (tree.sound_created sound id)
      ((tree.arrive sound).standing (created_standing _ endpoint id b))
    refine ⟨t, Library.run_cons_ok.mpr ⟨_, tree.receive_eq sound, hrun⟩, ?_,
      hgrown.cons sound tree⟩
    unfold AllOk at hok ⊢
    rw [hok, created_sent, List.append_assoc]
    rfl

end All

/-- The tree, created in any order, is the tree created ancestors first if and
only if every entity was created after its parent. All requests are answered
with OK in any case. -/
theorem sameTree_iff_parentsFirst {s : ZstSession} {endpoint : Endpoint} {performer : EntityId}
    {order ancestorsFirst : List EntityBuffer} (id : EntityBuffer → ZstMsgID)
    (sound : FindsOwned s.hierarchy) (tree : Tree s.hierarchy endpoint performer ancestorsFirst)
    (horder : order.Perm ancestorsFirst)
    (hfirst : ParentsFirst (known s.hierarchy) ancestorsFirst) :
    ∃ t u, create s endpoint id ancestorsFirst = .ok t ∧
      AllOk s t endpoint id ancestorsFirst ∧
      create s endpoint id order = .ok u ∧ AllOk s u endpoint id order ∧
      (SameEntries t.hierarchy u.hierarchy ↔ ParentsFirst (known s.hierarchy) order) := by
  obtain ⟨t, ht, htok, tgrown⟩ := tree.create_grown sound
  obtain ⟨u, hu, huok, ugrown⟩ := (tree.perm horder).create_grown sound
  refine ⟨t, u, ht, htok, hu, huok, fun hsame => ?_, fun horderFirst => ⟨fun path => ?_, ?_⟩⟩
  · refine ugrown.unlinked fun b hb => ?_
    rw [hsame.entry, tgrown.linked hfirst b (horder.mem_iff.mp hb)]
  · by_cases hpath : path ∈ order.map EntityBuffer.uri
    · obtain ⟨b, hb, rfl⟩ := List.mem_map.mp hpath
      rw [ugrown.linked horderFirst b hb, tgrown.linked hfirst b (horder.mem_iff.mp hb)]
    · have hpath' : path ∉ ancestorsFirst.map EntityBuffer.uri := fun hmem =>
        hpath ((horder.map EntityBuffer.uri).mem_iff.mpr hmem)
      rw [ugrown.entry path hpath, tgrown.entry path hpath']
  · intro path child
    rw [ugrown.lists horderFirst, tgrown.lists hfirst]
    simp only [horder.mem_iff]

/-- The stage that `ada` has joined. -/
def joinedStage : ZstSession :=
  (Library.run step opened [joining "ada" 1]).toOption.getD opened

/-- A component of `ada` with a plug. -/
def component : EntityBuffer :=
  { entityType := .component, uri := ["ada", "sum"] }

def plug : EntityBuffer :=
  { entityType := .plug, uri := ["ada", "sum", "out"], direction := .outJack }

theorem joinedStage_sound : FindsOwned joinedStage.hierarchy := by
  have hrun : Library.run step opened [joining "ada" 1] = .ok joinedStage := rfl
  obtain ⟨s, hstep, hnil⟩ := Library.run_cons_ok.mp hrun
  obtain rfl := Except.ok.inj hnil
  exact sound_opened.step (by decide) hstep

theorem joinedStage_tree : Tree joinedStage.hierarchy 1 0 [component, plug] :=
  ⟨by decide, by decide, by decide, by decide, by decide, by decide, by decide⟩

theorem sameTree_iff_parentsFirst_plug :
    FindsOwned joinedStage.hierarchy ∧ Tree joinedStage.hierarchy 1 0 [component, plug] ∧
    ∃ t u, create joinedStage 1 (fun _ => 7) [component, plug] = .ok t ∧
      AllOk joinedStage t 1 (fun _ => 7) [component, plug] ∧
      create joinedStage 1 (fun _ => 7) [component, plug] = .ok u ∧
      AllOk joinedStage u 1 (fun _ => 7) [component, plug] ∧
      (SameEntries t.hierarchy u.hierarchy ↔
        ParentsFirst (known joinedStage.hierarchy) [component, plug]) :=
  ⟨joinedStage_sound, joinedStage_tree, sameTree_iff_parentsFirst _ joinedStage_sound
    joinedStage_tree (List.Perm.refl _) (by decide)⟩

/-- The request for the plug overtakes the one for its component. -/
theorem overtaken_not_sameTree :
    ¬ ∀ (s : ZstSession) (endpoint : Endpoint) (performer : EntityId)
      (order ancestorsFirst : List EntityBuffer) (id : EntityBuffer → ZstMsgID) (t u : ZstSession),
      FindsOwned s.hierarchy → Tree s.hierarchy endpoint performer ancestorsFirst →
      order.Perm ancestorsFirst → ParentsFirst (known s.hierarchy) ancestorsFirst →
      create s endpoint id ancestorsFirst = .ok t → AllOk s t endpoint id ancestorsFirst →
      create s endpoint id order = .ok u → AllOk s u endpoint id order →
      SameEntries t.hierarchy u.hierarchy := by
  intro hsame
  have hentry := (hsame joinedStage 1 0 [plug, component] [component, plug] (fun _ => 7) _ _
    joinedStage_sound joinedStage_tree (List.Perm.swap _ _ _) (by decide) rfl rfl rfl rfl).entry
    plug.uri
  exact absurd hentry (by decide)

end Showtime.CreateOrder
