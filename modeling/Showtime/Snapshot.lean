import Mathlib.Tactic.IntervalCases
import Showtime.Arriving
import Showtime.Standing
import Showtime.Tree
/-!
# The graph snapshot

A client that has joined asks for the graph, and the stage whispers to it what
it has: every entity of the other performers, and then every cable. The client
builds its proxies from these messages in the order in which they come.
-/

namespace Showtime.Snapshot

open ZstHierarchy ZstStageHierarchy ZstStageSession

/-! ## The stage -/

/-- The stage owns what it finds, and the performers are the roots of its
trees. -/
structure StageOwnsTree (h : ZstHierarchy) : Prop where
  tree : RegisteredTree h
  stage : h.root = none
  owned : ∀ e, h.InTree e ↔ e ∈ h.proxies
  allocated : ∀ e, h.InTree e → e < h.next
  performer : ∀ e, h.InTree e →
    ((h.entities e).entityType = .performer ↔ (h.entities e).parentAddress = [])
  kind : ∀ e, h.InTree e → (h.entities e).entityType ≠ .none

/-- The addresses of the session's cables. -/
def addresses (s : ZstSession) : List ZstCableAddress :=
  s.cables.map fun c => (s.cableObjects c).address

/-- Every cable is between two plugs, and no other one is between the same. -/
structure CablesBetweenPlugs (s : ZstSession) : Prop where
  input : ∀ a ∈ addresses s, (s.findInputPlug a.inputURI).isSome = true
  output : ∀ a ∈ addresses s, (s.findOutputPlug a.outputURI).isSome = true
  nodup : (addresses s).Nodup

/-- The messages that `synchronise_client_graph_handler` whispers to a client. -/
def snapshot (s : ZstSession) (sender : EntityId) : List Content :=
  ((synchroniseClientGraphHandler s sender).1.hierarchy.sent.drop s.hierarchy.sent.length).map
    Outgoing.content

/-- The entities of the other performers, in the order of the snapshot. -/
def published (h : ZstHierarchy) (sender : EntityId) : List EntityId :=
  ((getPerformers h).filter fun e => (h.entities e).uri ≠ (h.entities sender).uri).flatMap
    h.getChildEntities

theorem foldl_whisperTo {Item : Type} {sender : EntityId} {proxy : StageProxy}
    (content : (EntityId → Entity) → Item → Content) (items : List Item) (h : ZstHierarchy)
    (hproxy : (h.entities sender).stageProxy = some proxy) :
    items.foldl (fun h a => whisperTo h sender (content h.entities a) none none) h =
      { h with
        sent := h.sent ++ items.map fun a =>
          { target := proxy.originEndpointUUID, content := content h.entities a } } := by
  induction items generalizing h with
  | nil => simp
  | cons a items ih =>
    have hfirst : whisperTo h sender (content h.entities a) none none =
        { h with
          sent := h.sent ++
            [{ target := proxy.originEndpointUUID, content := content h.entities a }] } := by
      unfold whisperTo
      rw [hproxy]
      rfl
    rw [List.foldl_cons, hfirst]
    refine (ih { h with
      sent := h.sent ++
        [{ target := proxy.originEndpointUUID, content := content h.entities a }] } hproxy).trans ?_
    simp

theorem snapshot_eq {s : ZstSession} {sender : EntityId}
    (hproxy : (s.hierarchy.entities sender).stageProxy.isSome = true) :
    snapshot s sender =
      (published s.hierarchy sender).map
          (fun e => .entityCreateRequest (s.hierarchy.entities e).serialize) ++
        (addresses s).map .cableCreateRequest := by
  obtain ⟨proxy, hproxy⟩ := Option.isSome_iff_exists.mp hproxy
  have hentities := foldl_whisperTo (fun entities e => .entityCreateRequest (entities e).serialize)
    (published s.hierarchy sender) s.hierarchy hproxy
  have hcables := foldl_whisperTo (fun _ c => .cableCreateRequest (s.cableObjects c).address)
    s.cables { s.hierarchy with
      sent := s.hierarchy.sent ++ (published s.hierarchy sender).map fun e =>
        { target := proxy.originEndpointUUID
          content := .entityCreateRequest (s.hierarchy.entities e).serialize } } hproxy
  unfold snapshot synchroniseClientGraphHandler
  simp only
  unfold published at hentities hcables ⊢
  rw [hentities, hcables]
  simp [addresses, Function.comp_def]

/-! ## Parents come first -/

/-- Every entity comes after its parent, if it has one. -/
def AncestorsFirst (h : ZstHierarchy) : (ZstURI → Prop) → List EntityId → Prop
  | _, [] => True
  | known, e :: rest =>
    ((h.entities e).parentAddress = [] ∨ known (h.entities e).parentAddress) ∧
      AncestorsFirst h (fun path => path = (h.entities e).uri ∨ known path) rest

section Order

variable {h : ZstHierarchy}

theorem ancestorsFirst_cons {known : ZstURI → Prop} {e : EntityId} {rest : List EntityId} :
    AncestorsFirst h known (e :: rest) ↔
      ((h.entities e).parentAddress = [] ∨ known (h.entities e).parentAddress) ∧
        AncestorsFirst h (fun path => path = (h.entities e).uri ∨ known path) rest :=
  Iff.rfl

theorem AncestorsFirst.mono {known more : ZstURI → Prop} (hmore : ∀ path, known path → more path)
    {order : List EntityId} (hfirst : AncestorsFirst h known order) :
    AncestorsFirst h more order := by
  induction order generalizing known more with
  | nil => trivial
  | cons e rest ih =>
    exact ⟨hfirst.1.imp_right (hmore _), ih (fun path => Or.imp_right (hmore path)) hfirst.2⟩

theorem ancestorsFirst_append {known : ZstURI → Prop} {first second : List EntityId} :
    AncestorsFirst h known (first ++ second) ↔ AncestorsFirst h known first ∧
      AncestorsFirst h (fun path => known path ∨ ∃ e ∈ first, (h.entities e).uri = path) second := by
  induction first generalizing known with
  | nil => simp [AncestorsFirst]
  | cons e rest ih =>
    rw [List.cons_append, ancestorsFirst_cons, ancestorsFirst_cons, ih, and_assoc]
    have hknown : (fun path => (path = (h.entities e).uri ∨ known path) ∨
        ∃ d ∈ rest, (h.entities d).uri = path) =
        fun path => known path ∨ ∃ d ∈ e :: rest, (h.entities d).uri = path := by
      funext path
      simp only [List.mem_cons, exists_eq_or_imp, eq_comm (a := path)]
      exact propext (by tauto)
    rw [hknown]

/-- A list of lists each of which is ordered. -/
theorem ancestorsFirst_flatMap {known : ZstURI → Prop} {f : EntityId → List EntityId}
    {items : List EntityId} (hitems : ∀ e ∈ items, AncestorsFirst h known (f e)) :
    AncestorsFirst h known (items.flatMap f) := by
  induction items generalizing known with
  | nil => trivial
  | cons e rest ih =>
    rw [List.flatMap_cons, ancestorsFirst_append]
    refine ⟨hitems e List.mem_cons_self, ih fun d hd => ?_⟩
    exact (hitems d (List.mem_cons_of_mem _ hd)).mono fun _ => Or.inl

/-- `get_child_entities` lists ancestors first. -/
theorem descendants_ancestorsFirst (tree : RegisteredTree h) (n : Nat) {known : ZstURI → Prop}
    {e : EntityId} (he : h.InTree e)
    (hparent : (h.entities e).parentAddress = [] ∨ known (h.entities e).parentAddress) :
    AncestorsFirst h known (h.descendants n e) := by
  induction n generalizing known e with
  | zero => exact ⟨hparent, trivial⟩
  | succ n ih =>
    refine ⟨hparent, ancestorsFirst_flatMap fun c hc => ?_⟩
    obtain ⟨q, hq, hlookup⟩ := tree.hasChild_of_mem hc
    obtain ⟨c', s, hlookup', haddress, -⟩ := tree.child e he q hq
    obtain rfl : c' = c := Option.some.inj (hlookup'.symm.trans hlookup)
    exact ih (tree.inTree_of_lookup hlookup) (Or.inr (Or.inl haddress))

end Order

/-! ## What is published -/

section Published

variable {h : ZstHierarchy} (consistent : StageOwnsTree h)

include consistent

theorem StageOwnsTree.mem_getPerformers {e : EntityId} :
    e ∈ getPerformers h ↔ h.InTree e ∧ (h.entities e).entityType = .performer := by
  simp [getPerformers, ← consistent.owned]

theorem StageOwnsTree.performer_uri {e : EntityId} (he : h.InTree e)
    (hperformer : (h.entities e).entityType = .performer) : (h.entities e).uri.length = 1 :=
  consistent.tree.top e he ((consistent.performer e he).mp hperformer)

/-- The address of the parent is what the path says. -/
theorem StageOwnsTree.parent_uri {e : EntityId} (he : h.InTree e) :
    (h.entities e).uri.parent = (h.entities e).parentAddress := by
  by_cases haddress : (h.entities e).parentAddress = []
  · obtain ⟨s, huri⟩ := List.length_eq_one_iff.mp (consistent.tree.top e he haddress)
    rw [haddress, huri]
    rfl
  · obtain ⟨p, hp, -, hlists⟩ := consistent.tree.parent e he haddress
    have hpTree := consistent.tree.inTree_of_lookup hp
    have hpURI := (consistent.tree.keyed _ p hp).1
    obtain ⟨s, huri⟩ := consistent.tree.uri_of_hasChild hpTree ⟨_, hlists, he⟩
    rw [huri, ZstURI.parent_append, hpURI]
    intro hempty
    exact (consistent.tree.segments p hpTree).2 (by rw [hempty]; exact List.mem_singleton_self _)

/-- What is below an address is below everything that the address is below. -/
theorem StageOwnsTree.contains_of_parent {e : EntityId} (he : h.InTree e) {own : ZstURI}
    (hparent : (h.entities e).parentAddress.contains own = true) :
    (h.entities e).uri.contains own = true := by
  have hextends : (h.entities e).parentAddress <+: (h.entities e).uri := by
    rw [← consistent.parent_uri he]
    unfold ZstURI.parent ZstURI.ofSegments
    split
    · exact List.nil_prefix
    · exact List.dropLast_prefix _
  simp only [ZstURI.contains, Bool.and_eq_true, List.isPrefixOf_iff_prefix] at hparent ⊢
  exact ⟨hparent.1, hparent.2.trans hextends⟩

/-- An entity is listed by its parent, and by nobody else. -/
theorem StageOwnsTree.lists_iff {e : EntityId} (he : h.InTree e) (path : ZstURI) :
    h.ListsChild path (h.entities e).uri ↔
      path = (h.entities e).parentAddress ∧ (h.entities e).parentAddress ≠ [] := by
  unfold ZstHierarchy.ListsChild
  simp only [consistent.tree.findEntity_eq]
  constructor
  · rintro ⟨p, hp, hlists⟩
    have hpTree := consistent.tree.inTree_of_lookup hp
    obtain ⟨c, -, hc, haddress, -⟩ := consistent.tree.child p hpTree _ hlists
    obtain rfl : c = e := Option.some.inj (hc.symm.trans he)
    rw [haddress]
    exact ⟨(consistent.tree.keyed _ p hp).1.symm, (consistent.tree.segments p hpTree).1⟩
  · rintro ⟨rfl, haddress⟩
    obtain ⟨p, hp, -, hlists⟩ := consistent.tree.parent e he haddress
    exact ⟨p, hp, hlists⟩

/-- Every entity is below a performer, or one itself. -/
theorem StageOwnsTree.exists_performer {e : EntityId} (he : h.InTree e) :
    ∃ q, h.InTree q ∧ (h.entities q).entityType = .performer ∧ h.Below q e := by
  generalize hlength : (h.entities e).uri.length = n
  induction n using Nat.strong_induction_on generalizing e with
  | _ n ih =>
    by_cases haddress : (h.entities e).parentAddress = []
    · exact ⟨e, he, (consistent.performer e he).mpr haddress, .refl⟩
    · obtain ⟨p, hp, -, hlists⟩ := consistent.tree.parent e he haddress
      have hpTree := consistent.tree.inTree_of_lookup hp
      have hchild : h.HasChild p e := ⟨_, hlists, he⟩
      obtain ⟨s, huri⟩ := consistent.tree.uri_of_hasChild hpTree hchild
      have hlt : (h.entities p).uri.length < n := by
        rw [← hlength, huri, List.length_append, List.length_singleton]
        exact Nat.lt_succ_self _
      obtain ⟨q, hq, hperformer, hbelow⟩ := ih _ hlt hpTree rfl
      exact ⟨q, hq, hperformer, hbelow.tail hchild⟩

variable {sender : EntityId} (hsender : h.InTree sender)
  (hperformer : (h.entities sender).entityType = .performer)

include hsender hperformer

/-- The snapshot has the entities that are not below the client's performer. -/
theorem StageOwnsTree.mem_published {e : EntityId} :
    e ∈ published h sender ↔
      h.InTree e ∧ ¬ (h.entities e).uri.contains (h.entities sender).uri = true := by
  have htree := consistent.tree
  have hcontains : ∀ u : ZstURI, u.contains (h.entities sender).uri = true ↔
      (h.entities sender).uri <+: u := by
    intro u
    have hne := (htree.segments sender hsender).1
    simp [ZstURI.contains, hne]
  have hsenderURI := consistent.performer_uri hsender hperformer
  unfold published
  simp only [List.mem_flatMap, List.mem_filter, consistent.mem_getPerformers, hcontains,
    decide_eq_true_eq]
  constructor
  · rintro ⟨q, ⟨⟨hq, hqPerformer⟩, hne⟩, hmem⟩
    have hbelow := htree.below_of_mem_descendants hmem
    refine ⟨htree.inTree_of_below hq hbelow, fun hextends => hne ?_⟩
    have hqURI := consistent.performer_uri hq hqPerformer
    exact (List.prefix_of_prefix_length_le (htree.prefix_of_below hq hbelow) hextends
      (by omega)).eq_of_length (by omega)
  · rintro ⟨he, hextends⟩
    obtain ⟨q, hq, hqPerformer, hbelow⟩ := consistent.exists_performer he
    refine ⟨q, ⟨⟨hq, hqPerformer⟩, fun heq => hextends ?_⟩, ?_⟩
    · rw [← heq]
      exact htree.prefix_of_below hq hbelow
    · exact (htree.mem_getChildEntities consistent.allocated hq).mpr hbelow

omit hsender hperformer in
theorem StageOwnsTree.published_ancestorsFirst :
    AncestorsFirst h (fun _ => False) (published h sender) := by
  refine ancestorsFirst_flatMap fun q hq => ?_
  obtain ⟨hq, hqPerformer⟩ := consistent.mem_getPerformers.mp (List.mem_of_mem_filter hq)
  exact descendants_ancestorsFirst consistent.tree _ hq
    (Or.inl ((consistent.performer q hq).mp hqPerformer))

end Published

/-! ## The client's proxies -/

/-- Whether the entity at a path is an input plug, and an output plug. -/
def portAt (h : ZstHierarchy) (path : ZstURI) : Option (Bool × Bool) :=
  (h.findEntity path).map fun e => ((h.entities e).isInputPlug, (h.entities e).isOutputPlug)

theorem portAt_arrive {h : ZstHierarchy} {x : Entity} (keyed : Keyed h)
    (hnew : h.findEntity x.uri = none) (path : ZstURI) :
    portAt (h.arrive x) path =
      if path = x.uri then some (x.isInputPlug, x.isOutputPlug) else portAt h path := by
  have hdirection : (h.placed x).direction = x.direction := by
    unfold placed
    split
    · split
      · rfl
      · simp only
        split <;> rfl
    · rfl
  unfold portAt
  rw [keyed.findEntity_arrive hnew]
  split
  · simp [arrive, Entity.isInputPlug, Entity.isOutputPlug, placed_entityType, hdirection]
  · cases hpath : h.findEntity path with
    | none => rfl
    | some e =>
      have hold : e ≠ h.next := Nat.ne_of_lt (keyed.allocated path e hpath)
      simp only [Option.map_some, arrive, if_neg hold]
      split <;> rfl

theorem isInputPlug_unpack (x : Entity) :
    (Entity.unpack x.serialize).isInputPlug = x.isInputPlug := by
  by_cases hplug : x.entityType = .plug
  · simp [Entity.isInputPlug, Entity.unpack, Entity.serialize, hplug]
  · have hkind : (x.entityType == .plug) = false := beq_eq_false_iff_ne.mpr hplug
    simp [Entity.isInputPlug, Entity.unpack, Entity.serialize, hkind]

theorem isOutputPlug_unpack (x : Entity) :
    (Entity.unpack x.serialize).isOutputPlug = x.isOutputPlug := by
  by_cases hplug : x.entityType = .plug
  · simp [Entity.isOutputPlug, Entity.unpack, Entity.serialize, hplug]
  · have hkind : (x.entityType == .plug) = false := beq_eq_false_iff_ne.mpr hplug
    simp [Entity.isOutputPlug, Entity.unpack, Entity.serialize, hkind]

/-- The client has its root, and the stage's entities at some paths. -/
structure Mirrored (h : ZstHierarchy) (own : ZstURI) (done : ZstURI → Prop)
    (k : ZstHierarchy) : Prop where
  keyed : Keyed k
  root : ∃ r, k.root = some r ∧ (k.entities r).uri = own ∧ (k.entities r).entityType = .performer
  found : ∀ path, path ≠ own → ((k.findEntity path).isSome = true ↔ done path)
  entry : ∀ path, done path → k.entryAt path = h.entryAt path
  port : ∀ path, done path → portAt k path = portAt h path
  lists : ∀ path child, k.ListsChild path child ↔ done child ∧ h.ListsChild path child

namespace Mirrored

variable {h k : ZstHierarchy} {own : ZstURI} {done : ZstURI → Prop}

theorem rootURI_eq (mirrored : Mirrored h own done k) : ZstClientHierarchy.rootURI k = own := by
  obtain ⟨r, hr, huri, -⟩ := mirrored.root
  unfold ZstClientHierarchy.rootURI
  rw [hr]
  exact huri

theorem standing {l : ZstHierarchy} (mirrored : Mirrored h own done k) (hl : Standing k l) :
    Mirrored h own done l := by
  have hfind := hl.findEntity_eq
  have huri := fun e => hl.field Entity.uri (fun _ => rfl) e
  have hkind := fun e => hl.field Entity.entityType (fun _ => rfl) e
  have hentry : ∀ path, l.entryAt path = k.entryAt path := fun path => by
    simp only [entryAt, hfind, hkind, hl.field Entity.parentAddress fun _ => rfl]
  have hport : ∀ path, portAt l path = portAt k path := fun path => by
    simp only [portAt, hfind, hl.field Entity.isInputPlug fun _ => rfl,
      hl.field Entity.isOutputPlug fun _ => rfl]
  have hlists : ∀ path child,
      l.ListsChild path child ↔ k.ListsChild path child := fun path child => by
    simp only [ZstHierarchy.ListsChild, hfind, hl.field Entity.children fun _ => rfl]
  refine ⟨⟨fun q e hq => ?_, fun q e hq => ?_, ?_⟩, ?_, fun path hpath => ?_, fun path hpath => ?_,
    fun path hpath => ?_, fun path child => ?_⟩
  · rw [huri]
    exact mirrored.keyed.uri q e (hfind q ▸ hq)
  · rw [hl.next]
    exact mirrored.keyed.allocated q e (hfind q ▸ hq)
  · rw [hfind]
    exact mirrored.keyed.nowhere
  · simp only [hl.root, huri, hkind]
    exact mirrored.root
  · rw [hfind]
    exact mirrored.found path hpath
  · rw [hentry, mirrored.entry path hpath]
  · rw [hport, mirrored.port path hpath]
  · rw [hlists, mirrored.lists]

/-- A known path, and one below the root, is no news to the client. -/
theorem ignores (mirrored : Mirrored h own done k) (v : Overrides) {x : Entity}
    (hkind : x.entityType ≠ .none)
    (hknown : x.uri.contains own = true ∨ done x.uri ∧ x.uri ≠ own) :
    ZstClientHierarchy.onReceiveMsg v k (.entityCreateRequest x.serialize) = .ok k := by
  have hnone : ZstClientHierarchy.createProxyEntity k x.serialize = none := by
    unfold ZstClientHierarchy.createProxyEntity
    rw [mirrored.rootURI_eq]
    rcases hknown with hlocal | ⟨hdone, hne⟩
    · exact if_pos hlocal
    · split
      · rfl
      · exact if_pos ((mirrored.found x.uri hne).mpr hdone)
  unfold ZstClientHierarchy.onReceiveMsg getEntityField
  have hfield : x.serialize.entityType ≠ .none := hkind
  simp only [hfield, if_false, hnone, bind, Except.bind, pure, Except.pure]

/-- The client finds a component where the stage does. -/
theorem parent_isComponent (mirrored : Mirrored h own done k) (consistent : StageOwnsTree h)
    {e p : EntityId} (he : h.InTree e)
    (hparent : (h.entities e).parentAddress = [] ∨ done (h.entities e).parentAddress)
    (hp : k.findEntity (h.entities e).uri.parent = some p) :
    (k.entities p).isComponent = true := by
  rw [consistent.parent_uri he] at hp
  have haddress : (h.entities e).parentAddress ≠ [] := by
    intro hempty
    rw [hempty, mirrored.keyed.nowhere] at hp
    cases hp
  obtain ⟨q, hq, hcomponent, -⟩ := consistent.tree.parent e he haddress
  have hentry := mirrored.entry _ (hparent.resolve_left haddress)
  rw [← consistent.tree.findEntity_eq] at hq
  unfold entryAt at hentry
  rw [hp, hq] at hentry
  have hkind := (Prod.mk.inj (Option.some.inj hentry)).1
  unfold Entity.isComponent at hcomponent ⊢
  rw [hkind]
  exact hcomponent

/-- The client has the parent of whoever has one. -/
theorem parent_found (mirrored : Mirrored h own done k) (consistent : StageOwnsTree h)
    {e : EntityId}
    (he : h.InTree e) (houtside : ¬ (h.entities e).uri.contains own = true)
    (hown : own.contains own = true)
    (hparent : (h.entities e).parentAddress = [] ∨ done (h.entities e).parentAddress) :
    (k.findEntity (h.entities e).uri.parent).isSome = true ↔
      (h.entities e).parentAddress ≠ [] := by
  rw [consistent.parent_uri he]
  constructor
  · intro hsome hempty
    rw [hempty, mirrored.keyed.nowhere] at hsome
    cases hsome
  · intro haddress
    refine (mirrored.found _ fun heq => houtside ?_).mpr (hparent.resolve_left haddress)
    exact consistent.contains_of_parent he (heq ▸ hown)

/-- A proxy of an entity of the stage, with all that its path says. -/
structure ProxyOf (h : ZstHierarchy) (e : EntityId) (x : Entity) : Prop where
  unplaced : Unplaced x
  uri : x.uri = (h.entities e).uri
  entityType : x.entityType = (h.entities e).entityType
  input : x.isInputPlug = (h.entities e).isInputPlug
  output : x.isOutputPlug = (h.entities e).isOutputPlug

theorem proxyOf_unpack (h : ZstHierarchy) (e : EntityId) :
    ProxyOf h e (Entity.unpack (h.entities e).serialize) :=
  ⟨unplaced_unpack _, rfl, rfl, isInputPlug_unpack _, isOutputPlug_unpack _⟩

/-- The new proxy shows what the stage shows. -/
theorem arrive (mirrored : Mirrored h own done k) (consistent : StageOwnsTree h) {e : EntityId}
    {x : Entity} (proxy : ProxyOf h e x) (he : h.InTree e)
    (houtside : ¬ (h.entities e).uri.contains own = true) (hown : own.contains own = true)
    (hparent : (h.entities e).parentAddress = [] ∨ done (h.entities e).parentAddress)
    (hdone : ¬ done (h.entities e).uri) :
    Mirrored h own (fun path => path = (h.entities e).uri ∨ done path) (k.arrive x) := by
  have hne : (h.entities e).uri ≠ own := fun heq => houtside (heq ▸ hown)
  have hnew : k.findEntity x.uri = none := by
    rw [proxy.uri, ← Option.not_isSome_iff_eq_none, mirrored.found _ hne]
    exact hdone
  have huri : x.uri ≠ [] := proxy.uri ▸ (consistent.tree.segments e he).1
  have hfound := mirrored.parent_found consistent he houtside hown hparent
  have hunlisted : ∀ p ∈ k.findEntity x.uri.parent, x.uri ∉ (k.entities p).children := by
    rw [proxy.uri]
    exact fun p hp hlists => hdone ((mirrored.lists _ _).mp ⟨p, hp, hlists⟩).1
  have hstage : h.findEntity (h.entities e).uri = some e :=
    (consistent.tree.findEntity_eq _).trans he
  refine ⟨mirrored.keyed.arrive hnew huri, ?_, fun path hpath => ?_, fun path hpath => ?_,
    fun path hpath => ?_, fun path child => ?_⟩
  · obtain ⟨r, hr, hrURI, hrKind⟩ := mirrored.root
    have hself : k.findEntity (k.entities r).uri = some r := by
      simp [findEntity, hr]
    have hold : r ≠ k.next := Nat.ne_of_lt (mirrored.keyed.allocated _ r hself)
    refine ⟨r, hr, (arrive_uri hold).trans hrURI, ?_⟩
    simp only [ZstHierarchy.arrive, if_neg hold]
    split <;> exact hrKind
  · rw [mirrored.keyed.findEntity_arrive hnew, proxy.uri, ← mirrored.found path hpath]
    by_cases heq : path = (h.entities e).uri
    · simp [heq]
    · simp [heq]
  · rw [entryAt_arrive mirrored.keyed proxy.unplaced hnew hunlisted, proxy.uri]
    by_cases heq : path = (h.entities e).uri
    · rw [if_pos heq, heq, proxy.entityType]
      unfold entryAt
      rw [hstage, Option.map_some]
      by_cases haddress : (h.entities e).parentAddress = []
      · rw [if_neg fun hsome => hfound.mp hsome haddress, haddress]
      · rw [if_pos (hfound.mpr haddress), consistent.parent_uri he]
    · rw [if_neg heq]
      exact mirrored.entry path (hpath.resolve_left heq)
  · rw [portAt_arrive mirrored.keyed hnew, proxy.uri, proxy.input, proxy.output]
    by_cases heq : path = (h.entities e).uri
    · rw [if_pos heq, heq]
      simp [portAt, hstage]
    · rw [if_neg heq]
      exact mirrored.port path (hpath.resolve_left heq)
  · rw [lists_arrive mirrored.keyed proxy.unplaced huri hnew, mirrored.lists, proxy.uri]
    by_cases heq : child = (h.entities e).uri
    · rw [heq, consistent.lists_iff he, consistent.parent_uri he]
      constructor
      · rintro (⟨hchild, -⟩ | ⟨-, rfl, hsome⟩)
        · exact absurd hchild hdone
        · rw [← consistent.parent_uri he, hfound] at hsome
          exact ⟨Or.inl rfl, rfl, hsome⟩
      · rintro ⟨-, rfl, haddress⟩
        refine Or.inr ⟨rfl, rfl, ?_⟩
        rw [← consistent.parent_uri he, hfound]
        exact haddress
    · simp [heq]

/-- A request of the snapshot, after that for the parent, adds the entity. -/
theorem create (mirrored : Mirrored h own done k) (consistent : StageOwnsTree h) (v : Overrides)
    {e : EntityId} (he : h.InTree e) (houtside : ¬ (h.entities e).uri.contains own = true)
    (hown : own.contains own = true)
    (hparent : (h.entities e).parentAddress = [] ∨ done (h.entities e).parentAddress) :
    ∃ l, ZstClientHierarchy.onReceiveMsg v k
        (.entityCreateRequest (h.entities e).serialize) = .ok l ∧
      Mirrored h own (fun path => path = (h.entities e).uri ∨ done path) l := by
  have hne : (h.entities e).uri ≠ own := fun heq => houtside (heq ▸ hown)
  by_cases hdone : done (h.entities e).uri
  · have hsame : (fun path => path = (h.entities e).uri ∨ done path) = done := by
      funext path
      refine propext (or_iff_right_of_imp ?_)
      rintro rfl
      exact hdone
    rw [hsame]
    exact ⟨k, mirrored.ignores v (consistent.kind e he) (Or.inr ⟨hdone, hne⟩), mirrored⟩
  have proxy := proxyOf_unpack h e
  refine ⟨k.arrive (Entity.unpack (h.entities e).serialize), ?_,
    mirrored.arrive consistent proxy he houtside hown hparent hdone⟩
  have hcreate : ZstClientHierarchy.createProxyEntity k (h.entities e).serialize =
      some (Entity.unpack (h.entities e).serialize) := by
    have hmissing : ¬ (k.findEntity (h.entities e).uri).isSome = true := by
      rw [mirrored.found _ hne]
      exact hdone
    have htop : ¬ ((h.entities e).entityType ≠ .performer ∧ (h.entities e).uri.parent = []) := by
      rw [consistent.parent_uri he, ← consistent.performer e he]
      exact fun hand => hand.1 hand.2
    unfold ZstClientHierarchy.createProxyEntity ZstHierarchy.createProxyEntity
    rw [mirrored.rootURI_eq]
    exact ((if_neg houtside).trans (if_neg hmissing)).trans (if_neg htop)
  have hadd := addProxyEntity_eq v (mirrored.keyed.above _) proxy.unplaced fun p hp =>
    mirrored.parent_isComponent consistent he hparent hp
  unfold ZstClientHierarchy.onReceiveMsg getEntityField
  have hfield : (h.entities e).serialize.entityType ≠ .none := consistent.kind e he
  simp only [hfield, if_false, bind, Except.bind, hcreate]
  exact hadd

theorem receive_create {v : Overrides} {c : ZstSession} {buffer : EntityBuffer} {l : ZstHierarchy}
    (hrun : ZstClientHierarchy.onReceiveMsg v c.hierarchy (.entityCreateRequest buffer) = .ok l) :
    ZstClientSession.receive v c (.entityCreateRequest buffer) = .ok { c with hierarchy := l } := by
  unfold ZstClientSession.receive ZstClientSession.onReceiveMsg
  simp only [hrun, bind, Except.bind]
  rfl

/-- The requests for entities in an order that has ancestors first. -/
theorem create_all {c : ZstSession} (mirrored : Mirrored h own done c.hierarchy)
    (consistent : StageOwnsTree h) (v : Overrides) (hown : own.contains own = true)
    {order : List EntityId} (hfirst : AncestorsFirst h done order)
    (hmem : ∀ e ∈ order, h.InTree e ∧ ¬ (h.entities e).uri.contains own = true) :
    ∃ l, Library.run (ZstClientSession.receive v) c
        (order.map fun e => .entityCreateRequest (h.entities e).serialize) =
          .ok { c with hierarchy := l } ∧
      Mirrored h own (fun path => done path ∨ ∃ e ∈ order, (h.entities e).uri = path) l := by
  induction order generalizing c done with
  | nil => exact ⟨c.hierarchy, rfl, by simpa using mirrored⟩
  | cons e rest ih =>
    obtain ⟨he, houtside⟩ := hmem e List.mem_cons_self
    obtain ⟨l, hl, hmirrored⟩ := mirrored.create consistent v he houtside hown hfirst.1
    obtain ⟨m, hm, hlast⟩ := ih (c := { c with hierarchy := l }) hmirrored hfirst.2
      fun d hd => hmem d (List.mem_cons_of_mem _ hd)
    refine ⟨m, Library.run_cons_ok.mpr ⟨_, receive_create hl, hm⟩, ?_⟩
    have hdone : (fun path => (path = (h.entities e).uri ∨ done path) ∨
        ∃ d ∈ rest, (h.entities d).uri = path) =
        fun path => done path ∨ ∃ d ∈ e :: rest, (h.entities d).uri = path := by
      funext path
      simp only [List.mem_cons, exists_eq_or_imp, eq_comm (a := path)]
      exact propext (by tauto)
    exact hdone ▸ hlast

end Mirrored

/-! ## The client's cables -/

/-- The path of an entity of the stage outside the client's own performer. -/
def Remote (h : ZstHierarchy) (own path : ZstURI) : Prop :=
  ∃ e, h.InTree e ∧ ¬ (h.entities e).uri.contains own = true ∧ (h.entities e).uri = path

/-- Neither plug of the cable is below the client's own performer. -/
def outside (own : ZstURI) (a : ZstCableAddress) : Bool :=
  !a.inputURI.contains own && !a.outputURI.contains own

/-- The client has all entities, and the cables at some addresses. -/
structure Plugged (s : ZstSession) (own : ZstURI) (done : List ZstCableAddress)
    (c : ZstSession) : Prop where
  mirrored : Mirrored s.hierarchy own (Remote s.hierarchy own) c.hierarchy
  addresses : addresses c = done.filter (outside own)
  activated : ∀ cable ∈ c.cables, (c.cableObjects cable).syncStatus = .activated
  allocated : ∀ cable ∈ c.cables, cable < c.nextCable

namespace Plugged

variable {s c : ZstSession} {own : ZstURI} {done : List ZstCableAddress}

theorem isSome_findInputPlug (s : ZstSession) (path : ZstURI) :
    (s.findInputPlug path).isSome = (portAt s.hierarchy path).any Prod.fst := by
  unfold ZstSession.findInputPlug portAt
  cases s.hierarchy.findEntity path with
  | none => rfl
  | some e => cases hplug : (s.hierarchy.entities e).isInputPlug <;> simp [hplug]

theorem isSome_findOutputPlug (s : ZstSession) (path : ZstURI) :
    (s.findOutputPlug path).isSome = (portAt s.hierarchy path).any Prod.snd := by
  unfold ZstSession.findOutputPlug portAt
  cases s.hierarchy.findEntity path with
  | none => rfl
  | some e => cases hplug : (s.hierarchy.entities e).isOutputPlug <;> simp [hplug]

/-- No plug of the stage is found below the client's root. -/
theorem portAt_local (plugged : Plugged s own done c) {path : ZstURI}
    (hlocal : path.contains own = true) :
    portAt c.hierarchy path = none ∨ portAt c.hierarchy path = some (false, false) := by
  by_cases hpath : path = own
  · right
    obtain ⟨r, hr, huri, hkind⟩ := plugged.mirrored.root
    have hself : c.hierarchy.findEntity path = some r := by
      simp [findEntity, hr, huri, hpath]
    simp [portAt, hself, Entity.isInputPlug, Entity.isOutputPlug, hkind]
  · left
    have hnone : c.hierarchy.findEntity path = none := by
      rw [← Option.not_isSome_iff_eq_none, plugged.mirrored.found path hpath]
      rintro ⟨e, -, houtside, rfl⟩
      exact houtside hlocal
    rw [portAt, hnone, Option.map_none]

/-- The client finds the plugs that are not below its root. -/
theorem portAt_outside (plugged : Plugged s own done c) (consistent : StageOwnsTree s.hierarchy)
    {path : ZstURI} {e : EntityId} (hfind : s.hierarchy.findEntity path = some e)
    (houtside : path.contains own = false) :
    portAt c.hierarchy path = portAt s.hierarchy path := by
  rw [consistent.tree.findEntity_eq] at hfind
  have huri := (consistent.tree.keyed path e hfind).1
  refine plugged.mirrored.port path ⟨e, consistent.tree.inTree_of_lookup hfind, ?_, huri⟩
  rw [huri, houtside]
  exact Bool.false_ne_true

theorem findInputPlug_uri (plugged : Plugged s own done c) {path : ZstURI} {e : EntityId}
    (hfind : c.findInputPlug path = some e) : (c.hierarchy.entities e).uri = path :=
  plugged.mirrored.keyed.uri path e (Option.filter_eq_some_iff.mp hfind).1

theorem findOutputPlug_uri (plugged : Plugged s own done c) {path : ZstURI} {e : EntityId}
    (hfind : c.findOutputPlug path = some e) : (c.hierarchy.entities e).uri = path :=
  plugged.mirrored.keyed.uri path e (Option.filter_eq_some_iff.mp hfind).1

/-- A cable with a plug below the client's root is dropped. -/
theorem drops (plugged : Plugged s own done c) {a : ZstCableAddress}
    (hlocal : outside own a = false) : ZstClientSession.cableCreateHandler c a = c := by
  have hnone : c.findInputPlug a.inputURI = none ∨ c.findOutputPlug a.outputURI = none := by
    rw [← Option.not_isSome_iff_eq_none, ← Option.not_isSome_iff_eq_none, isSome_findInputPlug,
      isSome_findOutputPlug]
    have hsome : a.inputURI.contains own = true ∨ a.outputURI.contains own = true := by
      unfold outside at hlocal
      cases hin : a.inputURI.contains own <;> simp_all
    refine hsome.imp (fun hin => ?_) fun hout => ?_
    · rcases plugged.portAt_local hin with hport | hport <;> simp [hport]
    · rcases plugged.portAt_local hout with hport | hport <;> simp [hport]
  unfold ZstClientSession.cableCreateHandler
  rcases hnone with hnone | hnone
  · rw [hnone]
  · rw [hnone]
    cases c.findInputPlug a.inputURI <;> rfl

theorem findCable_eq_none (c : ZstSession) (a : ZstCableAddress) :
    c.findCable a = none ↔ a ∉ Snapshot.addresses c := by
  simp [ZstSession.findCable, Snapshot.addresses]

/-- A cable that the client has already is not created again. -/
theorem again (plugged : Plugged s own done c) {a : ZstCableAddress} (ha : a ∈ done) :
    ZstClientSession.cableCreateHandler c a = c := by
  by_cases hlocal : outside own a = false
  · exact plugged.drops hlocal
  unfold ZstClientSession.cableCreateHandler
  split
  · rename_i input output hinput houtput
    have haddress : a ∈ Snapshot.addresses c := by
      rw [plugged.addresses]
      exact List.mem_filter.mpr ⟨ha, by simpa using hlocal⟩
    obtain ⟨cable, hcable⟩ := Option.ne_none_iff_exists'.mp
      (mt (findCable_eq_none c a).mp (not_not_intro haddress))
    have hactivated := plugged.activated cable (List.mem_of_find?_eq_some hcable)
    have hsame : (⟨(c.hierarchy.entities input).uri, (c.hierarchy.entities output).uri⟩ :
        ZstCableAddress) = a := by
      rw [plugged.findInputPlug_uri hinput, plugged.findOutputPlug_uri houtput]
    unfold ZstSession.createCable
    simp only [hsame, hcable, hactivated, if_true]
  · rfl

theorem createCable_new {input output : EntityId}
    (hfind : c.findCable
      ⟨(c.hierarchy.entities input).uri, (c.hierarchy.entities output).uri⟩ = none) :
    (c.createCable input output).1.cables = c.cables ++ [c.nextCable] ∧
      (c.createCable input output).1.cableObjects =
        Function.update c.cableObjects c.nextCable
          { address := ⟨(c.hierarchy.entities input).uri, (c.hierarchy.entities output).uri⟩
            input, output, syncStatus := .activated } ∧
      (c.createCable input output).1.nextCable = c.nextCable + 1 := by
  unfold ZstSession.createCable
  simp only [hfind]
  exact ⟨rfl, rfl, rfl⟩

/-- The client creates a cable between plugs that it has. -/
theorem plug (plugged : Plugged s own done c) (consistent : StageOwnsTree s.hierarchy)
    {a : ZstCableAddress} (hnew : a ∉ done)
    (hinput : (s.findInputPlug a.inputURI).isSome = true)
    (houtput : (s.findOutputPlug a.outputURI).isSome = true) :
    Plugged s own (done ++ [a]) (ZstClientSession.cableCreateHandler c a) := by
  by_cases hlocal : outside own a = false
  · rw [plugged.drops hlocal]
    refine ⟨plugged.mirrored, ?_, plugged.activated, plugged.allocated⟩
    rw [List.filter_append, plugged.addresses, List.filter_singleton, hlocal]
    simp
  have houtside : a.inputURI.contains own = false ∧ a.outputURI.contains own = false := by
    unfold outside at hlocal
    simpa using hlocal
  have hin : (c.findInputPlug a.inputURI).isSome = true := by
    obtain ⟨e, he⟩ := Option.isSome_iff_exists.mp hinput
    rw [isSome_findInputPlug,
      plugged.portAt_outside consistent (Option.filter_eq_some_iff.mp he).1 houtside.1,
      ← isSome_findInputPlug]
    exact hinput
  have hout : (c.findOutputPlug a.outputURI).isSome = true := by
    obtain ⟨e, he⟩ := Option.isSome_iff_exists.mp houtput
    rw [isSome_findOutputPlug,
      plugged.portAt_outside consistent (Option.filter_eq_some_iff.mp he).1 houtside.2,
      ← isSome_findOutputPlug]
    exact houtput
  obtain ⟨input, hin⟩ := Option.isSome_iff_exists.mp hin
  obtain ⟨output, hout⟩ := Option.isSome_iff_exists.mp hout
  have hfind : c.findCable a = none := by
    rw [findCable_eq_none, plugged.addresses]
    exact fun hmem => hnew (List.mem_of_mem_filter hmem)
  have hsame : (⟨(c.hierarchy.entities input).uri, (c.hierarchy.entities output).uri⟩ :
      ZstCableAddress) = a := by
    rw [plugged.findInputPlug_uri hin, plugged.findOutputPlug_uri hout]
  have hold : ∀ cable ∈ c.cables, cable ≠ c.nextCable := fun cable hcable =>
    Nat.ne_of_lt (plugged.allocated cable hcable)
  have hmirrored := plugged.mirrored.standing (Standing.createCable c input output)
  unfold ZstClientSession.cableCreateHandler
  simp only [hin, hout]
  rw [← hsame] at hfind
  obtain ⟨hcables, hobjects, hnext⟩ := createCable_new hfind
  rw [hsame] at hobjects
  refine ⟨hmirrored, ?_, fun cable hcable => ?_, fun cable hcable => ?_⟩
  · have hkept : c.cables.map (fun cable => (Function.update c.cableObjects c.nextCable
        { address := a, input, output, syncStatus := .activated } cable).address) =
        Snapshot.addresses c := by
      refine List.map_congr_left fun cable hcable => ?_
      rw [Function.update_of_ne (hold cable hcable)]
    have hlast : [a].filter (outside own) = [a] := by
      simp [eq_true_of_ne_false hlocal]
    rw [List.filter_append, hlast, ← plugged.addresses, ← hkept]
    unfold Snapshot.addresses
    rw [hcables, hobjects, List.map_append, List.map_singleton, Function.update_self]
  · rw [hcables] at hcable
    rw [hobjects]
    rcases List.mem_append.mp hcable with hcable | hcable
    · rw [Function.update_of_ne (hold cable hcable)]
      exact plugged.activated cable hcable
    · rw [List.mem_singleton.mp hcable, Function.update_self]
  · rw [hcables] at hcable
    rw [hnext]
    rcases List.mem_append.mp hcable with hcable | hcable
    · exact Nat.lt_succ_of_lt (plugged.allocated cable hcable)
    · rw [List.mem_singleton.mp hcable]
      exact Nat.lt_succ_self _

theorem receive_cable (v : Overrides) (c : ZstSession) (a : ZstCableAddress) :
    ZstClientSession.receive v c (.cableCreateRequest a) =
      .ok (ZstClientSession.cableCreateHandler c a) := rfl

/-- The requests for cables. -/
theorem plug_all (plugged : Plugged s own done c) (consistent : StageOwnsTree s.hierarchy)
    (v : Overrides) {more : List ZstCableAddress} (hnodup : (done ++ more).Nodup)
    (hinput : ∀ a ∈ more, (s.findInputPlug a.inputURI).isSome = true)
    (houtput : ∀ a ∈ more, (s.findOutputPlug a.outputURI).isSome = true) :
    ∃ d, Library.run (ZstClientSession.receive v) c (more.map .cableCreateRequest) = .ok d ∧
      Plugged s own (done ++ more) d := by
  induction more generalizing c done with
  | nil => exact ⟨c, rfl, by simpa using plugged⟩
  | cons a more ih =>
    have hnew : a ∉ done := fun hmem =>
      (List.nodup_append.mp hnodup).2.2 a hmem a List.mem_cons_self rfl
    have hplugged := plugged.plug consistent hnew (hinput a List.mem_cons_self)
      (houtput a List.mem_cons_self)
    rw [List.append_cons] at hnodup
    obtain ⟨d, hd, hlast⟩ := ih hplugged hnodup
      (fun b hb => hinput b (List.mem_cons_of_mem _ hb))
      fun b hb => houtput b (List.mem_cons_of_mem _ hb)
    refine ⟨d, Library.run_cons_ok.mpr ⟨_, receive_cable v c a, hd⟩, ?_⟩
    rw [List.append_cons]
    exact hlast

end Plugged

/-! ## The whole snapshot -/

/-- The client has its own root and nothing else. -/
structure KnowsRoot (c : ZstSession) (own : ZstURI) : Prop where
  keyed : Keyed c.hierarchy
  root : ∃ r, c.hierarchy.root = some r ∧ (c.hierarchy.entities r).uri = own ∧
    (c.hierarchy.entities r).entityType = .performer ∧ (c.hierarchy.entities r).children = []
  only : ∀ path, path ≠ own → c.hierarchy.findEntity path = none
  cables : c.cables = []

/-- The client has the stage's entities outside its own performer, and nothing
else but its root. -/
structure Mirrors (h : ZstHierarchy) (own : ZstURI) (k : ZstHierarchy) : Prop where
  entry : ∀ path, path.contains own = false → k.entryAt path = h.entryAt path
  lists : ∀ path child, path.contains own = false →
    (k.ListsChild path child ↔ h.ListsChild path child)
  below : ∀ path, path.contains own = true → path ≠ own → k.findEntity path = none
  root : ∀ child, ¬ k.ListsChild own child

section Whole

variable {s c : ZstSession} {own : ZstURI}

theorem KnowsRoot.mirrored (fresh : KnowsRoot c own) (h : ZstHierarchy) :
    Mirrored h own (fun _ => False) c.hierarchy := by
  obtain ⟨r, hr, huri, hkind, hchildren⟩ := fresh.root
  refine ⟨fresh.keyed, ⟨r, hr, huri, hkind⟩, fun path hpath => by simp [fresh.only path hpath],
    fun _ => False.elim, fun _ => False.elim, fun path child => ?_⟩
  refine ⟨fun ⟨e, he, hlists⟩ => ?_, fun hand => hand.1.elim⟩
  by_cases hpath : path = own
  · have hself : c.hierarchy.findEntity path = some r := by
      simp [findEntity, hr, huri, hpath]
    obtain rfl := Option.some.inj (hself.symm.trans he)
    rw [hchildren] at hlists
    cases hlists
  · rw [fresh.only path hpath] at he
    cases he

theorem Mirrored.mirrors {h k : ZstHierarchy} (mirrored : Mirrored h own (Remote h own) k)
    (consistent : StageOwnsTree h) (hown : own.contains own = true) (hlength : own.length = 1) :
    Mirrors h own k := by
  refine ⟨fun path hpath => ?_, fun path child hpath => ?_, fun path hpath hne => ?_,
    fun child hlists => ?_⟩
  · have hne : path ≠ own := by
      rintro rfl
      rw [hown] at hpath
      cases hpath
    cases hfind : h.findEntity path with
    | some e =>
      rw [consistent.tree.findEntity_eq] at hfind
      have huri := (consistent.tree.keyed path e hfind).1
      refine mirrored.entry path ⟨e, consistent.tree.inTree_of_lookup hfind, ?_, huri⟩
      rw [huri, hpath]
      exact Bool.false_ne_true
    | none =>
      have hnone : k.findEntity path = none := by
        rw [← Option.not_isSome_iff_eq_none, mirrored.found path hne]
        rintro ⟨e, he, -, rfl⟩
        rw [consistent.tree.findEntity_eq, he] at hfind
        cases hfind
      rw [entryAt, entryAt, hfind, hnone]
      rfl
  · rw [mirrored.lists, and_iff_right_iff_imp]
    rintro ⟨p, hp, hlists⟩
    rw [consistent.tree.findEntity_eq] at hp
    have hpURI := (consistent.tree.keyed path p hp).1
    obtain ⟨e, t, he, -, hchild⟩ :=
      consistent.tree.child p (consistent.tree.inTree_of_lookup hp) child hlists
    have huri := (consistent.tree.keyed child e he).1
    refine ⟨e, consistent.tree.inTree_of_lookup he, fun hlocal => ?_, huri⟩
    -- the own root is not below a path that is not below the own root
    rw [huri, hchild, hpURI] at hlocal
    simp only [ZstURI.contains, Bool.and_eq_true, List.isPrefixOf_iff_prefix] at hlocal hown
    have hpne : path ≠ [] := by
      rw [← hpURI]
      exact (consistent.tree.segments p (consistent.tree.inTree_of_lookup hp)).1
    have hextends : own <+: path := by
      refine List.prefix_of_prefix_length_le hlocal.2 (List.prefix_append _ _) ?_
      rw [hlength]
      exact List.length_pos_iff.mpr hpne
    simp [ZstURI.contains, hlocal.1, List.isPrefixOf_iff_prefix.mpr hextends] at hpath
  · rw [← Option.not_isSome_iff_eq_none, mirrored.found path hne]
    rintro ⟨e, -, houtside, rfl⟩
    exact houtside hpath
  · obtain ⟨⟨e, he, houtside, rfl⟩, hstage⟩ := (mirrored.lists own child).mp hlists
    refine houtside (consistent.contains_of_parent he ?_)
    rw [← ((consistent.lists_iff he own).mp hstage).1]
    exact hown

/-- The messages of the snapshot up to some point, and what the client has then. -/
theorem receive_entities (fresh : KnowsRoot c own) (consistent : StageOwnsTree s.hierarchy)
    (v : Overrides) (hown : own.contains own = true) {order : List EntityId}
    (hfirst : AncestorsFirst s.hierarchy (fun _ => False) order)
    (hmem : ∀ e ∈ order, s.hierarchy.InTree e ∧
      ¬ (s.hierarchy.entities e).uri.contains own = true) :
    ∃ l, Library.run (ZstClientSession.receive v) c
        (order.map fun e => .entityCreateRequest (s.hierarchy.entities e).serialize) =
          .ok { c with hierarchy := l } ∧
      Mirrored s.hierarchy own (fun path => ∃ e ∈ order, (s.hierarchy.entities e).uri = path) l ∧
      ∀ e ∈ order, ZstClientSession.receive v { c with hierarchy := l }
        (.entityCreateRequest (s.hierarchy.entities e).serialize) =
          .ok { c with hierarchy := l } := by
  obtain ⟨l, hrun, hmirrored⟩ := (fresh.mirrored s.hierarchy).create_all consistent v hown hfirst hmem
  simp only [false_or] at hmirrored
  refine ⟨l, hrun, hmirrored, fun e he => ?_⟩
  obtain ⟨heTree, houtside⟩ := hmem e he
  refine Mirrored.receive_create (c := { c with hierarchy := l }) ?_
  exact hmirrored.ignores v (consistent.kind e heTree)
    (Or.inr ⟨⟨e, he, rfl⟩, fun heq => houtside (heq ▸ hown)⟩)

variable {sender : EntityId}

/-- The whole snapshot, up to some of its cables. -/
theorem receive_cables (fresh : KnowsRoot c (s.hierarchy.entities sender).uri)
    (consistent : StageOwnsTree s.hierarchy) (wired : CablesBetweenPlugs s) (v : Overrides)
    (hsender : s.hierarchy.InTree sender)
    (hperformer : (s.hierarchy.entities sender).entityType = .performer)
    {early late : List ZstCableAddress} (haddresses : addresses s = early ++ late) :
    ∃ d, Library.run (ZstClientSession.receive v) c
        ((published s.hierarchy sender).map
            (fun e => .entityCreateRequest (s.hierarchy.entities e).serialize) ++
          early.map .cableCreateRequest) = .ok d ∧
      Plugged s (s.hierarchy.entities sender).uri early d := by
  have hown : (s.hierarchy.entities sender).uri.contains (s.hierarchy.entities sender).uri = true := by
    have hne := (consistent.tree.segments sender hsender).1
    simp [ZstURI.contains, hne]
  have hmem := fun e he => (consistent.mem_published hsender hperformer (e := e)).mp he
  obtain ⟨l, hrun, hmirrored, -⟩ := receive_entities fresh consistent v hown
    consistent.published_ancestorsFirst hmem
  have hremote : (fun path => ∃ e ∈ published s.hierarchy sender,
      (s.hierarchy.entities e).uri = path) =
      Remote s.hierarchy (s.hierarchy.entities sender).uri := by
    funext path
    simp only [Remote, consistent.mem_published hsender hperformer, and_assoc]
  rw [hremote] at hmirrored
  have hplugged : Plugged s (s.hierarchy.entities sender).uri []
      { c with hierarchy := l } := by
    refine ⟨hmirrored, ?_, ?_, ?_⟩
    · simp [addresses, fresh.cables]
    · simp [fresh.cables]
    · simp [fresh.cables]
  have hearly : ∀ a ∈ early, a ∈ addresses s := fun a ha => by
    rw [haddresses]
    exact List.mem_append_left _ ha
  have hnodup : ([] ++ early).Nodup := by
    have hall := wired.nodup
    rw [haddresses] at hall
    exact hall.of_append_left
  obtain ⟨d, hd, hlast⟩ := hplugged.plug_all consistent v hnodup
    (fun a ha => wired.input a (hearly a ha)) fun a ha => wired.output a (hearly a ha)
  exact ⟨d, Library.run_append_ok.mpr ⟨_, hrun, hd⟩, hlast⟩

/-- A message of the snapshot that has been processed changes nothing when it
comes again. -/
def Idempotent (v : Overrides) (c : ZstSession) (messages : List Content) : Prop :=
  ∀ first second, messages = first ++ second →
    ∀ k, Library.run (ZstClientSession.receive v) c first = .ok k →
      ∀ content ∈ first, ZstClientSession.receive v k content = .ok k

theorem snapshot_idempotent (fresh : KnowsRoot c (s.hierarchy.entities sender).uri)
    (consistent : StageOwnsTree s.hierarchy) (wired : CablesBetweenPlugs s) (v : Overrides)
    (hsender : s.hierarchy.InTree sender)
    (hperformer : (s.hierarchy.entities sender).entityType = .performer)
    (hproxy : (s.hierarchy.entities sender).stageProxy.isSome = true) :
    Idempotent v c (snapshot s sender) := by
  have hown : (s.hierarchy.entities sender).uri.contains (s.hierarchy.entities sender).uri = true := by
    have hne := (consistent.tree.segments sender hsender).1
    simp [ZstURI.contains, hne]
  have hmem := fun e he => (consistent.mem_published hsender hperformer (e := e)).mp he
  intro first second hsplit k hrun content hcontent
  rw [snapshot_eq hproxy] at hsplit
  rcases List.append_eq_append_iff.mp hsplit with ⟨cables, rfl, hcables⟩ | ⟨rest, hentities, -⟩
  · -- all entities have come, and some cables
    obtain ⟨early, late, haddresses, rfl, -⟩ := List.map_eq_append_iff.mp hcables
    obtain ⟨d, hd, hplugged⟩ :=
      receive_cables fresh consistent wired v hsender hperformer haddresses
    obtain rfl : d = k := Except.ok.inj (hd.symm.trans hrun)
    rcases List.mem_append.mp hcontent with hcontent | hcontent
    · obtain ⟨e, he, rfl⟩ := List.mem_map.mp hcontent
      obtain ⟨heTree, houtside⟩ := hmem e he
      refine Mirrored.receive_create (l := d.hierarchy) ?_
      exact hplugged.mirrored.ignores v (consistent.kind e heTree)
        (Or.inr ⟨⟨e, heTree, houtside, rfl⟩, fun heq => houtside (heq ▸ hown)⟩)
    · obtain ⟨a, ha, rfl⟩ := List.mem_map.mp hcontent
      rw [Plugged.receive_cable, hplugged.again ha]
  · -- only entities have come so far
    obtain ⟨order, others, hpublished, rfl, -⟩ := List.map_eq_append_iff.mp hentities
    have hfirst : AncestorsFirst s.hierarchy (fun _ => False) (published s.hierarchy sender) :=
      consistent.published_ancestorsFirst
    rw [hpublished, ancestorsFirst_append] at hfirst
    obtain ⟨l, hl, -, hagain⟩ := receive_entities fresh consistent v hown hfirst.1 fun e he =>
      hmem e (hpublished ▸ List.mem_append_left _ he)
    obtain rfl := Except.ok.inj (hl.symm.trans hrun)
    obtain ⟨e, he, rfl⟩ := List.mem_map.mp hcontent
    exact hagain e he

end Whole

/-- A client that processes the snapshot has the stage's entities outside its
own performer, and the stage's cables between them. -/
theorem snapshot_mirrored {s c : ZstSession} {sender : EntityId} (v : Overrides)
    (consistent : StageOwnsTree s.hierarchy) (wired : CablesBetweenPlugs s)
    (hsender : s.hierarchy.InTree sender)
    (hperformer : (s.hierarchy.entities sender).entityType = .performer)
    (hproxy : (s.hierarchy.entities sender).stageProxy.isSome = true)
    (fresh : KnowsRoot c (s.hierarchy.entities sender).uri) :
    ∃ d, Library.run (ZstClientSession.receive v) c (snapshot s sender) = .ok d ∧
      Mirrors s.hierarchy (s.hierarchy.entities sender).uri d.hierarchy ∧
      addresses d = (addresses s).filter (outside (s.hierarchy.entities sender).uri) ∧
      Idempotent v c (snapshot s sender) := by
  have hown : (s.hierarchy.entities sender).uri.contains (s.hierarchy.entities sender).uri = true := by
    have hne := (consistent.tree.segments sender hsender).1
    simp [ZstURI.contains, hne]
  obtain ⟨d, hd, hplugged⟩ := receive_cables fresh consistent wired v hsender hperformer
    (List.append_nil _).symm
  rw [← snapshot_eq hproxy] at hd
  refine ⟨d, hd, ?_, hplugged.addresses,
    snapshot_idempotent fresh consistent wired v hsender hperformer hproxy⟩
  exact hplugged.mirrored.mirrors consistent hown (consistent.performer_uri hsender hperformer)

/-- The stage with the performers `ada`, `bob` and `eve`, an output plug of the
first and an input plug of the second, and a cable from one to the other. -/
def wiredEntities : List Entity :=
  [{ entityType := .performer, uri := ["ada"], registered := true, isProxy := true
     children := [["ada", "out"]], stageProxy := some { originEndpointUUID := 1 } },
   { entityType := .plug, uri := ["ada", "out"], parentAddress := ["ada"], registered := true
     isProxy := true, direction := .outJack },
   { entityType := .performer, uri := ["bob"], registered := true, isProxy := true
     children := [["bob", "in"]], stageProxy := some { originEndpointUUID := 2 } },
   { entityType := .plug, uri := ["bob", "in"], parentAddress := ["bob"], registered := true
     isProxy := true, direction := .inJack },
   { entityType := .performer, uri := ["eve"], registered := true, isProxy := true
     stageProxy := some { originEndpointUUID := 3 } }]

def wiredStage : ZstSession where
  hierarchy := ofList wiredEntities
  cableObjects _ := { address := ⟨["bob", "in"], ["ada", "out"]⟩, input := 3, output := 1 }
  nextCable := 1
  cables := [0]

/-- A client that has nothing but its root. -/
def newClient (name : String) : ZstSession where
  hierarchy := ofList [{ entityType := .performer, uri := [name], registered := true }] (some 0)
  cableObjects _ := { address := ⟨[], []⟩, input := 0, output := 0 }

theorem ofList_proxies_lt {entities : List Entity} {root : Option EntityId} {e : EntityId}
    (he : e ∈ (ofList entities root).proxies) : e < entities.length :=
  List.mem_range.mp (List.mem_of_mem_filter he)

theorem wiredStage_consistent : StageOwnsTree wiredStage.hierarchy := by
  have hlt : ∀ {e}, wiredStage.hierarchy.InTree e → e < 5 := fun he => (ofList_lookup he).1
  refine ⟨registeredTree_ofList (by decide) (by decide) (by decide) (by decide) (by decide), rfl,
    fun e => ?_, fun e he => hlt he, fun e he => ?_, fun e he => ?_⟩
  · by_cases he : e < 5
    · interval_cases e <;> decide
    · refine iff_of_false (fun hin => he (hlt hin)) fun hmem => he ?_
      exact ofList_proxies_lt hmem
  · have := hlt he
    interval_cases e <;> decide
  · have := hlt he
    interval_cases e <;> decide

theorem wiredStage_wired : CablesBetweenPlugs wiredStage :=
  ⟨by decide, by decide, by decide⟩

theorem newClient_findEntity (name : String) (path : ZstURI) :
    (newClient name).hierarchy.findEntity path = if path = [name] then some 0 else none := by
  by_cases hpath : path = [name]
  · rw [if_pos hpath, hpath]
    simp [newClient, findEntity, ofList]
  · have hne : [name] ≠ path := fun heq => hpath heq.symm
    rw [if_neg hpath]
    simp [newClient, findEntity, ofList, hne]

theorem newClient_knowsRoot (name : String) : KnowsRoot (newClient name) [name] := by
  refine ⟨⟨fun q e hq => ?_, fun q e hq => ?_, ?_⟩, ⟨0, rfl, rfl, rfl, rfl⟩, fun path hpath => ?_,
    rfl⟩
  · rw [newClient_findEntity] at hq
    split at hq
    · rename_i hname
      rw [← Option.some.inj hq, hname]
      rfl
    · cases hq
  · rw [newClient_findEntity] at hq
    split at hq
    · rw [← Option.some.inj hq]
      exact Nat.zero_lt_one
    · cases hq
  · rw [newClient_findEntity, if_neg (List.cons_ne_nil _ _).symm]
  · rw [newClient_findEntity, if_neg hpath]

theorem snapshot_mirrored_wired :
    ∃ d, Library.run (ZstClientSession.receive stageOverrides) (newClient "eve")
        (snapshot wiredStage 4) = .ok d ∧
      Mirrors wiredStage.hierarchy ["eve"] d.hierarchy ∧
      addresses d = (addresses wiredStage).filter (outside ["eve"]) ∧
      Idempotent stageOverrides (newClient "eve") (snapshot wiredStage 4) :=
  snapshot_mirrored stageOverrides wiredStage_consistent wiredStage_wired
    (by decide) rfl rfl (newClient_knowsRoot "eve")

/-- The client `ada` does not get the cable from its own plug. -/
theorem own_cable_dropped :
    ¬ ∀ (s c : ZstSession) (sender : EntityId) (v : Overrides), StageOwnsTree s.hierarchy →
      CablesBetweenPlugs s →
      s.hierarchy.InTree sender → (s.hierarchy.entities sender).entityType = .performer →
      (s.hierarchy.entities sender).stageProxy.isSome = true →
      KnowsRoot c (s.hierarchy.entities sender).uri →
      ∃ d, Library.run (ZstClientSession.receive v) c (snapshot s sender) = .ok d ∧
        Mirrors s.hierarchy (s.hierarchy.entities sender).uri d.hierarchy ∧
        (∀ a, a ∈ addresses d ↔ a ∈ addresses s) ∧
        Idempotent v c (snapshot s sender) := by
  intro hall
  obtain ⟨d, hrun, -, hcables, -⟩ := hall wiredStage (newClient "ada") 0 stageOverrides
    wiredStage_consistent wiredStage_wired (by decide) rfl rfl (newClient_knowsRoot "ada")
  obtain ⟨u, hu, hnone⟩ : ∃ u, Library.run (ZstClientSession.receive stageOverrides)
      (newClient "ada") (snapshot wiredStage 0) = .ok u ∧ addresses u = [] := ⟨_, rfl, rfl⟩
  obtain rfl : d = u := Except.ok.inj (hrun.symm.trans hu)
  have hmem := (hcables ⟨["bob", "in"], ["ada", "out"]⟩).mpr (by decide)
  rw [hnone] at hmem
  cases hmem

end Showtime.Snapshot
