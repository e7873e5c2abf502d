import Showtime.Indexed
import Showtime.Rename
/-!
# The footprint of a move

On the stage an entity that is renamed, or taken off its parent, passes several
paths together with everything below it: each of them is alone at its last
segment for a while. Nothing else changes its path, and the lookup table changes
at these paths only.
-/

namespace Showtime.Footprint

open ZstHierarchy ZstStageHierarchy ZstStageSession ZstStage

/-- The path begins with one of the stems. -/
def Under (stem : ZstURI → Prop) (q : ZstURI) : Prop :=
  ∃ u, stem u ∧ u <+: q

/-- The path is one of the stems, or is made from one by `operator+` with some of the
names. -/
inductive Composed (stem name : ZstURI → Prop) : ZstURI → Prop
  | stem {u : ZstURI} (hu : stem u) : Composed stem name u
  | add {q n : ZstURI} (hq : Composed stem name q) (hn : name n) : Composed stem name (q.add n)

theorem Composed.under {stem name : ZstURI → Prop} {q : ZstURI} (hq : Composed stem name q) :
    Under stem q := by
  induction hq with
  | stem hu => exact ⟨_, hu, List.prefix_refl _⟩
  | @add q n _ _ ih =>
    obtain ⟨u, hu, huq⟩ := ih
    refine ⟨u, hu, ?_⟩
    by_cases hq : q = []
    · obtain rfl : u = [] := List.prefix_nil.mp (hq ▸ huq)
      exact List.nil_prefix
    · unfold ZstURI.add ZstURI.asOperand
      rw [if_neg hq]
      exact huq.trans (List.prefix_append _ _)

theorem findEntity_of_parent {h : ZstHierarchy} {e p : EntityId} (hp : h.parent e = some p) :
    (h.entities e).parentAddress ≠ [] ∧ h.findEntity (h.entities e).parentAddress = some p := by
  unfold parent at hp
  dsimp only at hp
  split at hp
  · cases hp
  · rename_i haddress
    split at hp
    · exact ⟨haddress, hp⟩
    · cases hp

/-- Who may get other children when an entity moves: whoever is found at the
address of its parent, if it has one. -/
def ParentOf (h : ZstHierarchy) (e p : EntityId) : Prop :=
  (h.entities e).parentAddress ≠ [] ∧ h.lookup (h.entities e).parentAddress = some p

theorem not_parentOf {h : ZstHierarchy} {e p : EntityId} (indexed : Indexed h)
    (he : h.lookup (h.entities e).uri = some e) (hparent : h.parent e = none) :
    ¬ ParentOf h e p := by
  rintro ⟨haddress, hp⟩
  unfold parent at hparent
  dsimp only at hparent
  rw [if_neg haddress, if_pos (indexed.registered _ e he), indexed.findEntity_eq, hp] at hparent
  cases hparent

section Frames

-- the hierarchy before the move, who moves, who may get other children, where
-- the move passes, and the last segments of the paths of those who move
variable (before : ZstHierarchy) (M R : EntityId → Prop) (T : ZstURI → Prop)
  (name : EntityId → ZstURI)

/-- Those who move pass certain paths only, find nobody else there, and
everybody else stays. -/
structure Frame (h : ZstHierarchy) : Prop where
  indexed : Indexed h
  edit : TreeEdit before h
  registered : ∀ d, M d → (h.entities d).registered = true
  named : ∀ d, M d → (h.entities d).uri.last = name d
  uri : ∀ d, (h.entities d).uri = (before.entities d).uri ∨ M d ∧ T (h.entities d).uri
  outside : ∀ d, ¬ M d →
    { h.entities d with children := [] } = { before.entities d with children := [] }
  children : ∀ d, ¬ M d → ¬ R d → (h.entities d).children = (before.entities d).children
  lookup : ∀ q, h.lookup q = before.lookup q ∨ T q ∨ ∃ d, M d ∧ (before.entities d).uri = q
  found : ∀ q x, h.lookup q = some x → before.lookup q = some x ∨ M x
  own : ∀ d, M d → ∀ x, h.lookup (h.entities d).uri = some x → M x
  closed : ∀ d, M d → ∀ q ∈ (h.entities d).children, ∀ x, h.lookup q = some x → M x

/-- Every entity is where it was, or on the way. -/
def Advances (h k : ZstHierarchy) : Prop :=
  ∀ d, (k.entities d).uri = (h.entities d).uri ∨ T (k.entities d).uri

end Frames

variable {before h k l : ZstHierarchy} {M R : EntityId → Prop} {T : ZstURI → Prop}
  {name name' : EntityId → ZstURI} {e p : EntityId}

namespace Advances

theorem refl (h : ZstHierarchy) : Advances T h h :=
  fun _ => Or.inl rfl

theorem trans (hk : Advances T h k) (kl : Advances T k l) : Advances T h l := fun d => by
  rcases kl d with hd | hd
  · rcases hk d with hd' | hd'
    · exact Or.inl (hd.trans hd')
    · exact Or.inr (hd ▸ hd')
  · exact Or.inr hd

/-- A list of children says nothing about paths. -/
theorem relist (h : ZstHierarchy) (p : EntityId) (f : List ZstURI → List ZstURI) :
    Advances T h (h.modify p fun x => { x with children := f x.children }) := fun d => by
  rw [modify_entities]
  split
  · rename_i hdp
    rw [hdp]
    exact Or.inl rfl
  · exact Or.inl rfl

theorem onWay (hk : Advances T h k) (he : T (h.entities e).uri) : T (k.entities e).uri :=
  (hk e).elim (fun heq => heq ▸ he) id

end Advances

namespace Frame

/-- Before anybody moves. -/
theorem start (indexed : Indexed h) (hregistered : ∀ d, M d → (h.entities d).registered = true)
    (hnamed : ∀ d, M d → (h.entities d).uri.last = name d)
    (hown : ∀ d, M d → ∀ x, h.lookup (h.entities d).uri = some x → M x)
    (hclosed : ∀ d, M d → ∀ q ∈ (h.entities d).children, ∀ x, h.lookup q = some x → M x) :
    Frame h M R T name h where
  indexed := indexed
  edit := .refl h
  registered := hregistered
  named := hnamed
  uri _ := Or.inl rfl
  outside _ _ := rfl
  children _ _ _ := rfl
  lookup _ := Or.inl rfl
  found _ _ hx := Or.inl hx
  own := hown
  closed := hclosed

/-- Children on the way are in the subtree. -/
theorem child (frame : Frame before M R T name h) (he : M e) {c : EntityId}
    (hc : c ∈ h.childEntities e) : M c := by
  unfold childEntities at hc
  split at hc
  · obtain ⟨q, hq, hfind⟩ := List.mem_filterMap.mp hc
    unfold getChildByURI at hfind
    rw [if_pos (frame.registered e he), frame.indexed.findEntity_eq] at hfind
    exact frame.closed e he q hq c hfind
  · cases hc

/-- One entity passes to another path. -/
theorem rekey (frame : Frame before M R T name h) (he : M e) (f : Entity → Entity)
    (hf : ∀ x, placeless (f x) = placeless x) (hregistered : ∀ x, (f x).registered = x.registered)
    (hchildren : ∀ x, (f x).children = x.children)
    (hname : ∀ d, d ≠ e → name' d = name d)
    (hlast : (f (h.entities e)).uri.last = name' e)
    (hpass : T (f (h.entities e)).uri) :
    Frame before M R T name' ((h.modify e f).updateURI e (h.entities e).uri) := by
  have hreg : ((h.modify e f).entities e).registered = true := by
    rw [modify_entities_self, hregistered, frame.registered e he]
  have hindexed := frame.indexed.rekey (e := e) f hregistered
  have hedit := (TreeEdit.of_modify h e f hf).trans
    (TreeEdit.updateURI (h.modify e f) e (h.entities e).uri)
  have hlookup := updateURI_lookup (h.modify e f) e (h.entities e).uri hreg
  have hentities (d : EntityId) := updateURI_entities (h.modify e f) e d (h.entities e).uri
  have hothers (d : EntityId) (hd : d ≠ e) :
      ((h.modify e f).updateURI e (h.entities e).uri).entities d = h.entities d :=
    (updateURI_other _ _ hd).trans (modify_entities_of_ne h f hd)
  generalize (h.modify e f).updateURI e (h.entities e).uri = k
    at hindexed hedit hlookup hentities hothers ⊢
  rw [modify_entities_self, modify_lookup] at hlookup
  have hself : (k.entities e).uri = (f (h.entities e)).uri := by
    obtain ⟨creatables, hke⟩ := hentities e
    rw [hke, modify_entities_self]
  have hkept (d : EntityId) : (k.entities d).children = (h.entities d).children ∧
      (k.entities d).registered = (h.entities d).registered := by
    obtain ⟨creatables, hkd⟩ := hentities d
    rw [hkd, modify_entities]
    split
    · rename_i hde
      rw [hde]
      exact ⟨hchildren _, hregistered _⟩
    · exact ⟨rfl, rfl⟩
  -- an entity found now was found there before, or is the one that passed
  have hfound (q : ZstURI) (x : EntityId) (hx : k.lookup q = some x) :
      x = e ∨ q ≠ (k.entities e).uri ∧ h.lookup q = some x := by
    rw [hlookup, Function.update_apply] at hx
    split at hx
    · exact Or.inl (Option.some.inj hx).symm
    · rename_i hq
      rw [Function.update_apply] at hx
      split at hx
      · cases hx
      · exact Or.inr ⟨hself ▸ hq, hx⟩
  refine ⟨hindexed, frame.edit.trans hedit, fun d hd => ?_, fun d hd => ?_, fun d => ?_,
    fun d hd => ?_, fun d hd hdR => ?_, fun q => ?_, fun q x hx => ?_, fun d hd x hx => ?_,
    fun d hd q hq x hx => ?_⟩
  · rw [(hkept d).2]
    exact frame.registered d hd
  · by_cases hde : d = e
    · rw [hde, hself]
      exact hlast
    · rw [hothers d hde, hname d hde]
      exact frame.named d hd
  · by_cases hde : d = e
    · rw [hde, hself]
      exact Or.inr ⟨he, hpass⟩
    · rw [hothers d hde]
      exact frame.uri d
  · rw [hothers d fun hde => hd (hde ▸ he)]
    exact frame.outside d hd
  · rw [hothers d fun hde => hd (hde ▸ he)]
    exact frame.children d hd hdR
  · rw [hlookup, Function.update_apply]
    split
    · rename_i hq
      exact Or.inr (Or.inl (hq ▸ hpass))
    · rw [Function.update_apply]
      split
      · rename_i hq
        rw [hq]
        refine Or.inr ?_
        rcases frame.uri e with hsame | ⟨-, hpassed⟩
        · exact Or.inr ⟨e, he, hsame.symm⟩
        · exact Or.inl hpassed
      · exact frame.lookup q
  · rcases hfound q x hx with rfl | ⟨-, hx⟩
    · exact Or.inr he
    · exact frame.found q x hx
  · rcases hfound _ x hx with rfl | ⟨hq, hx⟩
    · exact he
    · by_cases hde : d = e
      · rw [hde] at hq
        exact absurd rfl hq
      · rw [hothers d hde] at hx
        exact frame.own d hd x hx
  · rw [(hkept d).1] at hq
    rcases hfound q x hx with rfl | ⟨-, hx⟩
    · exact he
    · exact frame.closed d hd q hq x hx

/-- An entity loses children, or lists one of the subtree at its path. -/
theorem relist (frame : Frame before M R T name h) (hp : M p ∨ R p)
    (f : List ZstURI → List ZstURI)
    (hf : ∀ q ∈ f (h.entities p).children, q ∈ (h.entities p).children ∨
      ∃ c, M c ∧ q = (h.entities c).uri) :
    Frame before M R T name (h.modify p fun x => { x with children := f x.children }) := by
  have hfield : ∀ {β : Type} (g : Entity → β), (∀ x l, g { x with children := l } = g x) →
      ∀ d, g ((h.modify p fun x => { x with children := f x.children }).entities d) =
        g (h.entities d) := by
    intro β g hg d
    rw [modify_entities]
    split
    · rename_i hde
      rw [hg, hde]
    · rfl
  have huri := hfield Entity.uri fun _ _ => rfl
  refine ⟨frame.indexed.modify p _ (fun _ => rfl) fun _ => rfl,
    frame.edit.trans (.of_modify h p _ fun _ => rfl), fun d hd => ?_, fun d hd => ?_, fun d => ?_,
    fun d hd => ?_, fun d hd hdR => ?_, frame.lookup, frame.found, fun d hd x hx => ?_,
    fun d hd q hq x hx => ?_⟩
  · rw [hfield Entity.registered fun _ _ => rfl]
    exact frame.registered d hd
  · rw [huri]
    exact frame.named d hd
  · rw [huri]
    exact frame.uri d
  · exact (hfield (fun x => { x with children := ([] : List ZstURI) }) (fun _ _ => rfl) d).trans
      (frame.outside d hd)
  · rw [modify_entities_of_ne h _ fun hde => (hde ▸ hp).elim hd hdR]
    exact frame.children d hd hdR
  · rw [huri] at hx
    exact frame.own d hd x hx
  · rw [modify_entities] at hq
    split at hq
    · rename_i hde
      rcases hf q hq with hold | ⟨c, hc, rfl⟩
      · exact frame.closed d hd q (hde ▸ hold) x hx
      · exact frame.own c hc x hx
    · exact frame.closed d hd q hq x hx

/-- `remove_child` of one that moves. -/
theorem removeChildWith {move : ZstHierarchy → EntityId → Option EntityId → ZstHierarchy}
    {Done : Prop}
    (hmove : ∀ {k c}, Frame before M R T name k → M c →
      Frame before M R T name (move k c none) ∧ Advances T k (move k c none) ∧
        (Done → T ((move k c none).entities c).uri))
    (frame : Frame before M R T name h) (hp : M p ∨ R p) (he : M e) :
    Frame before M R T name (ZstHierarchy.removeChildWith move h p e) ∧
      Advances T h (ZstHierarchy.removeChildWith move h p e) ∧
      (Done → T ((ZstHierarchy.removeChildWith move h p e).entities e).uri) := by
  unfold ZstHierarchy.removeChildWith
  dsimp only
  split
  · obtain ⟨hframe, hadvances, hdone⟩ := hmove (frame.relist hp
      (fun children => children.erase (h.entities e).uri) fun q hq =>
        Or.inl (List.mem_of_mem_erase hq)) he
    exact ⟨hframe, (Advances.relist h p fun children =>
      children.erase (h.entities e).uri).trans hadvances, hdone⟩
  · exact hmove frame he

/-- `add_child` of one that moves, on the stage. -/
theorem addChildWith {move : ZstHierarchy → EntityId → Option EntityId → ZstHierarchy}
    (hmove : Frame before M R T name (move h e (some p)) ∧ Advances T h (move h e (some p)))
    (frame : Frame before M R T name h) (hp : M p ∨ R p) (he : M e) (autoActivate : Bool) :
    Frame before M R T name (ZstHierarchy.addChildWith stageOverrides move h p e autoActivate) ∧
      Advances T h (ZstHierarchy.addChildWith stageOverrides move h p e autoActivate) := by
  unfold ZstHierarchy.addChildWith
  split
  · split
    · exact ⟨frame, .refl h⟩
    · obtain ⟨hframe, hadvances⟩ := hmove
      unfold adoptChild
      dsimp only
      have hlisted := hframe.relist hp
        (fun children => ZstURI.emplace children ((move h e (some p)).entities e).uri)
        fun q hq => ((ZstURI.mem_emplace _ _ q).mp hq).symm.imp id fun heq => ⟨e, he, heq⟩
      have hboth := hadvances.trans (Advances.relist _ p fun children =>
        ZstURI.emplace children ((move h e (some p)).entities e).uri)
      generalize ((move h e (some p)).modify p fun x =>
        { x with
          children := ZstURI.emplace x.children ((move h e (some p)).entities e).uri }) = k
        at hlisted hboth ⊢
      rw [hlisted.registered e he]
      simp only [Bool.not_true, Bool.and_false, Bool.false_eq_true, if_false]
      split
      · exact ⟨hlisted, hboth⟩
      · exact ⟨hlisted, hboth⟩
  · exact hmove

section Moves

-- the last segments are passed, alone and below every path that is passed
variable (hpass : ∀ {q : ZstURI} {d : EntityId}, T q → M d → T (q.add (name d)))
  (hname : ∀ d, M d → T (name d))

/-- The entity is on its way already, and may be put below this one. -/
def Admits (T : ZstURI → Prop) (name : EntityId → ZstURI) (h : ZstHierarchy) (e p : EntityId) :
    Prop :=
  T (h.entities e).uri ∧ ((h.entities p).uri = [] ∨ T ((h.entities p).uri.add (name e)))

include hname

/-- The path below a new parent, or without one. -/
theorem passes (frame : Frame before M R T name h) (he : M e) {parent : Option EntityId}
    (hparent : ∀ p ∈ parent, Admits T name h e p) :
    T (reparentedURI (h.entities e).uri (h.addressOf parent)) := by
  have hlast := frame.named e he
  have hend : T (h.entities e).uri.last := hlast ▸ hname e he
  unfold reparentedURI
  cases parent with
  | none =>
    rw [if_pos (show h.addressOf none = [] from rfl)]
    exact hend
  | some p =>
    obtain ⟨hpassed, hbelow⟩ := hparent p rfl
    change T (if (h.entities p).uri = [] then (h.entities e).uri.last
      else if (h.entities e).uri.contains (h.entities p).uri then (h.entities e).uri
      else (h.entities p).uri.add (h.entities e).uri.last)
    split
    · exact hend
    · rename_i hne
      split
      · exact hpassed
      · rw [hlast]
        exact hbelow.resolve_left hne

theorem setParentBase (frame : Frame before M R T name h) (he : M e) {parent : Option EntityId}
    (hparent : ∀ p ∈ parent, Admits T name h e p) :
    Frame before M R T name (h.setParentBase e parent) ∧
      Advances T h (h.setParentBase e parent) ∧
      T ((h.setParentBase e parent).entities e).uri := by
  have hpassed := frame.passes hname he hparent
  have hlast : (reparentedURI (h.entities e).uri (h.addressOf parent)).last = name e := by
    rw [Rename.Moving.last_reparentedURI, frame.named e he]
  refine ⟨?_, fun d => ?_, ?_⟩
  · exact frame.rekey he _ (fun _ => rfl) (fun _ => rfl) (fun _ => rfl) (fun _ _ => rfl)
      hlast hpassed
  · rw [setParentBase_uri]
    split
    · exact Or.inr hpassed
    · exact Or.inl rfl
  · rw [setParentBase_uri, if_pos rfl]
    exact hpassed

include hpass

/-- `set_parent` takes the whole subtree along. -/
theorem setParent (depth : Nat) (frame : Frame before M R T name h) (he : M e)
    {parent : Option EntityId} (hparent : depth ≠ 0 → ∀ p ∈ parent, Admits T name h e p) :
    Frame before M R T name (ZstHierarchy.setParent stageOverrides depth h e parent) ∧
      Advances T h (ZstHierarchy.setParent stageOverrides depth h e parent) ∧
      (depth ≠ 0 →
        T ((ZstHierarchy.setParent stageOverrides depth h e parent).entities e).uri) := by
  induction depth generalizing h e parent with
  | zero => exact ⟨frame, .refl h, fun hzero => absurd rfl hzero⟩
  | succ depth ih =>
    obtain ⟨hbase, hadvances, hpassed⟩ :=
      frame.setParentBase hname he (hparent (Nat.succ_ne_zero depth))
    -- every child is put below an entity that is on its way already
    have hloop : ∀ children : List EntityId, (∀ c ∈ children, M c) → ∀ k : ZstHierarchy,
        Frame before M R T name k → T (k.entities e).uri →
        Frame before M R T name (children.foldl (fun h child =>
          ZstHierarchy.addChildWith stageOverrides (ZstHierarchy.setParent stageOverrides depth)
            (ZstHierarchy.removeChildWith (ZstHierarchy.setParent stageOverrides depth) h e child)
            e child true) k) ∧
        Advances T k (children.foldl (fun h child =>
          ZstHierarchy.addChildWith stageOverrides (ZstHierarchy.setParent stageOverrides depth)
            (ZstHierarchy.removeChildWith (ZstHierarchy.setParent stageOverrides depth) h e child)
            e child true) k) := by
      intro children
      induction children with
      | nil => exact fun _ k hk _ => ⟨hk, .refl k⟩
      | cons c children ihc =>
        intro hchildren k hk hke
        have hc := hchildren c List.mem_cons_self
        have hdetach : ∀ {l : ZstHierarchy} {d : EntityId}, Frame before M R T name l → M d →
            Frame before M R T name (ZstHierarchy.setParent stageOverrides depth l d none) ∧
              Advances T l (ZstHierarchy.setParent stageOverrides depth l d none) ∧
              (depth ≠ 0 →
                T ((ZstHierarchy.setParent stageOverrides depth l d none).entities d).uri) :=
          fun hl hd => ih hl hd fun _ _ hp => by cases hp
        obtain ⟨hremoved, hremoves, hdone⟩ := hk.removeChildWith hdetach (Or.inl he) hc
        have hparent' := hremoves.onWay hke
        have hadmits : depth ≠ 0 → ∀ p ∈ some e, Admits T name
            (ZstHierarchy.removeChildWith (ZstHierarchy.setParent stageOverrides depth) k e c) c p :=
          fun hdepth p hp => by
            obtain rfl := Option.some.inj hp
            exact ⟨hdone hdepth, Or.inr (hpass hparent' hc)⟩
        have hset := ih hremoved hc hadmits
        obtain ⟨hadded, hadds⟩ := hremoved.addChildWith ⟨hset.1, hset.2.1⟩
          (Or.inl he) hc true
        obtain ⟨hrest, hadvances⟩ := ihc (fun d hd => hchildren d (List.mem_cons_of_mem c hd)) _
          hadded (hadds.onWay hparent')
        exact ⟨hrest, (hremoves.trans hadds).trans hadvances⟩
    obtain ⟨hframe, hrest⟩ := hloop _ (fun c hc => hbase.child he hc) _ hbase hpassed
    exact ⟨hframe, hadvances.trans hrest, fun _ => hrest.onWay hpassed⟩

theorem removeChild (frame : Frame before M R T name h) (hp : M p ∨ R p) (he : M e) :
    Frame before M R T name (ZstHierarchy.removeChild stageOverrides h p e) ∧
      Advances T h (ZstHierarchy.removeChild stageOverrides h p e) ∧
      T ((ZstHierarchy.removeChild stageOverrides h p e).entities e).uri := by
  have hdetach : ∀ {k : ZstHierarchy} {c : EntityId}, Frame before M R T name k → M c →
      Frame before M R T name (ZstHierarchy.setParent stageOverrides h.depth k c none) ∧
        Advances T k (ZstHierarchy.setParent stageOverrides h.depth k c none) ∧
        (h.depth ≠ 0 →
          T ((ZstHierarchy.setParent stageOverrides h.depth k c none).entities c).uri) :=
    fun hk hc => hk.setParent hpass hname h.depth hc fun _ _ hq => by cases hq
  obtain ⟨hframe, hadvances, hdone⟩ := frame.removeChildWith hdetach hp he
  exact ⟨hframe, hadvances, hdone (Nat.succ_ne_zero h.next)⟩

theorem addChild (frame : Frame before M R T name h) (hp : M p ∨ R p) (he : M e)
    (hadmits : Admits T name h e p) (autoActivate : Bool) :
    Frame before M R T name (ZstHierarchy.addChild stageOverrides h p e autoActivate) ∧
      Advances T h (ZstHierarchy.addChild stageOverrides h p e autoActivate) := by
  have hparent : h.depth ≠ 0 → ∀ q ∈ some p, Admits T name h e q := fun _ q hq => by
    obtain rfl := Option.some.inj hq
    exact hadmits
  have hset := frame.setParent hpass hname h.depth he hparent
  exact frame.addChildWith ⟨hset.1, hset.2.1⟩ hp he autoActivate

end Moves

section Names

variable {newName : ZstURI}
  (hpass : ∀ {q : ZstURI} {d : EntityId}, T q → M d → T (q.add (Function.update name e newName d)))
  (hname : ∀ d, M d → T (Function.update name e newName d))

include hpass hname

/-- `ZstEntityBase::set_name`, on the stage. -/
theorem setNameBase (frame : Frame before M R T name h) (he : M e)
    (hnew : newName.last = newName)
    (hbelow : (h.entities e).parentAddress ≠ [] → T ((h.entities e).uri.parent.add newName) ∧
      T ((h.entities e).parentAddress.add newName))
    (hparent : ∀ p, ParentOf h e p → M p ∨ R p) :
    Frame before M R T (Function.update name e newName)
        (ZstHierarchy.setNameBase stageOverrides h e newName) ∧
      T ((ZstHierarchy.setNameBase stageOverrides h e newName).entities e).uri := by
  unfold ZstHierarchy.setNameBase
  dsimp only
  generalize huri : (if (h.parent e).isSome then (h.entities e).uri.parent.add newName
    else newName) = uri
  have hend : T newName := by
    have hself := hname e he
    rwa [Function.update_self] at hself
  have hpassed : T uri := by
    rw [← huri]
    split
    · rename_i hsome
      obtain ⟨p, hp⟩ := Option.isSome_iff_exists.mp hsome
      exact (hbelow (findEntity_of_parent hp).1).1
    · exact hend
  have hlast : uri.last = newName := by
    rw [← huri]
    split
    · have hadd := ZstURI.last_add (h.entities e).uri.parent newName
      rwa [hnew] at hadd
    · exact hnew
  have hrekeyed : Frame before M R T (Function.update name e newName)
      ((h.modify e fun x => { x with uri := uri }).updateURI e (h.entities e).uri) :=
    frame.rekey he (fun x => { x with uri := uri }) (fun _ => rfl) (fun _ => rfl) (fun _ => rfl)
      (fun d hd => Function.update_of_ne hd _ _)
      (by rw [Function.update_self]; exact hlast) hpassed
  have huri' := updateURI_uri (h.modify e fun x => { x with uri := uri }) e e (h.entities e).uri
  have haddress' : (((h.modify e fun x => { x with uri := uri }).updateURI e
      (h.entities e).uri).entities e).parentAddress = (h.entities e).parentAddress := by
    obtain ⟨creatables, hke⟩ := updateURI_entities (h.modify e fun x => { x with uri := uri }) e e
      (h.entities e).uri
    rw [hke, modify_entities_self]
  have hlookup := updateURI_lookup (h.modify e fun x => { x with uri := uri }) e (h.entities e).uri
    (by rw [modify_entities_self]; exact frame.registered e he)
  rw [modify_entities_self] at huri' hlookup
  generalize (h.modify e fun x => { x with uri := uri }).updateURI e (h.entities e).uri = k
    at hrekeyed huri' haddress' hlookup ⊢
  have hke : T (k.entities e).uri := huri' ▸ hpassed
  cases hp : k.parent e with
  | none => exact ⟨hrekeyed, hke⟩
  | some p =>
    -- whoever is found as the parent now was found before, or moves
    obtain ⟨haddress, hfind⟩ := findEntity_of_parent hp
    rw [haddress'] at haddress
    rw [haddress', hrekeyed.indexed.findEntity_eq] at hfind
    have hpR : M p ∨ R p := by
      rw [hlookup, Function.update_apply] at hfind
      split at hfind
      · exact Or.inl (Option.some.inj hfind ▸ he)
      · rw [Function.update_apply] at hfind
        split at hfind
        · cases hfind
        · exact hparent p ⟨haddress, hfind⟩
    have hpuri : (k.entities p).uri = (h.entities e).parentAddress :=
      hrekeyed.indexed.uri _ p hfind
    obtain ⟨hremoved, hremoves, -⟩ := hrekeyed.removeChild hpass hname hpR he
    have hadmits : Admits T (Function.update name e newName)
        (ZstHierarchy.removeChild stageOverrides k p e) e p := by
      refine ⟨hremoves.onWay hke, Or.inr ?_⟩
      rcases hremoves p with hsame | hpassed
      · rw [hsame, hpuri, Function.update_self]
        exact (hbelow haddress).2
      · exact hpass hpassed he
    obtain ⟨hadded, hadds⟩ := hremoved.addChild hpass hname hpR he hadmits true
    exact ⟨hadded, hadds.onWay (hremoves.onWay hke)⟩

/-- `set_name`, on the stage. -/
theorem setName (frame : Frame before M R T name h) (he : M e)
    (hnew : newName.last = newName)
    (hbelow : (h.entities e).parentAddress ≠ [] → T ((h.entities e).uri.parent.add newName) ∧
      T ((h.entities e).parentAddress.add newName))
    (hparent : ∀ p, ParentOf h e p → M p ∨ R p) :
    Frame before M R T (Function.update name e newName)
      (ZstHierarchy.setName stageOverrides h e newName) := by
  obtain ⟨hbase, hpassed⟩ := frame.setNameBase hpass hname he hnew hbelow hparent
  refine (List.foldlRecOn (motive := fun k => Frame before M R T (Function.update name e newName) k ∧
    T (k.entities e).uri) _ _ ⟨hbase, hpassed⟩ fun k hk c hc => ?_).1
  have hMc := frame.child he hc
  obtain ⟨hremoved, hremoves, hdone⟩ := hk.1.removeChild hpass hname (Or.inl he) hMc
  obtain ⟨hadded, hadds⟩ := hremoved.addChild hpass hname (Or.inl he) hMc
    ⟨hdone, Or.inr (hpass (hremoves.onWay hk.2) hMc)⟩ true
  exact ⟨hadded, hadds.onWay (hremoves.onWay hk.2)⟩

end Names

end Frame

/-! ## A subtree of the stage -/

section Subtrees

variable {newName : ZstURI}

/-- Where the paths of a subtree begin while its root gets another name. -/
def RenameStem (h : ZstHierarchy) (e : EntityId) (newName u : ZstURI) : Prop :=
  u = newName ∨
    (h.entities e).parentAddress ≠ [] ∧
      (u = (h.entities e).uri.parent.add newName ∨ u = (h.entities e).parentAddress.add newName) ∨
    ∃ d, h.Below e d ∧ d ≠ e ∧ u = (h.entities d).uri.last

/-- Where they begin while its root is taken off. -/
def RemovalStem (h : ZstHierarchy) (e : EntityId) (u : ZstURI) : Prop :=
  ∃ d, h.Below e d ∧ u = (h.entities d).uri.last

/-- Nothing in the subtree ends in an empty segment. -/
def EndsNamed (h : ZstHierarchy) (e : EntityId) : Prop :=
  ∀ d, h.Below e d → (h.entities d).uri.last ≠ []

theorem inTree_of_below (indexed : Indexed h) (he : h.lookup (h.entities e).uri = some e)
    {d : EntityId} (hd : h.Below e d) : h.lookup (h.entities d).uri = some d := by
  rcases Relation.ReflTransGen.cases_tail hd with rfl | ⟨c, -, q, -, hq⟩
  · exact he
  · rw [indexed.uri q d hq]
    exact hq

theorem lookup_of_findEntity (indexed : Indexed h) {path : ZstURI}
    (hfind : h.findEntity path = some e) : h.lookup (h.entities e).uri = some e := by
  rw [indexed.findEntity_uri hfind, ← indexed.findEntity_eq]
  exact hfind

theorem frame_below (indexed : Indexed h) (he : h.lookup (h.entities e).uri = some e)
    (R : EntityId → Prop) (T : ZstURI → Prop) :
    Frame h (h.Below e) R T (fun d => (h.entities d).uri.last) h := by
  have hin : ∀ {d}, h.Below e d → h.lookup (h.entities d).uri = some d :=
    inTree_of_below indexed he
  refine .start indexed (fun d hd => indexed.registered _ d (hin hd)) (fun d _ => rfl)
    (fun d hd x hx => ?_) fun d hd q hq x hx => hd.tail ⟨q, hq, hx⟩
  rw [hin hd] at hx
  exact Option.some.inj hx ▸ hd

/-- The paths that a subtree passes while its root gets another name. -/
def RenamePaths (h : ZstHierarchy) (e : EntityId) (newName : ZstURI) : ZstURI → Prop :=
  Composed (RenameStem h e newName) fun n =>
    n = newName ∨ ∃ d, h.Below e d ∧ d ≠ e ∧ n = (h.entities d).uri.last

/-- The paths that it passes while its root is taken off. -/
def RemovalPaths (h : ZstHierarchy) (e : EntityId) : ZstURI → Prop :=
  Composed (RemovalStem h e) (RemovalStem h e)

/-- `set_name` of an entity that the stage has found. -/
theorem frame_setName (indexed : Indexed h) (he : h.lookup (h.entities e).uri = some e)
    (hnew : newName.last = newName) :
    Frame h (h.Below e) (ParentOf h e) (RenamePaths h e newName)
      (Function.update (fun d => (h.entities d).uri.last) e newName)
      (setName stageOverrides h e newName) := by
  have hnames : ∀ d, h.Below e d →
      Function.update (fun d => (h.entities d).uri.last) e newName d = newName ∨
        ∃ c, h.Below e c ∧ c ≠ e ∧
          Function.update (fun d => (h.entities d).uri.last) e newName d =
            (h.entities c).uri.last := by
    intro d hd
    by_cases hde : d = e
    · rw [hde, Function.update_self]
      exact Or.inl rfl
    · rw [Function.update_of_ne hde]
      exact Or.inr ⟨d, hd, hde, rfl⟩
  refine (frame_below indexed he _ _).setName (fun hq hd => .add hq (hnames _ hd))
    (fun d hd => .stem ?_) .refl hnew ?_ fun p hp => Or.inr hp
  · exact (hnames d hd).imp id Or.inr
  · exact fun haddress => ⟨.stem (Or.inr (Or.inl ⟨haddress, Or.inl rfl⟩)),
      .stem (Or.inr (Or.inl ⟨haddress, Or.inr rfl⟩))⟩

/-- An entity that the stage has found is taken off its parent. -/
theorem frame_removeFromParent (indexed : Indexed h)
    (he : h.lookup (h.entities e).uri = some e) :
    Frame h (h.Below e) (ParentOf h e) (RemovalPaths h e) (fun d => (h.entities d).uri.last)
      (removeFromParent stageOverrides h e) := by
  have hstart := frame_below indexed he (ParentOf h e) (RemovalPaths h e)
  unfold removeFromParent
  cases hp : h.parent e with
  | none => exact hstart
  | some p =>
    refine (hstart.removeChild (fun hq hd => .add hq ⟨_, hd, rfl⟩)
      (fun d hd => .stem ⟨d, hd, rfl⟩) (Or.inr ?_) .refl).1
    unfold ParentOf
    rw [← indexed.findEntity_eq]
    exact findEntity_of_parent hp

end Subtrees

/-! ## Requests -/

/-- An entity without its children and without the data that changes while it
keeps its place. -/
def lone (x : Entity) : Entity :=
  { lasting x with children := [] }

/-- What a move comes to for everybody else. -/
structure Passes (h : ZstHierarchy) (M R : EntityId → Prop) (T : ZstURI → Prop)
    (k : ZstHierarchy) : Prop where
  root : k.root = h.root
  uri : ∀ d, (k.entities d).uri = (h.entities d).uri ∨ M d ∧ T (k.entities d).uri
  outside : ∀ d, ¬ M d → lone (k.entities d) = lone (h.entities d)
  children : ∀ d, ¬ M d → ¬ R d → (k.entities d).children = (h.entities d).children
  lookup : ∀ q, k.lookup q = h.lookup q ∨ T q ∨ ∃ d, M d ∧ (h.entities d).uri = q
  found : ∀ q x, k.lookup q = some x → h.lookup q = some x ∨ M x

namespace Passes

variable {h k l : ZstHierarchy} {M R : EntityId → Prop} {T : ZstURI → Prop}

theorem of_frame {name : EntityId → ZstURI} (frame : Frame h M R T name k) :
    Passes h M R T k where
  root := frame.edit.root
  uri := frame.uri
  outside d hd := congrArg lasting (frame.outside d hd)
  children := frame.children
  lookup := frame.lookup
  found := frame.found

theorem mono {T' : ZstURI → Prop} (hk : Passes h M R T k) (hT : ∀ {q}, T q → T' q) :
    Passes h M R T' k where
  root := hk.root
  uri d := (hk.uri d).imp id (And.imp id hT)
  outside := hk.outside
  children := hk.children
  lookup q := (hk.lookup q).imp id (Or.imp hT id)
  found := hk.found

theorem of_standing (hk : Standing h k) : Passes h M R T k where
  root := hk.root
  uri d := Or.inl (hk.field Entity.uri (fun _ => rfl) d)
  outside d _ := congrArg (fun x : Entity => { x with children := [] }) (hk.entities d)
  children d _ _ := hk.field Entity.children (fun _ => rfl) d
  lookup _ := Or.inl (congrFun hk.lookup _)
  found _ _ hx := Or.inl (hk.lookup ▸ hx)

theorem trans (hk : Passes h M R T k) (kl : Passes k M R T l) : Passes h M R T l where
  root := kl.root.trans hk.root
  uri d := by
    rcases kl.uri d with hd | hd
    · rcases hk.uri d with hd' | hd'
      · exact Or.inl (hd.trans hd')
      · exact Or.inr (hd ▸ hd')
    · exact Or.inr hd
  outside d hd := (kl.outside d hd).trans (hk.outside d hd)
  children d hd hdR := (kl.children d hd hdR).trans (hk.children d hd hdR)
  lookup q := by
    rcases kl.lookup q with hq | hq | ⟨d, hd, rfl⟩
    · rw [hq]
      exact hk.lookup q
    · exact Or.inr (Or.inl hq)
    · rcases hk.uri d with hd' | ⟨-, hd'⟩
      · exact Or.inr (Or.inr ⟨d, hd, hd'.symm⟩)
      · exact Or.inr (Or.inl hd')
  found q x hx := by
    rcases kl.found q x hx with hx | hx
    · exact hk.found q x hx
    · exact Or.inr hx

/-- One of those who move changes in what does not concern its place. -/
theorem of_modify {e : EntityId} (he : M e) (f : Entity → Entity)
    (huri : ∀ x, (f x).uri = x.uri) : Passes h M R T (h.modify e f) where
  root := rfl
  uri d := by
    rw [modify_entities]
    split
    · rename_i hde
      exact Or.inl (by rw [huri, hde])
    · exact Or.inl rfl
  outside d hd := by
    have hde : d ≠ e := fun hde => hd (hde ▸ he)
    rw [modify_entities_of_ne h f hde]
  children d hd _ := by
    have hde : d ≠ e := fun hde => hd (hde ▸ he)
    rw [modify_entities_of_ne h f hde]
  lookup _ := Or.inl rfl
  found _ _ hx := Or.inl hx

theorem field {β : Type} (hk : Passes h M R T k) {d : EntityId} (hd : ¬ M d) (f : Entity → β)
    (hf : ∀ x, f (lone x) = f x) : f (k.entities d) = f (h.entities d) := by
  rw [← hf, hk.outside d hd, hf]

/-- Somebody else is found where it was, as long as its path is not passed. -/
theorem lookup_eq (hk : Passes h M R T k) {q : ZstURI} (hq : ¬ T q)
    (hM : ∀ d, M d → (h.entities d).uri ≠ q) : k.lookup q = h.lookup q := by
  rcases hk.lookup q with heq | hpassed | ⟨d, hd, huri⟩
  · exact heq
  · exact absurd hpassed hq
  · exact absurd huri (hM d hd)

end Passes

section Requests

variable {h k : ZstHierarchy} {e : EntityId}

/-- The second hierarchy has the same trees at the same paths. -/
structure SamePlaces (h k : ZstHierarchy) : Prop where
  lookup : k.lookup = h.lookup
  uri : ∀ d, (k.entities d).uri = (h.entities d).uri
  parentAddress : ∀ d, (k.entities d).parentAddress = (h.entities d).parentAddress
  children : ∀ d, (k.entities d).children = (h.entities d).children

namespace SamePlaces

theorem of_standing (hk : Standing h k) : SamePlaces h k :=
  ⟨hk.lookup, hk.field Entity.uri fun _ => rfl, hk.field Entity.parentAddress fun _ => rfl,
    hk.field Entity.children fun _ => rfl⟩

theorem trans {l : ZstHierarchy} (hk : SamePlaces h k) (kl : SamePlaces k l) : SamePlaces h l :=
  ⟨kl.lookup.trans hk.lookup, fun d => (kl.uri d).trans (hk.uri d),
    fun d => (kl.parentAddress d).trans (hk.parentAddress d),
    fun d => (kl.children d).trans (hk.children d)⟩

theorem of_modify (h : ZstHierarchy) (e : EntityId) (f : Entity → Entity)
    (huri : ∀ x, (f x).uri = x.uri) (hparent : ∀ x, (f x).parentAddress = x.parentAddress)
    (hchildren : ∀ x, (f x).children = x.children) : SamePlaces h (h.modify e f) := by
  refine ⟨rfl, fun d => ?_, fun d => ?_, fun d => ?_⟩
  all_goals
    rw [modify_entities]
    split
    · rename_i hde
      simp only [huri, hparent, hchildren, hde]
    · rfl

variable (hk : SamePlaces h k)

include hk

theorem below_eq : k.Below = h.Below := by
  have hchild : k.HasChild = h.HasChild := by
    funext p c
    simp only [HasChild, hk.lookup, hk.children]
  unfold Below
  rw [hchild]

theorem inTree (he : h.lookup (h.entities e).uri = some e) :
    k.lookup (k.entities e).uri = some e := by
  rw [hk.lookup, hk.uri]
  exact he

theorem renamePaths_eq (newName : ZstURI) : RenamePaths k e newName = RenamePaths h e newName := by
  have hstem : RenameStem k e newName = RenameStem h e newName := by
    funext u
    simp only [RenameStem, hk.uri, hk.parentAddress, hk.below_eq]
  simp only [RenamePaths, hstem, hk.uri, hk.below_eq]

end SamePlaces

theorem SamePlaces.parentOf_eq (hk : SamePlaces h k) : ParentOf k e = ParentOf h e := by
  funext p
  simp only [ParentOf, hk.lookup, hk.parentAddress]

/-- `remove_proxy_entity`. -/
theorem passes_removeProxyEntity (indexed : Indexed h)
    (he : h.lookup (h.entities e).uri = some e) :
    Passes h (h.Below e) (ParentOf h e) (RemovalPaths h e)
      (h.removeProxyEntity stageOverrides e) := by
  unfold ZstHierarchy.removeProxyEntity
  split
  · refine .trans (.of_frame (frame_removeFromParent indexed he)) (.of_standing ?_)
    exact (Standing.defersLeaving _ _).trans (Standing.foldl Standing.enqueueDeactivation _ _)
  · exact .of_standing (.refl h)

/-- `update_proxy_entity`. -/
theorem passes_updateProxyEntity (indexed : Indexed h)
    (he : h.lookup (h.entities e).uri = some e) (buffer : EntityBuffer) :
    Passes h (h.Below e) (ParentOf h e) (RenamePaths h e buffer.uri.last)
      (h.updateProxyEntity stageOverrides e buffer) := by
  obtain ⟨k, hk, hupdate⟩ := updateProxyEntity_cases stageOverrides h e buffer
  have hcreatables :
      Passes h (h.Below e) (ParentOf h e) (RenamePaths h e buffer.uri.last) k ∧
        SamePlaces h k ∧ Indexed k := by
    rcases hk with rfl | ⟨-, -, rfl⟩
    · exact ⟨.of_standing (.refl k), .of_standing (.refl k), indexed⟩
    · have hqueued := Standing.synchronisableHasEvent
        (h.modify e fun x => { x with creatables := buffer.creatables }) e
      have hmodified : Indexed (h.modify e fun x => { x with creatables := buffer.creatables }) :=
        indexed.modify e _ (fun _ => rfl) fun _ => rfl
      have hplaces : SamePlaces h
          (h.modify e fun x => { x with creatables := buffer.creatables }) :=
        .of_modify h e _ (fun _ => rfl) (fun _ => rfl) fun _ => rfl
      have hpasses : Passes h (h.Below e) (ParentOf h e) (RenamePaths h e buffer.uri.last)
          (h.modify e fun x => { x with creatables := buffer.creatables }) :=
        .of_modify .refl _ fun _ => rfl
      exact ⟨hpasses.trans (.of_standing hqueued), hplaces.trans (.of_standing hqueued),
        hmodified.standing hqueued⟩
  obtain ⟨hpasses, hplaces, hindexed⟩ := hcreatables
  rcases hupdate with hupdate | ⟨-, -, hupdate⟩
  · rwa [hupdate]
  · have hrenamed : Passes k (k.Below e) (ParentOf k e) (RenamePaths k e buffer.uri.last)
        (setName stageOverrides k e buffer.uri.last) :=
      .of_frame (frame_setName hindexed (hplaces.inTree he) (ZstURI.last_last buffer.uri))
    rw [hplaces.below_eq, hplaces.parentOf_eq, hplaces.renamePaths_eq] at hrenamed
    rw [hupdate]
    refine (hpasses.trans hrenamed).trans ?_
    exact ⟨rfl, fun _ => Or.inl rfl, fun _ _ => rfl, fun _ _ _ => rfl, fun _ => Or.inl rfl,
      fun _ _ hx => Or.inl hx⟩

end Requests

/-! ## Messages that move somebody -/

section Messages

variable {s t : ZstSession}

/-- The message removes or renames somebody. -/
def IsMove : Content → Prop
  | .clientLeaveRequest _ _ | .entityUpdateRequest _ _ | .entityDestroyRequest _ => True
  | _ => False

/-- What such a message comes to: the stage says something, after it has removed
somebody, or updated somebody, or neither. -/
inductive MessageMoves (h : ZstHierarchy) (msg : ZstStageMessage) (k : ZstHierarchy) : Prop
  | nobody (sent : List Outgoing) (hk : k = { h with sent })
  | removed (e : EntityId) (sent : List Outgoing) (he : leavers h (.receive msg) = [e])
      (hk : k = { h.removeProxyEntity stageOverrides e with sent })
  | updated (buffer : EntityBuffer) (path : ZstURI) (e : EntityId) (sent : List Outgoing)
      (hcontent : msg.content = .entityUpdateRequest buffer path)
      (hfind : h.findEntity path = some e)
      (hk : k = { h.updateProxyEntity stageOverrides e buffer with sent })

theorem receive_moved {msg : ZstStageMessage} (hmsg : IsMove msg.content)
    (hrun : receive s msg = .ok t) :
    t = { s with hierarchy := t.hierarchy } ∧ MessageMoves s.hierarchy msg t.hierarchy := by
  have hcalm : ¬ EntityPreserving msg.content := by
    cases hcontent : msg.content with
    | clientLeaveRequest | entityUpdateRequest | entityDestroyRequest => exact not_false
    | _ =>
      rw [hcontent] at hmsg
      exact hmsg.elim
  obtain ⟨l, response, hdispatch, rfl⟩ := receive_not_calm hcalm hrun
  refine ⟨rfl, ?_⟩
  dsimp only
  rw [respond_eq]
  unfold ZstStageHierarchy.dispatch at hdispatch
  cases hcontent : msg.content with
  | clientLeaveRequest path reason =>
    rw [hcontent] at hdispatch
    unfold clientLeavingHandler at hdispatch
    obtain ⟨e, hperformer, hdispatch⟩ := Library.bind_ok.mp hdispatch
    obtain ⟨rfl, -⟩ := Prod.mk.inj (Except.ok.inj hdispatch)
    rw [broadcast_eq]
    refine .removed e _ ?_ rfl
    simp only [leavers, hcontent, deref_ok hperformer, Option.toList_some]
  | entityUpdateRequest buffer path =>
    rw [hcontent] at hdispatch
    unfold updateEntityHandler at hdispatch
    obtain ⟨update, hupdate, hdispatch⟩ := Library.bind_ok.mp hdispatch
    obtain rfl : buffer = update := by
      unfold getEntityField at hupdate
      split at hupdate
      · cases hupdate
      · exact Except.ok.inj hupdate
    cases hfind : s.hierarchy.findEntity path with
    | none =>
      rw [hfind] at hdispatch
      obtain ⟨rfl, -⟩ := Prod.mk.inj (Except.ok.inj hdispatch)
      exact .nobody _ rfl
    | some e =>
      rw [hfind] at hdispatch
      obtain ⟨rfl, -⟩ := Prod.mk.inj (Except.ok.inj hdispatch)
      rw [broadcast_eq]
      exact .updated buffer path e _ hcontent hfind rfl
  | entityDestroyRequest path =>
    rw [hcontent] at hdispatch
    obtain rfl : (destroyEntityHandler s.hierarchy path _).1 = l :=
      congrArg Prod.fst (Except.ok.inj hdispatch)
    unfold destroyEntityHandler
    cases hfind : s.hierarchy.findEntity path with
    | none => exact .nobody _ rfl
    | some e =>
      dsimp only
      rw [broadcast_eq]
      refine .removed e _ ?_ rfl
      simp only [leavers, hcontent, hfind, Option.toList_some]
  | _ =>
    rw [hcontent] at hmsg
    exact hmsg.elim

end Messages

end Showtime.Footprint
