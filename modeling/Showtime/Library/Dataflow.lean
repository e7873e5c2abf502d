import Mathlib.Algebra.BigOperators.Group.List.Basic
import Mathlib.Algebra.GroupWithZero.Nat
import Mathlib.Algebra.Order.Group.Nat
import Mathlib.Data.Fintype.Card
import Mathlib.Data.Set.Finite.Basic
import Mathlib.Logic.Function.Iterate
/-!
# Values in a network

Nodes have ports. A node makes a value of what its own ports hold and puts it
into its targets, ports of other nodes or of its own. Every target is then due:
its node waits at the end of a queue until it is its turn. The queue drains
exactly if no waiting node can reach one that reaches itself, and what the ports
hold then is what the equations of the network ask for.
-/

namespace Showtime.Library

structure Dataflow (Node Port Value : Type*) where
  /-- The ports that a node writes. -/
  targets : Node → List Port
  /-- The node that reads a port, if there is one. -/
  owner : Port → Option Node
  /-- The value that a node makes of what the ports hold. -/
  output : Node → (Port → Value) → Value

/-- What the ports hold, and which nodes wait; a waiting node may be gone. -/
structure Dataflow.State (Node Port Value : Type*) where
  values : Port → Value
  queue : List (Option Node)

namespace Dataflow

variable {Node Port Value : Type*} (N : Dataflow Node Port Value)

/-- One node writes a port of the other. -/
def Feeds (n m : Node) : Prop :=
  ∃ p ∈ N.targets n, N.owner p = some m

/-- A node only reads its own ports. -/
def Local : Prop :=
  ∀ n (v w : Port → Value), (∀ p, N.owner p = some n → v p = w p) → N.output n v = N.output n w

/-- No port is written by two nodes. -/
def Single : Prop :=
  ∀ n m p, p ∈ N.targets n → p ∈ N.targets m → n = m

/-- The equations of the network. -/
def Solves (v : Port → Value) : Prop :=
  ∀ n, ∀ p ∈ N.targets n, v p = N.output n v

/-- What waits because of an item at the front of the queue. -/
def follow : Option Node → List (Option Node)
  | none => []
  | some n => (N.targets n).map N.owner

/-- The queue after its front. -/
def advance : List (Option Node) → List (Option Node)
  | [] => []
  | item :: queue => queue ++ N.follow item

/-- The values after a node has written its targets. -/
def write [DecidableEq Port] (n : Node) (v : Port → Value) : Port → Value :=
  fun p => if p ∈ N.targets n then N.output n v else v p

/-- The front of the queue is handled. -/
def step [DecidableEq Port] (s : State Node Port Value) : State Node Port Value :=
  match s.queue with
  | [] => s
  | none :: queue => { s with queue }
  | some n :: queue => ⟨N.write n s.values, queue ++ N.follow (some n)⟩

/-! ## How long the queue lasts -/

section Queue

variable {N} {n : Node} {queue : List (Option Node)}

@[simp] theorem advance_cons (item : Option Node) (queue : List (Option Node)) :
    N.advance (item :: queue) = queue ++ N.follow item := rfl

theorem feeds_of_mem_follow {m : Node} (hmem : some m ∈ N.follow (some n)) : N.Feeds n m :=
  List.mem_map.mp hmem

theorem mem_follow_of_feeds {m : Node} (hfeeds : N.Feeds n m) : some m ∈ N.follow (some n) :=
  List.mem_map.mpr hfeeds

/-- How many rounds an item of the queue takes with all that comes of it. -/
def cost (work : Node → Nat) : Option Node → Nat
  | none => 1
  | some n => work n

/-- The number of rounds that a node causes is that of its targets and its own. -/
def Counts (work : Node → Nat) (n : Node) : Prop :=
  work n = ((N.follow (some n)).map (cost work)).sum + 1

section Work

variable {work : Node → Nat} {P : Node → Prop} (hclosed : ∀ n m, P n → N.Feeds n m → P m)
  (hcounts : ∀ n, P n → N.Counts work n)

include hcounts in
theorem sum_advance {item : Option Node} (hitem : ∀ n, item = some n → P n)
    (queue : List (Option Node)) :
    ((N.advance (item :: queue)).map (cost work)).sum + 1 =
      ((item :: queue).map (cost work)).sum := by
  rw [advance_cons, List.map_append, List.sum_append, List.map_cons, List.sum_cons]
  cases item with
  | none => simp [follow, cost, Nat.add_comm]
  | some n =>
    have hn : cost work (some n) = ((N.follow (some n)).map (cost work)).sum + 1 :=
      hcounts n (hitem n rfl)
    omega

include hclosed in
theorem mem_advance (hqueue : ∀ n, some n ∈ queue → P n) :
    ∀ n, some n ∈ N.advance queue → P n := by
  intro n hn
  cases queue with
  | nil => exact absurd hn List.not_mem_nil
  | cons item queue =>
    rcases List.mem_append.mp hn with hn | hn
    · exact hqueue n (List.mem_cons_of_mem item hn)
    · cases item with
      | none => exact absurd hn List.not_mem_nil
      | some m => exact hclosed m n (hqueue m List.mem_cons_self) (feeds_of_mem_follow hn)

include hcounts in
/-- Every item takes a round at least. -/
theorem queue_eq_nil_of_sum (hqueue : ∀ n, some n ∈ queue → P n)
    (hsum : (queue.map (cost work)).sum = 0) : queue = [] := by
  cases queue with
  | nil => rfl
  | cons item queue =>
    have hone := sum_advance hcounts (fun n hn => hqueue n (hn ▸ List.mem_cons_self)) queue
    omega

include hclosed hcounts in
/-- The queue is empty after exactly so many rounds. -/
theorem advance_iterate_eq_nil (hqueue : ∀ n, some n ∈ queue → P n) (k : Nat) :
    N.advance^[k] queue = [] ↔ (queue.map (cost work)).sum ≤ k := by
  induction k generalizing queue with
  | zero =>
    rw [Function.iterate_zero_apply, Nat.le_zero]
    refine ⟨fun hnil => ?_, queue_eq_nil_of_sum hcounts hqueue⟩
    simp [hnil]
  | succ k ih =>
    rw [Function.iterate_succ_apply, ih (mem_advance hclosed hqueue)]
    cases queue with
    | nil => simp [advance]
    | cons item queue =>
      have hone := sum_advance hcounts (fun n hn => hqueue n (hn ▸ List.mem_cons_self)) queue
      omega

end Work

/-- An accessible node causes finitely many rounds. -/
theorem exists_work (N : Dataflow Node Port Value) :
    ∃ work, ∀ n, Acc (fun m n => N.Feeds n m) n → N.Counts work n := by
  classical
  let down : Node → Node → Prop := fun m n => N.Feeds n m ∧ Acc (fun m n => N.Feeds n m) n
  have haccessible : ∀ n, Acc (fun m n => N.Feeds n m) n → Acc down n := by
    intro n hn
    induction hn with
    | intro n _ ih => exact ⟨n, fun m hm => ih m hm.1⟩
  have hdown : WellFounded down :=
    ⟨fun n => ⟨n, fun m hm => haccessible m (hm.2.inv hm.1)⟩⟩
  let rounds : (n : Node) → (∀ m, down m n → Nat) → Nat := fun n ih =>
    ((N.follow (some n)).map (cost fun m => if hm : down m n then ih m hm else 0)).sum + 1
  refine ⟨hdown.fix rounds, fun n hn => ?_⟩
  have hcost : (N.follow (some n)).map (cost fun m => if down m n then hdown.fix rounds m else 0) =
      (N.follow (some n)).map (cost (hdown.fix rounds)) := by
    refine List.map_congr_left fun item hitem => ?_
    cases item with
    | none => rfl
    | some m =>
      have hm : down m n := ⟨feeds_of_mem_follow hitem, hn⟩
      exact if_pos hm
  unfold Counts
  rw [hdown.fix_eq, ← hcost]
  rfl

/-- A queue that drains holds accessible nodes only. -/
theorem acc_of_drained {k : Nat} (hdrained : N.advance^[k] queue = []) :
    ∀ n, some n ∈ queue → Acc (fun m n => N.Feeds n m) n := by
  induction k generalizing queue with
  | zero =>
    intro n hn
    rw [Function.iterate_zero_apply] at hdrained
    exact absurd (hdrained ▸ hn) List.not_mem_nil
  | succ k ih =>
    rw [Function.iterate_succ_apply] at hdrained
    intro n hn
    cases queue with
    | nil => exact absurd hn List.not_mem_nil
    | cons item queue =>
      have hnext := ih hdrained
      rcases List.mem_cons.mp hn with rfl | hn
      · exact ⟨n, fun m hm =>
          hnext m (List.mem_append_right _ (mem_follow_of_feeds hm))⟩
      · exact hnext n (List.mem_append_left _ hn)

/-- The queue drains exactly if every waiting node is accessible. -/
theorem drains_iff_acc : (∃ k, N.advance^[k] queue = []) ↔
    ∀ n, some n ∈ queue → Acc (fun m n => N.Feeds n m) n := by
  constructor
  · rintro ⟨k, hdrained⟩
    exact acc_of_drained hdrained
  · intro hacc
    obtain ⟨work, hcounts⟩ := exists_work N
    exact ⟨_, (advance_iterate_eq_nil (fun n m hn hm => hn.inv hm) hcounts hacc _).mpr le_rfl⟩

end Queue

/-! ## Loops -/

section Loops

variable {r : Node → Node → Prop} {n : Node}

theorem acc_of_reaches {m : Node} (hacc : Acc (fun m n => r n m) n)
    (hreaches : Relation.ReflTransGen r n m) : Acc (fun m n => r n m) m := by
  induction hreaches with
  | refl => exact hacc
  | tail _ hlast ih => exact ih.inv hlast

/-- An accessible node reaches no loop. -/
theorem not_loop_of_acc {m : Node} (hacc : Acc (fun m n => r n m) n)
    (hreaches : Relation.ReflTransGen r n m) : ¬ Relation.TransGen r m m := by
  have hm := (acc_of_reaches hacc hreaches).transGen
  intro hloop
  have hswap : Relation.TransGen (fun m n => r n m) m m := Relation.transGen_swap.mpr hloop
  clear hreaches
  induction hm with
  | intro m _ ih => exact ih m hswap hloop hswap

variable (hfinite : {m | ∃ l, r l m}.Finite)

include hfinite

/-- Where finitely many nodes are below others, one that reaches no loop is accessible. -/
theorem acc_of_acyclic (hacyclic : ∀ m, Relation.ReflTransGen r n m → ¬ Relation.TransGen r m m) :
    Acc (fun m n => r n m) n := by
  let Reached := {m // Relation.ReflTransGen r n m}
  let below : Reached → Reached → Prop := fun m n => Relation.TransGen r n.1 m.1
  have : Finite Reached := by
    refine (hfinite.insert n).subset fun m hm => ?_
    rcases Relation.ReflTransGen.cases_tail hm with rfl | ⟨l, -, hlast⟩
    · exact Or.inl rfl
    · exact Or.inr ⟨l, hlast⟩
  have : IsTrans Reached below := ⟨fun _ _ _ hba hcb => hcb.trans hba⟩
  have : Std.Irrefl below := ⟨fun m hloop => hacyclic m.1 m.2 hloop⟩
  have hbelow : WellFounded below := Finite.wellFounded_of_trans_of_irrefl below
  have hacc (m : Reached) : Acc (fun m n => r n m) m.1 := by
    induction m using hbelow.induction with
    | _ m ih =>
      exact ⟨m.1, fun l hl => ih ⟨l, m.2.tail hl⟩ (Relation.TransGen.single hl)⟩
  exact hacc ⟨n, .refl⟩

/-- Without a loop there is no endless chain upwards either. -/
theorem wellFounded_of_acyclic (hacyclic : ∀ m, ¬ Relation.TransGen r m m) : WellFounded r := by
  let Lower := {m // ∃ l, r l m}
  let above : Lower → Lower → Prop := fun m n => Relation.TransGen r m.1 n.1
  have : Finite Lower := hfinite
  have : IsTrans Lower above := ⟨fun _ _ _ hab hbc => hab.trans hbc⟩
  have : Std.Irrefl above := ⟨fun m hloop => hacyclic m.1 hloop⟩
  have habove : WellFounded above := Finite.wellFounded_of_trans_of_irrefl above
  have hstep (m : Node) (hm : ∀ l : Lower, r l.1 m → Acc r l.1) : Acc r m := by
    refine ⟨m, fun l hl => ?_⟩
    by_cases hlower : ∃ k, r k l
    · exact hm ⟨l, hlower⟩ hl
    · exact ⟨l, fun k hk => absurd ⟨k, hk⟩ hlower⟩
  have hacc (m : Lower) : Acc r m.1 := by
    induction m using habove.induction with
    | _ m ih => exact hstep m.1 fun l hl => ih l (Relation.TransGen.single hl)
  exact ⟨fun m => hstep m fun l _ => hacc l⟩

end Loops

/-! ## What the ports hold -/

section Values

variable {N} [DecidableEq Port] {s : State Node Port Value} {n : Node}

theorem step_queue (s : State Node Port Value) : (N.step s).queue = N.advance s.queue := by
  obtain ⟨values, queue⟩ := s
  cases queue with
  | nil => rfl
  | cons item queue =>
    cases item with
    | none => simp [step, follow]
    | some m => rfl

theorem iterate_queue (s : State Node Port Value) (k : Nat) :
    (N.step^[k] s).queue = N.advance^[k] s.queue := by
  induction k generalizing s with
  | zero => rfl
  | succ k ih => rw [Function.iterate_succ_apply, ih, step_queue, Function.iterate_succ_apply]

/-- The node waits, or its targets hold what it makes of its own ports. -/
def WaitingOrServed (N : Dataflow Node Port Value) (s : State Node Port Value) (n : Node) : Prop :=
  some n ∈ s.queue ∨ ∀ p ∈ N.targets n, s.values p = N.output n s.values

variable (hlocal : N.Local) (hsingle : N.Single)

include hlocal in
/-- Writing leaves the output of a node alone that owns no target. -/
theorem output_write {m : Node} (v : Port → Value) (hfeeds : ¬ N.Feeds m n) :
    N.output n (N.write m v) = N.output n v := by
  refine hlocal n _ _ fun p hp => ?_
  exact if_neg fun htarget => hfeeds ⟨p, htarget, hp⟩

include hlocal hsingle in
/-- A node that is settled stays so: it is due again as soon as one of its ports is written. -/
theorem WaitingOrServed.step (hn : N.WaitingOrServed s n) : N.WaitingOrServed (N.step s) n := by
  obtain ⟨v, queue⟩ := s
  cases queue with
  | nil => exact hn
  | cons item queue =>
    cases item with
    | none =>
      refine hn.imp_left fun hmem => ?_
      exact (List.mem_cons.mp hmem).resolve_left (Option.some_ne_none n)
    | some m =>
      by_cases hfeeds : N.Feeds m n
      · exact Or.inl (List.mem_append_right _ (mem_follow_of_feeds hfeeds))
      by_cases hnm : n = m
      · subst hnm
        refine Or.inr fun p hp => ?_
        exact (if_pos hp).trans (output_write hlocal v hfeeds).symm
      · rcases hn with hn | hn
        · have hrest := (List.mem_cons.mp hn).resolve_left fun heq => hnm (Option.some.inj heq)
          exact Or.inl (List.mem_append_left _ hrest)
        · refine Or.inr fun p hp => ?_
          have hother : p ∉ N.targets m := fun htarget => hnm (hsingle n m p hp htarget)
          exact (if_neg hother).trans ((hn p hp).trans (output_write hlocal v hfeeds).symm)

include hlocal hsingle in
/-- Once nobody waits, the equations of the settled nodes hold. -/
theorem WaitingOrServed.solved (hn : N.WaitingOrServed s n) {k : Nat}
    (hdrained : (N.step^[k] s).queue = []) :
    ∀ p ∈ N.targets n, (N.step^[k] s).values p = N.output n (N.step^[k] s).values := by
  have hk : N.WaitingOrServed (N.step^[k] s) n := by
    clear hdrained
    induction k generalizing s with
    | zero => exact hn
    | succ k ih =>
      rw [Function.iterate_succ_apply]
      exact ih (hn.step hlocal hsingle)
  exact hk.resolve_left fun hmem => absurd (hdrained ▸ hmem) List.not_mem_nil

/-- A port that no node writes keeps its value. -/
theorem iterate_values {p : Port} (hfree : ∀ n, p ∉ N.targets n) (s : State Node Port Value)
    (k : Nat) : (N.step^[k] s).values p = s.values p := by
  induction k generalizing s with
  | zero => rfl
  | succ k ih =>
    rw [Function.iterate_succ_apply, ih]
    obtain ⟨v, queue⟩ := s
    cases queue with
    | nil => rfl
    | cons item queue =>
      cases item with
      | none => rfl
      | some m => exact if_neg (hfree m)

omit [DecidableEq Port] in
include hlocal in
/-- Without an endless chain of feeding nodes the equations have one solution
for what the free ports hold. -/
theorem Solves.eq {v w : Port → Value} (hv : N.Solves v) (hw : N.Solves w)
    (hfounded : WellFounded N.Feeds) (hfree : ∀ p, (∀ n, p ∉ N.targets n) → v p = w p) :
    v = w := by
  have houtput (n : Node) : N.output n v = N.output n w := by
    induction n using hfounded.induction with
    | _ n ih =>
      refine hlocal n v w fun p hp => ?_
      by_cases htarget : ∃ m, p ∈ N.targets m
      · obtain ⟨m, hm⟩ := htarget
        rw [hv m p hm, hw m p hm, ih m ⟨p, hm, hp⟩]
      · exact hfree p (not_exists.mp htarget)
  funext p
  by_cases htarget : ∃ m, p ∈ N.targets m
  · obtain ⟨m, hm⟩ := htarget
    rw [hv m p hm, hw m p hm, houtput m]
  · exact hfree p (not_exists.mp htarget)

include hlocal hsingle in
/-- If everyone is settled, what the ports hold in the end is the solution. -/
theorem values_eq_of_solves (hsettled : ∀ n, N.WaitingOrServed s n) {k : Nat}
    (hdrained : (N.step^[k] s).queue = []) (hfounded : WellFounded N.Feeds) {v : Port → Value}
    (hv : N.Solves v) (hfree : ∀ p, (∀ n, p ∉ N.targets n) → v p = s.values p) :
    (N.step^[k] s).values = v := by
  refine Solves.eq hlocal (fun n => (hsettled n).solved hlocal hsingle hdrained) hv hfounded ?_
  exact fun p hp => (iterate_values hp s k).trans (hfree p hp).symm

end Values

end Dataflow

end Showtime.Library
