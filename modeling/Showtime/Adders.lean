import Showtime.Firing
import Showtime.Library.Dataflow
/-!
# Adders

The component of the core plugin, an `Adder`, and the compute events of a client
whose components are adders. A call of `compute` fires the plug of the sum,
which queues compute events for the inputs that it serves itself, and the queue
is drained until it is empty.
-/

namespace Showtime.Adders

open ZstHierarchy ZstGraphSession Receiving Firing Library

variable {F : Type} (conv : Conversions F) (plus : F → F → F)

/-- The plugs of an `Adder`, which are objects of their own. -/
structure Adder where
  augend : EntityId
  addend : EntityId
  sum : EntityId
  sum_ne_augend : sum ≠ augend
  sum_ne_addend : sum ≠ addend

/-- A call that may throw. What it did before that remains. -/
abbrev AdderCall (F : Type) := EStateM Fault (ZstGraphSession F)

/-- `append_float` of a plug. -/
def appendFloat (plug : EntityId) (value : F) : AdderCall F Unit :=
  modify fun g => g.setValue plug
    { g.rawValue plug with values := (g.rawValue plug).values ++ [.float value] }

/-- `float_at` of a plug. -/
def floatAt (plug : EntityId) (position : Nat) : AdderCall F F := do
  let g ← get
  MonadExcept.ofExcept ((g.rawValue plug).floatAt conv position)

/-- A call that does nothing if it throws. -/
def attempt (f : ZstGraphSession F → Except Fault (ZstGraphSession F)) : AdderCall F Unit := do
  let g ← get
  set (← MonadExcept.ofExcept (f g))

/-- What `fire` does for one cable. -/
def fireCable (plug input : EntityId) : AdderCall F Unit := do
  let g ← get
  let input ← MonadExcept.ofExcept (g.hierarchy.deref (some input))
  if (g.hierarchy.entities input).uri.first = (g.hierarchy.entities plug).uri.first then
    modify fun g => g.setValue input ((g.rawValue input).copy (g.rawValue plug))
    attempt fun g => plugReceivedValue g input

/-- `ZstOutputPlug::fire` as a call. -/
def fire (plug : EntityId) : AdderCall F Unit := do
  let g ← get
  if (g.hierarchy.entities plug).canFire then
    let bundle := inputs g.session plug
    let localCables := bundle.filter fun input =>
      (g.hierarchy.entities input).uri.first = (g.hierarchy.entities plug).uri.first
    bundle.forM (fireCable plug)
    if localCables.length ≤ bundle.length then
      let g ← get
      let value ← MonadExcept.ofExcept ((g.rawValue plug).serialize conv)
      let msg : GraphMessage F := ⟨(g.hierarchy.entities plug).uri, value⟩
      modify fun g => { g with graphOut := g.graphOut ++ [msg] }
    modify fun g => g.setValue plug (g.rawValue plug).clear

/-- One round of the loop of `compute`. -/
def addAt (a : Adder) (i : Nat) : AdderCall F Unit := do
  let g ← get
  if (g.rawValue a.augend).size > i ∧ (g.rawValue a.addend).size > i then
    let result := plus (← floatAt conv a.augend i) (← floatAt conv a.addend i)
    appendFloat a.sum result
  else if (g.rawValue a.augend).size > i then
    appendFloat a.sum (← floatAt conv a.augend i)
  else if (g.rawValue a.addend).size > i then
    appendFloat a.sum (← floatAt conv a.addend i)

/-- `Adder::compute`, which does not look at the plug it is called for. -/
def compute (a : Adder) : AdderCall F Unit := do
  let g ← get
  let largestSize := max (g.rawValue a.addend).size (g.rawValue a.augend).size
  (List.range largestSize).forM (addAt conv plus a)
  fire conv a.sum

/-- `on_compute`, which catches the exceptions of `compute`. -/
def onCompute (a : Adder) (g : ZstGraphSession F) : Except Fault (ZstGraphSession F) :=
  match (compute conv plus a).run g with
  | .ok _ g => .ok g
  | .error .exception g => .ok g
  | .error fault _ => .error fault

variable (adders : EntityId → Option Adder)

/-- One deferred event of `m_compute_events`. The `compute` of a component that
is no adder is empty. -/
def processCompute (g : ZstGraphSession F) : Except Fault (ZstGraphSession F) :=
  match g.computeEvents with
  | [] => .ok g
  | event :: rest =>
    let g := { g with computeEvents := rest }
    match g.hierarchy.findEntity event.plugPath with
    | none => .ok g
    | some plug => do
      let component ← g.hierarchy.deref (some event.parent)
      let g := { g with computed := g.computed ++ [⟨component, plug, g.rawValue plug⟩] }
      match adders component with
      | none => return g
      | some a => onCompute conv plus a g

/-- So many rounds of the loop that `process_events` drains `m_compute_events` with. -/
def processEvents : Nat → ZstGraphSession F → Except Fault (ZstGraphSession F)
  | 0, g => .ok g
  | n + 1, g => do processEvents n (← processCompute conv plus adders g)

/-! ## Calls -/

/-- The session after a call, also if it throws. -/
def leaves {α : Type} (call : AdderCall F α) (g : ZstGraphSession F) : ZstGraphSession F :=
  match call.run g with
  | .ok _ h => h
  | .error _ h => h

section Calls

variable {α β : Type} {g h : ZstGraphSession F} {first : AdderCall F α} {next : α → AdderCall F β}

theorem run_bind_of_ok {a : α} (hfirst : first.run g = .ok a h) :
    (first >>= next).run g = (next a).run h := by
  have hbind : (first >>= next).run g = EStateM.bind first next g := rfl
  unfold EStateM.run at hfirst
  rw [hbind, EStateM.bind, hfirst]
  rfl

theorem run_bind_of_error {fault : Fault} (hfirst : first.run g = .error fault h) :
    (first >>= next).run g = .error fault h := by
  have hbind : (first >>= next).run g = EStateM.bind first next g := rfl
  unfold EStateM.run at hfirst
  rw [hbind, EStateM.bind, hfirst]

theorem bind_congr_run {second : AdderCall F α} (hrun : first.run g = second.run g) :
    (first >>= next).run g = (second >>= next).run g := by
  cases hsecond : second.run g with
  | ok x h => rw [run_bind_of_ok hsecond, run_bind_of_ok (hrun.trans hsecond)]
  | error fault h => rw [run_bind_of_error hsecond, run_bind_of_error (hrun.trans hsecond)]

@[simp] theorem run_get : (get : AdderCall F (ZstGraphSession F)).run g = .ok g g := rfl

@[simp] theorem run_modify (f : ZstGraphSession F → ZstGraphSession F) :
    (modify f : AdderCall F PUnit).run g = .ok () (f g) := rfl

@[simp] theorem run_ofExcept_ok (a : α) :
    (MonadExcept.ofExcept (.ok a : Except Fault α) : AdderCall F α).run g = .ok a g := rfl

@[simp] theorem run_ofExcept_error (fault : Fault) :
    (MonadExcept.ofExcept (.error fault : Except Fault α) : AdderCall F α).run g =
      .error fault g := rfl

theorem leaves_of_ok {call : AdderCall F α} {x : α} (hrun : call.run g = .ok x h) :
    leaves call g = h := by
  unfold leaves
  rw [hrun]

theorem leaves_of_error {call : AdderCall F α} {fault : Fault}
    (hrun : call.run g = .error fault h) :
    leaves call g = h := by
  unfold leaves
  rw [hrun]

/-- The call ends exactly if the result is a session, which is the one that it leaves. -/
def LeavesResult (g : ZstGraphSession F) (call : AdderCall F Unit)
    (result : Except Fault (ZstGraphSession F)) : Prop :=
  ∀ g', call.run g = .ok () g' ↔ result = .ok g'

theorem agrees_of_run {call : AdderCall F Unit} (hrun : call.run g = .ok () h) :
    LeavesResult g call (.ok h) := by
  intro g'
  rw [hrun]
  exact ⟨fun heq => by cases heq; rfl, fun heq => by cases heq; rfl⟩

theorem agrees_of_throw {call : AdderCall F Unit} {fault fault' : Fault}
    (hrun : call.run g = .error fault h) : LeavesResult g call (.error fault') := by
  intro g'
  rw [hrun]
  exact ⟨fun heq => (by cases heq), fun heq => (by cases heq)⟩

theorem LeavesResult.after {next : α → AdderCall F Unit} {a : α}
    {result : Except Fault (ZstGraphSession F)}
    (hfirst : first.run g = .ok a h) (hnext : LeavesResult h (next a) result) :
    LeavesResult g (first >>= next) result := by
  intro g'
  rw [run_bind_of_ok hfirst]
  exact hnext g'

theorem LeavesResult.bind {first : AdderCall F Unit} {next : Unit → AdderCall F Unit}
    {result : Except Fault (ZstGraphSession F)}
    {f : ZstGraphSession F → Except Fault (ZstGraphSession F)}
    (hfirst : LeavesResult g first result)
    (hnext : ∀ h, LeavesResult h (next ()) (f h)) :
    LeavesResult g (first >>= next) (result >>= f) := by
  intro g'
  cases hrun : first.run g with
  | ok a h =>
    rw [run_bind_of_ok hrun, hnext h, (hfirst h).mp hrun]
    rfl
  | error fault h =>
    rw [run_bind_of_error hrun]
    refine ⟨fun heq => (by cases heq), fun hresult => ?_⟩
    obtain ⟨u, hu, -⟩ := bind_ok.mp hresult
    rw [(hfirst u).mpr hu] at hrun
    cases hrun

theorem LeavesResult.ite {p : Prop} [Decidable p] {first second : AdderCall F Unit}
    {result result' : Except Fault (ZstGraphSession F)} (hfirst : p → LeavesResult g first result)
    (hsecond : ¬ p → LeavesResult g second result') :
    LeavesResult g (if p then first else second) (if p then result else result') := by
  split
  · exact hfirst ‹_›
  · exact hsecond ‹_›

theorem LeavesResult.forM {call : α → AdderCall F Unit}
    {f : ZstGraphSession F → α → Except Fault (ZstGraphSession F)}
    (hcall : ∀ g x, LeavesResult g (call x) (f g x)) (items : List α) (g : ZstGraphSession F) :
    LeavesResult g (items.forM call) (items.foldlM f g) := by
  induction items generalizing g with
  | nil => exact agrees_of_run rfl
  | cons x items ih => exact (hcall g x).bind ih

theorem attempt_agrees (f : ZstGraphSession F → Except Fault (ZstGraphSession F))
    (g : ZstGraphSession F) : LeavesResult g (attempt f) (f g) := by
  refine LeavesResult.after run_get ?_
  cases f g with
  | error fault => exact agrees_of_throw (run_bind_of_error (run_ofExcept_error fault))
  | ok h => exact LeavesResult.after (run_ofExcept_ok h) (agrees_of_run rfl)

end Calls

theorem fireCable_agrees (plug : EntityId) (g : ZstGraphSession F) (input : EntityId) :
    LeavesResult g (fireCable plug input) (ZstGraphSession.fireCable plug g input) := by
  refine LeavesResult.after run_get ?_
  unfold ZstGraphSession.fireCable
  cases g.hierarchy.deref (some input) with
  | error fault => exact agrees_of_throw (run_bind_of_error (run_ofExcept_error fault))
  | ok d =>
    refine LeavesResult.after (run_ofExcept_ok d)
        (LeavesResult.ite (fun _ => ?_) fun _ => agrees_of_run rfl)
    exact LeavesResult.after (run_modify _) (attempt_agrees _ _)

/-- `fire` as a call ends as `ZstGraphSession.fire` does. -/
theorem fire_agrees (plug : EntityId) (g : ZstGraphSession F) :
    LeavesResult g (fire conv plug) (ZstGraphSession.fire conv g plug) := by
  refine LeavesResult.after run_get ?_
  unfold ZstGraphSession.fire
  cases hfire : (g.hierarchy.entities plug).canFire with
  | false =>
    simp only [Bool.not_false, if_true, Bool.false_eq_true, if_false]
    exact agrees_of_run rfl
  | true =>
    simp only [Bool.not_true, Bool.false_eq_true, if_true, if_false]
    refine LeavesResult.bind (LeavesResult.forM (fireCable_agrees plug) _ g) fun h => ?_
    refine LeavesResult.ite (fun _ => LeavesResult.after run_get ?_) fun _ => agrees_of_run rfl
    cases (h.rawValue plug).serialize conv with
    | error fault => exact agrees_of_throw (run_bind_of_error (run_ofExcept_error fault))
    | ok value =>
      exact LeavesResult.after (run_ofExcept_ok value)
          (LeavesResult.after (run_modify _) (agrees_of_run rfl))

/-! ## Sums -/

/-- The floats that `float_at` finds. -/
def floats (values : List (ZstValueVariant F)) : List F :=
  values.filterMap fun x => (x.toFloat conv).toOption

/-- Every element has a float. -/
def Numeric (values : List (ZstValueVariant F)) : Prop :=
  ∀ x ∈ values, ∃ f, x.toFloat conv = .ok f

/-- The sums of two lists, the rest of the longer one behind them. -/
def sums : List F → List F → List F
  | x :: xs, y :: ys => plus x y :: sums xs ys
  | [], ys => ys
  | xs, [] => xs

/-- The elements that `compute` appends for what the two inputs hold. -/
def total (augend addend : List (ZstValueVariant F)) : List (ZstValueVariant F) :=
  (sums plus (floats conv augend) (floats conv addend)).map .float

section Sums

variable {conv} {values : List (ZstValueVariant F)}

theorem numeric_floats (fs : List F) : Numeric conv (fs.map .float) := by
  intro x hx
  obtain ⟨f, -, rfl⟩ := List.mem_map.mp hx
  exact ⟨f, rfl⟩

theorem Numeric.append {more : List (ZstValueVariant F)} (hvalues : Numeric conv values)
    (hmore : Numeric conv more) : Numeric conv (values ++ more) :=
  fun x hx => (List.mem_append.mp hx).elim (hvalues x) (hmore x)

theorem numeric_total (augend addend : List (ZstValueVariant F)) :
    Numeric conv (total conv plus augend addend) :=
  numeric_floats _

theorem Numeric.map_floats (hvalues : Numeric conv values) :
    values.map (ZstValueVariant.toFloat conv) = (floats conv values).map .ok := by
  induction values with
  | nil => rfl
  | cons x values ih =>
    obtain ⟨f, hf⟩ := hvalues x List.mem_cons_self
    have hrest := ih fun y hy => hvalues y (List.mem_cons_of_mem x hy)
    unfold floats at hrest ⊢
    simp [hf, hrest, Except.toOption]

end Sums

/-! ## One call of compute -/

/-- What the rounds of `compute` find, a float or an exception each. -/
def entries : List (ZstValueVariant F) → List (ZstValueVariant F) → List (Except Fault F)
  | x :: xs, y :: ys => (do return plus (← x.toFloat conv) (← y.toFloat conv)) :: entries xs ys
  | [], ys => ys.map (ZstValueVariant.toFloat conv)
  | xs, [] => xs.map (ZstValueVariant.toFloat conv)

/-- The floats before the first exception. -/
def untilThrow : List (Except Fault F) → List F
  | .ok f :: rest => f :: untilThrow rest
  | _ => []

/-- What a round does with what it found. -/
def appendEntry (plug : EntityId) (entry : Except Fault F) : AdderCall F Unit := do
  appendFloat plug (← MonadExcept.ofExcept entry)

/-- The session with some elements behind those of a plug. -/
def appended (g : ZstGraphSession F) (plug : EntityId) (values : List (ZstValueVariant F)) :
    ZstGraphSession F :=
  g.setValue plug { g.rawValue plug with values := (g.rawValue plug).values ++ values }

section Entries

variable {conv} {plus} {xs ys : List (ZstValueVariant F)} {i : Nat}

theorem length_entries (xs ys : List (ZstValueVariant F)) :
    (entries conv plus xs ys).length = max xs.length ys.length := by
  induction xs generalizing ys with
  | nil => cases ys <;> simp [entries]
  | cons x xs ih =>
    cases ys with
    | nil => simp [entries]
    | cons y ys => simp [entries, ih]

theorem entries_both {x y : ZstValueVariant F} (hx : xs[i]? = some x) (hy : ys[i]? = some y) :
    (entries conv plus xs ys)[i]? =
      some (do return plus (← x.toFloat conv) (← y.toFloat conv)) := by
  induction xs generalizing ys i with
  | nil => simp at hx
  | cons u xs ih =>
    cases ys with
    | nil => simp at hy
    | cons w ys =>
      cases i with
      | zero => simp_all [entries]
      | succ i => exact ih hx hy

theorem entries_left (hi : ys.length ≤ i) :
    (entries conv plus xs ys)[i]? = xs[i]?.map (ZstValueVariant.toFloat conv) := by
  induction xs generalizing ys i with
  | nil =>
    cases ys with
    | nil => simp [entries]
    | cons w ys => simp_all [entries]
  | cons u xs ih =>
    cases ys with
    | nil => exact List.getElem?_map
    | cons w ys =>
      cases i with
      | zero => simp at hi
      | succ i => exact ih (Nat.le_of_succ_le_succ hi)

theorem entries_right (hi : xs.length ≤ i) :
    (entries conv plus xs ys)[i]? = ys[i]?.map (ZstValueVariant.toFloat conv) := by
  induction xs generalizing ys i with
  | nil =>
    cases ys with
    | nil => simp [entries]
    | cons w ys => exact List.getElem?_map
  | cons u xs ih =>
    cases ys with
    | nil => simp_all [entries]
    | cons w ys =>
      cases i with
      | zero => simp at hi
      | succ i => exact ih (Nat.le_of_succ_le_succ hi)

theorem floats_cons {x : ZstValueVariant F} {f : F} (hf : x.toFloat conv = .ok f) :
    floats conv (x :: xs) = f :: floats conv xs := by
  unfold floats
  simp [hf, Except.toOption]

/-- Where every element has a float, the rounds find the sums. -/
theorem Numeric.entries (hxs : Numeric conv xs) (hys : Numeric conv ys) :
    entries conv plus xs ys = (sums plus (floats conv xs) (floats conv ys)).map .ok := by
  induction xs generalizing ys with
  | nil =>
    have hfound : Adders.entries conv plus [] ys = ys.map (ZstValueVariant.toFloat conv) := by
      simp [Adders.entries]
    have hsums : sums plus (floats conv []) (floats conv ys) = floats conv ys := by
      cases floats conv ys <;> rfl
    rw [hfound, hsums, hys.map_floats]
  | cons x xs ih =>
    obtain ⟨f, hf⟩ := hxs x List.mem_cons_self
    cases ys with
    | nil =>
      refine hxs.map_floats.trans ?_
      rw [floats_cons hf]
      rfl
    | cons y ys =>
      obtain ⟨u, hu⟩ := hys y List.mem_cons_self
      have hrest := ih (fun z hz => hxs z (List.mem_cons_of_mem x hz))
        fun z hz => hys z (List.mem_cons_of_mem y hz)
      rw [floats_cons hf, floats_cons hu, Adders.entries, hf, hu, hrest]
      rfl

end Entries

section Loop

variable {conv} {plus} {a : Adder} {g h : ZstGraphSession F}

theorem appended_of_ne {plug e : EntityId} (hne : e ≠ plug) (values : List (ZstValueVariant F)) :
    (appended g plug values).rawValue e = g.rawValue e := by
  simp [appended, setValue, hne]

theorem appended_appended (plug : EntityId) (first second : List (ZstValueVariant F)) :
    appended (appended g plug first) plug second = appended g plug (first ++ second) := by
  simp [appended, setValue, List.append_assoc]

theorem appended_nil (plug : EntityId) : appended g plug [] = g := by
  simp [appended, setValue]

theorem floatAt_ok {plug : EntityId} {i : Nat} {x : ZstValueVariant F}
    (hx : (g.rawValue plug).values[i]? = some x) :
    (floatAt conv plug i).run g =
    (MonadExcept.ofExcept (x.toFloat conv) : AdderCall F F).run g := by
  have hfloat : (g.rawValue plug).floatAt conv i = x.toFloat conv := by
    unfold ZstValue.floatAt
    rw [ZstValue.elementAt_eq_ok.mpr hx]
    rfl
  unfold floatAt
  rw [run_bind_of_ok run_get, hfloat]

/-- A round appends what it finds. -/
theorem addAt_entry {i : Nat} {entry : Except Fault F}
    (hentry : (entries conv plus (g.rawValue a.augend).values (g.rawValue a.addend).values)[i]? =
      some entry) : (addAt conv plus a i).run g = (appendEntry a.sum entry).run g := by
  unfold addAt
  rw [run_bind_of_ok run_get]
  unfold ZstValue.size
  by_cases hx : i < (g.rawValue a.augend).values.length
  · have hx' := List.getElem?_eq_getElem hx
    by_cases hy : i < (g.rawValue a.addend).values.length
    · have hy' := List.getElem?_eq_getElem hy
      obtain rfl := Option.some.inj ((entries_both hx' hy').symm.trans hentry)
      rw [if_pos ⟨hx, hy⟩]
      unfold appendEntry
      cases hfirst : ((g.rawValue a.augend).values[i]).toFloat conv with
      | error fault =>
        have hrun : (floatAt conv a.augend i).run g = .error fault g :=
          (floatAt_ok hx').trans (by rw [hfirst]; rfl)
        rw [run_bind_of_error hrun]
        rfl
      | ok u =>
        have hrun : (floatAt conv a.augend i).run g = .ok u g :=
          (floatAt_ok hx').trans (by rw [hfirst]; rfl)
        rw [run_bind_of_ok hrun]
        cases hsecond : ((g.rawValue a.addend).values[i]).toFloat conv with
        | error fault =>
          have hrun : (floatAt conv a.addend i).run g = .error fault g :=
            (floatAt_ok hy').trans (by rw [hsecond]; rfl)
          rw [run_bind_of_error hrun]
          rfl
        | ok w =>
          have hrun : (floatAt conv a.addend i).run g = .ok w g :=
            (floatAt_ok hy').trans (by rw [hsecond]; rfl)
          rw [run_bind_of_ok hrun]
          rfl
    · rw [entries_left (Nat.not_lt.mp hy), hx'] at hentry
      obtain rfl := Option.some.inj hentry
      rw [if_neg fun h => hy h.2, if_pos hx]
      exact bind_congr_run (floatAt_ok hx')
  · rw [entries_right (Nat.not_lt.mp hx)] at hentry
    obtain ⟨y, hy', rfl⟩ := Option.map_eq_some_iff.mp hentry
    have hy := (List.getElem?_eq_some_iff.mp hy').1
    rw [if_neg fun h => hx h.1, if_neg hx, if_pos hy]
    exact bind_congr_run (floatAt_ok hy')

/-- The rounds append the floats before the first exception. -/
theorem forM_appendEntry (plug : EntityId) (found : List (Except Fault F))
    (g : ZstGraphSession F) :
    leaves (found.forM (appendEntry plug)) g =
      appended g plug ((untilThrow found).map .float) := by
  induction found generalizing g with
  | nil => exact (appended_nil plug).symm
  | cons entry found ih =>
    cases entry with
    | error fault => exact (appended_nil plug).symm
    | ok f =>
      refine (ih (appended g plug [.float f])).trans ?_
      rw [appended_appended]
      rfl

theorem forM_appendEntry_floats (plug : EntityId) (fs : List F) (g : ZstGraphSession F) :
    ((fs.map .ok).forM (appendEntry plug)).run g = .ok () (appended g plug (fs.map .float)) := by
  induction fs generalizing g with
  | nil =>
    rw [List.map_nil, List.map_nil, appended_nil]
    rfl
  | cons f fs ih =>
    refine (ih (appended g plug [.float f])).trans ?_
    rw [appended_appended]
    rfl

/-- The loop of `compute` appends what it finds, round after round. -/
theorem loop_entries {n : Nat} (hn : n ≤ (entries conv plus (g.rawValue a.augend).values
      (g.rawValue a.addend).values).length) :
    ((List.range n).forM (addAt conv plus a)).run g =
      (((entries conv plus (g.rawValue a.augend).values
        (g.rawValue a.addend).values).take n).forM (appendEntry a.sum)).run g := by
  induction n with
  | zero => rfl
  | succ n ih =>
    have hbefore := ih (by omega)
    generalize hfound : entries conv plus (g.rawValue a.augend).values
      (g.rawValue a.addend).values = found at hn hbefore ⊢
    have hrange : (List.range n ++ [n]).forM (addAt conv plus a) =
        ((List.range n).forM (addAt conv plus a) >>= fun _ => [n].forM (addAt conv plus a)) :=
      List.forM_append
    have htake : (found.take n ++ [found[n]]).forM (appendEntry a.sum) =
        ((found.take n).forM (appendEntry a.sum) >>= fun _ =>
          [found[n]].forM (appendEntry a.sum)) := List.forM_append
    rw [List.range_succ, hrange, List.take_succ_eq_append_getElem hn, htake,
      bind_congr_run hbefore]
    cases hrun : ((found.take n).forM (appendEntry a.sum)).run g with
    | error fault h => rw [run_bind_of_error hrun, run_bind_of_error hrun]
    | ok _ h =>
      rw [run_bind_of_ok hrun, run_bind_of_ok hrun]
      have hh : h = appended g a.sum ((untilThrow (found.take n)).map .float) :=
        (leaves_of_ok hrun).symm.trans (forM_appendEntry a.sum _ g)
      have hround : (addAt conv plus a n).run h = (appendEntry a.sum found[n]).run h := by
        refine addAt_entry ?_
        rw [hh, appended_of_ne a.sum_ne_augend.symm, appended_of_ne a.sum_ne_addend.symm, hfound]
        exact List.getElem?_eq_getElem hn
      exact bind_congr_run hround

/-- `compute` appends what its rounds find and fires. -/
theorem compute_run (a : Adder) (g : ZstGraphSession F) :
    (compute conv plus a).run g =
      ((entries conv plus (g.rawValue a.augend).values (g.rawValue a.addend).values).forM
        (appendEntry a.sum) >>= fun _ => fire conv a.sum).run g := by
  have hsize : max (g.rawValue a.addend).size (g.rawValue a.augend).size =
      (entries conv plus (g.rawValue a.augend).values (g.rawValue a.addend).values).length := by
    rw [length_entries, max_comm]
    rfl
  have hloop := @loop_entries F conv plus a g _ le_rfl
  rw [List.take_length] at hloop
  change ((List.range (max (g.rawValue a.addend).size (g.rawValue a.augend).size)).forM
    (addAt conv plus a) >>= fun _ => fire conv a.sum).run g = _
  rw [hsize]
  exact bind_congr_run hloop

end Loop

/-! ## Firing the sum -/

/-- The inputs that `fire` serves itself. -/
def localTo (s : ZstSession) (plug : EntityId) : List EntityId :=
  (inputs s plug).filter fun e =>
    (s.hierarchy.entities e).uri.first = (s.hierarchy.entities plug).uri.first

/-- The session after `fire`, which publishes the buffer. -/
def fired (g : ZstGraphSession F) (plug : EntityId) (buffer : PlugValue F) : ZstGraphSession F :=
  ({ served g plug (localTo g.session plug) with
      graphOut := g.graphOut ++ [⟨(g.hierarchy.entities plug).uri, some buffer⟩] } :
    ZstGraphSession F).setValue plug (g.rawValue plug).clear

/-- The session after the loop of `compute`. -/
def looped (a : Adder) (g : ZstGraphSession F) : ZstGraphSession F :=
  appended g a.sum (total conv plus (g.rawValue a.augend).values (g.rawValue a.addend).values)

/-- The elements that the sum holds after the loop. -/
def outgoing (a : Adder) (g : ZstGraphSession F) : List (ZstValueVariant F) :=
  (g.rawValue a.sum).values ++
    total conv plus (g.rawValue a.augend).values (g.rawValue a.addend).values

/-- The session after `compute`. -/
def added (a : Adder) (g : ZstGraphSession F) : ZstGraphSession F :=
  if (g.hierarchy.entities a.sum).canFire then
    fired (looped conv plus a g) a.sum
      (.floatList (floats conv ((looped conv plus a g).rawValue a.sum).values))
  else looped conv plus a g

/-- The adders of a session: their sums are output plugs and the other plugs are
inputs below them, and the inputs that a sum serves are real. -/
structure Patched (s : ZstSession) (adders : EntityId → Option Adder) : Prop where
  wired : InputsFound s
  output : ∀ c a, adders c = some a → (s.hierarchy.entities a.sum).isOutputPlug = true
  input : ∀ c a, adders c = some a → (s.hierarchy.entities a.augend).isInputPlug = true ∧
    (s.hierarchy.entities a.addend).isInputPlug = true
  owned : ∀ c a, adders c = some a → parentComponent s.hierarchy a.augend = some c ∧
    parentComponent s.hierarchy a.addend = some c
  real : ∀ c a, adders c = some a → ∀ e ∈ localTo s a.sum,
    (s.hierarchy.entities e).isProxy = false

/-- The plugs of the adders hold numbers, and the sums send floats. -/
structure NumbersReady (g : ZstGraphSession F) (adders : EntityId → Option Adder) : Prop where
  augend : ∀ c a, adders c = some a → Numeric conv (g.rawValue a.augend).values
  addend : ∀ c a, adders c = some a → Numeric conv (g.rawValue a.addend).values
  sum : ∀ c a, adders c = some a → Numeric conv (g.rawValue a.sum).values
  floatList : ∀ c a, adders c = some a → (g.rawValue a.sum).defaultType = .floatList

section Firing

variable {conv} {plus} {adders : EntityId → Option Adder} {g h : ZstGraphSession F}
  {s : ZstSession} {c : EntityId} {a : Adder}

theorem Numeric.serialize {v : ZstValue F} (hv : Numeric conv v.values)
    (htype : v.defaultType = .floatList) :
    v.serialize conv = .ok (some (.floatList (floats conv v.values))) := by
  have hmap : v.values.mapM (ZstValueVariant.toFloat conv) = .ok (floats conv v.values) := by
    have hfloats := hv.map_floats
    generalize floats conv v.values = fs at hfloats ⊢
    generalize v.values = xs at hfloats
    induction xs generalizing fs with
    | nil =>
      obtain rfl : fs = [] := by simpa using hfloats.symm
      rfl
    | cons x xs ih =>
      cases fs with
      | nil => simp at hfloats
      | cons f fs =>
        obtain ⟨hx, hxs⟩ := List.cons.inj hfloats
        rw [List.mapM_cons, hx, ih fs hxs]
        rfl
  unfold ZstValue.serialize
  simp only [htype, hmap]
  rfl

theorem plugReceivedValue_eq {e p : EntityId} (hparent : parentComponent g.hierarchy e = some p) :
    plugReceivedValue g e = .ok { g with
      computeEvents := g.computeEvents ++ [⟨p, (g.hierarchy.entities e).uri⟩] } := by
  unfold plugReceivedValue
  rw [hparent]

theorem fireCable_ok_of_wired (hs : InputsFound s) (hsession : g.session = s)
    {plug input : EntityId}
    (hinput : input ∈ inputs s plug)
    (hreal : input ∈ localTo s plug → (s.hierarchy.entities input).isProxy = false) :
    ∃ h, ZstGraphSession.fireCable plug g input = .ok h ∧ h.session = s := by
  subst hsession
  obtain ⟨d, hd, rfl⟩ := mem_inputs hinput
  have hderef : g.hierarchy.deref (some (g.session.cableObjects d).input) =
      .ok (g.session.cableObjects d).input := by
    unfold deref
    exact if_pos (hs.found d hd).1
  unfold ZstGraphSession.fireCable
  rw [hderef]
  by_cases hfirst : (g.hierarchy.entities (g.session.cableObjects d).input).uri.first =
      (g.hierarchy.entities plug).uri.first
  · have hlocal : (g.session.cableObjects d).input ∈ localTo g.session plug :=
      List.mem_filter.mpr ⟨hinput, decide_eq_true hfirst⟩
    obtain ⟨p, hparent, -⟩ := hs.parent d hd (hreal hlocal)
    exact ⟨_, (if_pos hfirst).trans (plugReceivedValue_eq hparent), rfl⟩
  · exact ⟨g, if_neg hfirst, rfl⟩

theorem foldlM_fireCable_ok (hs : InputsFound s) {plug : EntityId} (bundle : List EntityId)
    (hbundle : ∀ e ∈ bundle, e ∈ inputs s plug)
    (hreal : ∀ e ∈ localTo s plug, (s.hierarchy.entities e).isProxy = false)
    (hsession : g.session = s) :
    ∃ h, bundle.foldlM (ZstGraphSession.fireCable plug) g = .ok h ∧ h.session = s := by
  induction bundle generalizing g with
  | nil => exact ⟨g, rfl, hsession⟩
  | cons e bundle ih =>
    obtain ⟨k, hfirst, hk⟩ :=
      fireCable_ok_of_wired hs hsession (hbundle e List.mem_cons_self) (hreal e)
    obtain ⟨h, hrest, hh⟩ := ih (fun d hd => hbundle d (List.mem_cons_of_mem e hd)) hk
    exact ⟨h, run_cons_ok.mpr ⟨k, hfirst, hrest⟩, hh⟩

/-- The plug of a sum is not at the other end of its own cables. -/
theorem Patched.not_input (hs : Patched s adders) (ha : adders c = some a) (plug : EntityId) :
    a.sum ∉ inputs s plug := by
  intro hmem
  obtain ⟨d, hd, hinput⟩ := mem_inputs hmem
  have hin := hs.wired.input d hd
  have hout := hs.output c a ha
  rw [hinput] at hin
  unfold Entity.isInputPlug at hin
  unfold Entity.isOutputPlug at hout
  simp_all

theorem fire_eq (hs : Patched g.session adders) (ha : adders c = some a)
    (hfire : (g.hierarchy.entities a.sum).canFire = true) {buffer : PlugValue F}
    (hserialize : (g.rawValue a.sum).serialize conv = .ok (some buffer)) :
    ZstGraphSession.fire conv g a.sum = .ok (fired g a.sum buffer) := by
  have hplug := hs.not_input ha a.sum
  obtain ⟨k, hfold, -⟩ := foldlM_fireCable_ok hs.wired (inputs g.session a.sum)
    (fun _ he => he) (hs.real c a ha) rfl
  have hk := foldlM_fireCable _ hplug hfold
  have hvalue : k.rawValue a.sum = g.rawValue a.sum := by
    rw [hk]
    exact if_neg fun hmem => hplug (List.mem_filter.mp hmem).1
  unfold ZstGraphSession.fire
  simp only [hfire, Bool.not_true, Bool.false_eq_true, if_false, bind, Except.bind, hfold,
    List.length_filter_le, if_true, hvalue, hserialize, pure, Except.pure]
  rw [hk]
  refine congrArg Except.ok ?_
  unfold fired
  congr 1

end Firing

section Computing

variable {conv} {plus} {adders : EntityId → Option Adder} {g : ZstGraphSession F} {c : EntityId}
  {a : Adder}

theorem looped_sum (a : Adder) (g : ZstGraphSession F) :
    (looped conv plus a g).rawValue a.sum = { g.rawValue a.sum with
      values := outgoing conv plus a g } :=
  Function.update_self ..

/-- On numbers, `compute` throws nothing. -/
theorem onCompute_eq (hs : Patched g.session adders) (hg : NumbersReady conv g adders)
    (ha : adders c = some a) : onCompute conv plus a g = .ok (added conv plus a g) := by
  have hloop : ((entries conv plus (g.rawValue a.augend).values
      (g.rawValue a.addend).values).forM (appendEntry a.sum)).run g =
        .ok () (looped conv plus a g) := by
    rw [(hg.augend c a ha).entries (hg.addend c a ha)]
    exact forM_appendEntry_floats a.sum _ g
  have hfire : (fire conv a.sum).run (looped conv plus a g) = .ok () (added conv plus a g) := by
    rw [fire_agrees]
    unfold added
    cases hcan : (g.hierarchy.entities a.sum).canFire with
    | false =>
      have hcan' : ((looped conv plus a g).hierarchy.entities a.sum).canFire = false := hcan
      unfold ZstGraphSession.fire
      rw [hcan']
      rfl
    | true =>
      refine fire_eq (g := looped conv plus a g) hs ha hcan (Numeric.serialize ?_ ?_)
      · rw [looped_sum]
        exact (hg.sum c a ha).append (numeric_total plus _ _)
      · rw [looped_sum]
        exact hg.floatList c a ha
  have hrun : (compute conv plus a).run g = .ok () (added conv plus a g) := by
    rw [compute_run, run_bind_of_ok hloop, hfire]
  unfold onCompute
  rw [hrun]

end Computing

/-! ## What compute leaves behind -/

/-- The inputs that the sum of an adder serves, if it may fire. -/
def fed (s : ZstSession) (a : Adder) : List EntityId :=
  if (s.hierarchy.entities a.sum).canFire then localTo s a.sum else []

section Added

variable {conv} {plus} {a : Adder} {g : ZstGraphSession F}

@[simp] theorem added_session (a : Adder) (g : ZstGraphSession F) :
    (added conv plus a g).session = g.session := by
  unfold added
  split <;> rfl

theorem added_computeEvents (a : Adder) (g : ZstGraphSession F) :
    (added conv plus a g).computeEvents =
      g.computeEvents ++ (fed g.session a).map (computeEvent g.session) := by
  by_cases hcan : (g.hierarchy.entities a.sum).canFire = true
  · rw [show fed g.session a = localTo g.session a.sum from if_pos hcan]
    unfold added
    rw [if_pos hcan]
    rfl
  · rw [show fed g.session a = [] from if_neg hcan]
    unfold added
    rw [if_neg hcan]
    exact (List.append_nil _).symm

/-- The inputs that are served hold what was sent, and the others what they held. -/
theorem added_rawValue {e : EntityId} (hne : e ≠ a.sum) :
    (added conv plus a g).rawValue e =
      if e ∈ fed g.session a then { g.rawValue e with values := outgoing conv plus a g }
      else g.rawValue e := by
  have hlooped : (looped conv plus a g).rawValue e = g.rawValue e := appended_of_ne hne _
  by_cases hcan : (g.hierarchy.entities a.sum).canFire = true
  · have hfired : (fired (looped conv plus a g) a.sum
        (.floatList (floats conv ((looped conv plus a g).rawValue a.sum).values))).rawValue e =
        if e ∈ localTo g.session a.sum then
          ((looped conv plus a g).rawValue e).copy ((looped conv plus a g).rawValue a.sum)
        else (looped conv plus a g).rawValue e := Function.update_of_ne hne ..
    rw [show fed g.session a = localTo g.session a.sum from if_pos hcan]
    unfold added
    rw [if_pos hcan, hfired, hlooped, looped_sum]
    rfl
  · rw [show fed g.session a = [] from if_neg hcan, if_neg List.not_mem_nil]
    unfold added
    rw [if_neg hcan, hlooped]

theorem added_sum (a : Adder) (g : ZstGraphSession F) :
    (added conv plus a g).rawValue a.sum = { g.rawValue a.sum with
      values := if (g.hierarchy.entities a.sum).canFire then [] else outgoing conv plus a g } := by
  unfold added
  split
  · have hfired : (fired (looped conv plus a g) a.sum
        (.floatList (floats conv ((looped conv plus a g).rawValue a.sum).values))).rawValue a.sum =
        ((looped conv plus a g).rawValue a.sum).clear := Function.update_self ..
    rw [hfired, looped_sum]
    rfl
  · exact looped_sum a g

end Added

end Showtime.Adders
