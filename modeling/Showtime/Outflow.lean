import Showtime.Feedback
/-!
# What an adder publishes

A client with adders that receives messages, runs compute events and changes
its session in any order. What the sum of an adder has published, with what it
still holds behind it, is all that its calls of `compute` have made, whatever
they throw and whenever the sum may not fire.
-/

namespace Showtime.Adders

open ZstHierarchy ZstGraphSession Receiving Firing Library

variable {F : Type} (conv : Conversions F) (plus : F → F → F)

/-- The floats of a message. -/
def payload : Option (PlugValue F) → List F
  | some (.floatList val) => val
  | _ => []

/-- The floats that were sent from a path. -/
def published (path : ZstURI) (messages : List (GraphMessage F)) : List F :=
  messages.flatMap fun msg => if msg.sender = path then payload msg.value else []

/-- The client receives a message, runs a compute event, or has another session
after whatever else it has done. -/
inductive AdderEvent (F : Type)
  | receive (msg : GraphMessage F)
  | compute
  | session (s : ZstSession)

def clientStep (adders : EntityId → Option Adder) (g : ZstGraphSession F) :
    AdderEvent F → Except Fault (ZstGraphSession F)
  | .receive msg => g.receive msg
  | .compute => processCompute conv plus adders g
  | .session s => .ok { g with session := s }

/-- The component whose `compute` the next compute event calls. -/
def due (g : ZstGraphSession F) : Option EntityId :=
  g.computeEvents.head?.bind (waiting g.session)

/-- What an event makes the component append to its sum. -/
def contribution (c : EntityId) (a : Adder) (g : ZstGraphSession F) : AdderEvent F → List F
  | .compute =>
    if due g = some c then
      untilThrow (entries conv plus (g.rawValue a.augend).values (g.rawValue a.addend).values)
    else []
  | _ => []

/-- What the events of a run make it append, in their order. -/
def contributed (adders : EntityId → Option Adder) (c : EntityId) (a : Adder) :
    ZstGraphSession F → List (AdderEvent F) → List F
  | _, [] => []
  | g, event :: events => contribution conv plus c a g event ++
    match clientStep conv plus adders g event with
    | .ok g => contributed adders c a g events
    | .error _ => []

/-- The sum is a plug of this client at the path. No cable ends there, and no
other adder has its plug or its path. -/
structure SoleSum (adders : EntityId → Option Adder) (c : EntityId) (a : Adder) (path : ZstURI)
    (s : ZstSession) : Prop where
  uri : (s.hierarchy.entities a.sum).uri = path
  real : (s.hierarchy.entities a.sum).isProxy = false
  input : ∀ k ∈ s.cables, (s.cableObjects k).input ≠ a.sum
  others : ∀ d b, adders d = some b → d ≠ c →
    b.sum ≠ a.sum ∧ (s.hierarchy.entities b.sum).uri ≠ path

/-- The sum holds numbers, and they follow what was published. -/
structure Streams (plug : EntityId) (path : ZstURI) (values : List F) (g : ZstGraphSession F) :
    Prop where
  numeric : Numeric conv (g.rawValue plug).values
  floatList : (g.rawValue plug).defaultType = .floatList
  total : published path g.graphOut ++ floats conv (g.rawValue plug).values = values

/-! ## Calls that leave a plug alone -/

/-- Nothing was published from the path, and the plug holds what it held. -/
structure PlugUnchanged (plug : EntityId) (path : ZstURI) (g h : ZstGraphSession F) : Prop where
  session : h.session = g.session
  value : h.rawValue plug = g.rawValue plug
  published : published path h.graphOut = published path g.graphOut

section Leaving

variable {conv} {α β : Type} {plug : EntityId} {path : ZstURI} {g h k : ZstGraphSession F}

theorem published_append (path : ZstURI) (first second : List (GraphMessage F)) :
    published path (first ++ second) = published path first ++ published path second :=
  List.flatMap_append

theorem PlugUnchanged.refl (g : ZstGraphSession F) : PlugUnchanged plug path g g :=
  ⟨rfl, rfl, rfl⟩

theorem PlugUnchanged.trans (hgh : PlugUnchanged plug path g h)
    (hhk : PlugUnchanged plug path h k) :
    PlugUnchanged plug path g k :=
  ⟨hhk.session.trans hgh.session, hhk.value.trans hgh.value, hhk.published.trans hgh.published⟩

theorem PlugUnchanged.setValue {e : EntityId} (hne : e ≠ plug) (value : ZstValue F) :
    PlugUnchanged plug path g (g.setValue e value) :=
  ⟨rfl, Function.update_of_ne hne.symm .., rfl⟩

theorem Streams.untouched {values : List F} (hg : Streams conv plug path values g)
    (hh : PlugUnchanged plug path g h) : Streams conv plug path values h := by
  obtain ⟨hnumeric, htype, htotal⟩ := hg
  refine ⟨?_, ?_, ?_⟩
  · rwa [hh.value]
  · rwa [hh.value]
  · rwa [hh.value, hh.published]

/-- What holds where a call throws and where the next one ends, holds in the end. -/
theorem leaves_bind {P : ZstGraphSession F → Prop} {first : AdderCall F α}
    {next : α → AdderCall F β}
    (hfirst : P (leaves first g))
    (hnext : ∀ x h, first.run g = .ok x h → P h → P (leaves (next x) h)) :
    P (leaves (first >>= next) g) := by
  cases hrun : first.run g with
  | error fault h =>
    rw [leaves_of_error (run_bind_of_error hrun), ← leaves_of_error hrun]
    exact hfirst
  | ok x h =>
    rw [leaves_of_ok hrun] at hfirst
    have hleaves : leaves (first >>= next) g = leaves (next x) h := by
      unfold leaves
      rw [run_bind_of_ok hrun]
    rw [hleaves]
    exact hnext x h hrun hfirst

theorem PlugUnchanged.bind {first : AdderCall F α} {next : α → AdderCall F β}
    (hfirst : PlugUnchanged plug path g (leaves first g))
    (hnext : ∀ x h, PlugUnchanged plug path g h → PlugUnchanged plug path h (leaves (next x) h)) :
    PlugUnchanged plug path g (leaves (first >>= next) g) :=
  leaves_bind hfirst fun x h _ hh => hh.trans (hnext x h hh)

theorem PlugUnchanged.forM {call : α → AdderCall F Unit} (items : List α)
    (hcall : ∀ x ∈ items, ∀ g, PlugUnchanged plug path g (leaves (call x) g))
    (g : ZstGraphSession F) : PlugUnchanged plug path g (leaves (items.forM call) g) := by
  induction items generalizing g with
  | nil => exact .refl g
  | cons x items ih =>
    refine PlugUnchanged.bind (hcall x List.mem_cons_self g) fun _ h _ => ?_
    exact ih (fun y hy => hcall y (List.mem_cons_of_mem x hy)) h

theorem leaves_get {P : ZstGraphSession F → Prop} {next : ZstGraphSession F → AdderCall F β}
    (hnext : P (leaves (next g) g)) : P (leaves (MonadState.get >>= next) g) :=
  hnext

theorem PlugUnchanged.modify {f : ZstGraphSession F → ZstGraphSession F}
    {next : PUnit → AdderCall F β}
    (hf : PlugUnchanged plug path g (f g))
    (hnext : PlugUnchanged plug path (f g) (leaves (next ()) (f g))) :
    PlugUnchanged plug path g (leaves (modify f >>= next) g) :=
  hf.trans hnext

theorem PlugUnchanged.ofExcept {result : Except Fault α} {next : α → AdderCall F β}
    (hnext : ∀ x, result = .ok x → PlugUnchanged plug path g (leaves (next x) g)) :
    PlugUnchanged plug path g (leaves (MonadExcept.ofExcept result >>= next) g) := by
  cases result with
  | error fault => exact .refl g
  | ok x => exact hnext x rfl

theorem plugReceivedValue_untouched {e : EntityId} (hreceived : plugReceivedValue g e = .ok h) :
    PlugUnchanged plug path g h := by
  unfold plugReceivedValue at hreceived
  split at hreceived
  · obtain rfl := Except.ok.inj hreceived
    exact ⟨rfl, rfl, rfl⟩
  · cases hreceived

/-- The plug keeps its value when another input is served. -/
theorem fireCable_untouched (b : EntityId) {input : EntityId} (hne : input ≠ plug)
    (g : ZstGraphSession F) : PlugUnchanged plug path g (leaves (fireCable b input) g) := by
  refine leaves_get (.ofExcept fun d hd => ?_)
  obtain rfl := Option.some.inj (deref_ok hd)
  split
  · refine .modify (.setValue hne _) (leaves_get (.ofExcept fun l hl => ?_))
    exact plugReceivedValue_untouched hl
  · exact .refl g

/-- A plug at another path publishes for itself only. -/
theorem fire_untouched {b : EntityId} (hne : b ≠ plug)
    (hinputs : plug ∉ inputs g.session b)
    (huri : (g.session.hierarchy.entities b).uri ≠ path) :
    PlugUnchanged plug path g (leaves (fire conv b) g) := by
  refine leaves_get ?_
  split
  · refine PlugUnchanged.bind (.forM _ (fun e he => ?_) g) fun _ h hserved => ?_
    · exact fireCable_untouched b fun heq => hinputs (heq ▸ he)
    · have hsender : (h.hierarchy.entities b).uri ≠ path := by
        unfold hierarchy
        rwa [hserved.session]
      dsimp only
      split
      · refine leaves_get (.ofExcept fun value _ => ?_)
        refine .modify ⟨rfl, rfl, ?_⟩ (PlugUnchanged.setValue hne _)
        have hnone : published path [(⟨(h.hierarchy.entities b).uri, value⟩ : GraphMessage F)] =
            [] := by
          unfold published
          simp [hsender]
        exact (published_append path h.graphOut _).trans (by rw [hnone, List.append_nil])
      · exact PlugUnchanged.setValue hne _
  · exact .refl g

end Leaving

/-! ## Steps of the client -/

/-- The session after the plug has published what it holds. -/
def flushed (g : ZstGraphSession F) (plug : EntityId) : ZstGraphSession F :=
  ({ g with graphOut := g.graphOut ++ [⟨(g.hierarchy.entities plug).uri,
      some (.floatList (floats conv (g.rawValue plug).values))⟩] } :
    ZstGraphSession F).setValue plug (g.rawValue plug).clear

section Steps

variable {conv} {plus} {adders : EntityId → Option Adder} {c : EntityId} {a : Adder}
  {plug : EntityId} {path : ZstURI} {values : List F} {g g' h : ZstGraphSession F} {s t : ZstSession}

theorem floats_append (first second : List (ZstValueVariant F)) :
    floats conv (first ++ second) = floats conv first ++ floats conv second :=
  List.filterMap_append

theorem floats_map (fs : List F) : floats conv (fs.map .float) = fs := by
  induction fs with
  | nil => rfl
  | cons f fs ih => exact congrArg (f :: ·) ih

theorem Streams.appended (hg : Streams conv plug path values g) (fs : List F) :
    Streams conv plug path (values ++ fs) (appended g plug (fs.map .float)) := by
  have hvalue : (Adders.appended g plug (fs.map .float)).rawValue plug =
      { g.rawValue plug with values := (g.rawValue plug).values ++ fs.map .float } :=
    Function.update_self ..
  refine ⟨?_, ?_, ?_⟩
  · rw [hvalue]
    exact hg.numeric.append (numeric_floats fs)
  · rw [hvalue]
    exact hg.floatList
  · rw [hvalue]
    dsimp only
    rw [floats_append, floats_map, ← List.append_assoc]
    exact congrArg (· ++ fs) hg.total

theorem Streams.flushed (hg : Streams conv plug path values g)
    (huri : (g.session.hierarchy.entities plug).uri = path) :
    Streams conv plug path values (flushed conv g plug) := by
  have hvalue : (Adders.flushed conv g plug).rawValue plug = (g.rawValue plug).clear :=
    Function.update_self ..
  have hsent : published path (Adders.flushed conv g plug).graphOut =
      published path g.graphOut ++ floats conv (g.rawValue plug).values := by
    refine (published_append path g.graphOut _).trans (congrArg (_ ++ ·) ?_)
    unfold published hierarchy
    simp [huri, payload]
  refine ⟨?_, ?_, ?_⟩
  · rw [hvalue]
    exact numeric_floats []
  · rw [hvalue]
    exact hg.floatList
  · rw [hvalue, hsent]
    exact (List.append_nil _).trans hg.total

/-- `fire` publishes what the plug holds, or leaves it there. -/
theorem fire_streams (hg : Streams conv plug path values g)
    (hinputs : plug ∉ inputs g.session plug)
    (huri : (g.session.hierarchy.entities plug).uri = path) :
    Streams conv plug path values (leaves (fire conv plug) g) ∧
      (leaves (fire conv plug) g).session = g.session := by
  unfold fire
  refine leaves_get (P := fun h => Streams conv plug path values h ∧ h.session = g.session) ?_
  split
  · refine leaves_bind (P := fun h => Streams conv plug path values h ∧ h.session = g.session)
      ?_ fun _ k _ hk => ?_
    · have hserved : PlugUnchanged plug path g
          (leaves ((inputs g.session plug).forM (fireCable plug)) g) := by
        refine .forM _ (fun e he => ?_) g
        exact fireCable_untouched plug fun heq => hinputs (heq ▸ he)
      exact ⟨hg.untouched hserved, hserved.session⟩
    · dsimp only
      rw [if_pos (List.length_filter_le ..)]
      change Streams conv plug path values (leaves
        (MonadExcept.ofExcept ((k.rawValue plug).serialize conv) >>= _) k) ∧
        (leaves (MonadExcept.ofExcept ((k.rawValue plug).serialize conv) >>= _) k).session =
          g.session
      rw [hk.1.numeric.serialize hk.1.floatList]
      exact ⟨hk.1.flushed (by rw [hk.2]; exact huri), hk.2⟩
  · exact ⟨hg, rfl⟩

theorem leaves_compute (a : Adder) (g : ZstGraphSession F) :
    leaves (compute conv plus a) g =
      leaves ((entries conv plus (g.rawValue a.augend).values (g.rawValue a.addend).values).forM
        (appendEntry a.sum) >>= fun _ => fire conv a.sum) g := by
  unfold leaves
  rw [compute_run]

/-- A call of `compute` adds the floats before its first exception. -/
theorem compute_streams (hg : Streams conv a.sum path values g)
    (halone : SoleSum adders c a path g.session) :
    Streams conv a.sum path (values ++ untilThrow (entries conv plus
      (g.rawValue a.augend).values (g.rawValue a.addend).values))
        (leaves (compute conv plus a) g) ∧
      (leaves (compute conv plus a) g).session = g.session := by
  rw [leaves_compute]
  generalize entries conv plus (g.rawValue a.augend).values (g.rawValue a.addend).values = found
  refine leaves_bind (P := fun h => Streams conv a.sum path (values ++ untilThrow found) h ∧
    h.session = g.session) ?_ fun _ h _ hh => ?_
  · rw [forM_appendEntry]
    exact ⟨hg.appended _, rfl⟩
  · have hinputs : a.sum ∉ inputs h.session a.sum := by
      intro hmem
      obtain ⟨k, hk, hinput⟩ := mem_inputs hmem
      rw [hh.2] at hk hinput
      exact halone.input k hk hinput
    have hfire := fire_streams hh.1 hinputs (by rw [hh.2]; exact halone.uri)
    exact ⟨hfire.1, hfire.2.trans hh.2⟩

/-- The calls for another adder leave the sum alone. -/
theorem compute_untouched (halone : SoleSum adders c a path g.session) {d : EntityId} {b : Adder}
    (hb : adders d = some b) (hd : d ≠ c) :
    PlugUnchanged a.sum path g (leaves (compute conv plus b) g) := by
  obtain ⟨hne, huri⟩ := halone.others d b hb hd
  rw [leaves_compute]
  refine PlugUnchanged.bind ?_ fun _ h hh => ?_
  · rw [forM_appendEntry]
    exact .setValue hne _
  · refine fire_untouched hne (fun hmem => ?_) (by rw [hh.session]; exact huri)
    obtain ⟨k, hk, hinput⟩ := mem_inputs hmem
    rw [hh.session] at hk hinput
    exact halone.input k hk hinput

theorem onCompute_leaves (hcompute : onCompute conv plus a g = .ok h) :
    leaves (compute conv plus a) g = h := by
  unfold onCompute at hcompute
  unfold leaves
  split at hcompute
  · rename_i hrun
    rw [hrun]
    exact Except.ok.inj hcompute
  · rename_i hrun
    rw [hrun]
    exact Except.ok.inj hcompute
  · cases hcompute

theorem SoleSum.unmoved (hs : SoleSum adders c a path s) (ht : Unmoved s t) :
    SoleSum adders c a path t := by
  refine ⟨?_, ?_, ?_, fun d b hb hd => ⟨(hs.others d b hb hd).1, ?_⟩⟩
  · rw [ht.field Entity.uri fun _ => rfl]
    exact hs.uri
  · rw [ht.field Entity.isProxy fun _ => rfl]
    exact hs.real
  · rw [ht.cables, ht.cableObjects]
    exact hs.input
  · rw [ht.field Entity.uri fun _ => rfl]
    exact (hs.others d b hb hd).2

theorem SoleSum.not_input (hs : SoleSum adders c a path s) (e : EntityId) : a.sum ∉ inputs s e := by
  intro hmem
  obtain ⟨k, hk, hinput⟩ := mem_inputs hmem
  exact hs.input k hk hinput

theorem receiveCable_untouched {buffer : PlugValue F} {input : EntityId} (hne : input ≠ plug)
    (hreceive : receiveCable buffer g input = .ok h) : PlugUnchanged plug path g h := by
  obtain ⟨e, he, hrest⟩ := bind_ok.mp hreceive
  obtain rfl := Option.some.inj (deref_ok he)
  split at hrest
  · obtain rfl := Except.ok.inj hrest
    exact .refl g
  · exact (PlugUnchanged.setValue hne _).trans (plugReceivedValue_untouched hrest)

theorem foldlM_receiveCable_untouched {buffer : PlugValue F} (bundle : List EntityId)
    (hbundle : plug ∉ bundle) (hreceive : bundle.foldlM (receiveCable buffer) g = .ok h) :
    PlugUnchanged plug path g h := by
  induction bundle generalizing g with
  | nil =>
    obtain rfl := Except.ok.inj hreceive
    exact .refl g
  | cons e bundle ih =>
    obtain ⟨k, hfirst, hrest⟩ := run_cons_ok.mp hreceive
    have hne : e ≠ plug := fun heq => hbundle (heq ▸ List.mem_cons_self)
    exact (receiveCable_untouched hne hfirst).trans
      (ih (fun hmem => hbundle (List.mem_cons_of_mem e hmem)) hrest)

/-- A message of anyone leaves the sum alone. -/
theorem receive_streams {msg : GraphMessage F} (hg : Streams conv a.sum path values g)
    (halone : SoleSum adders c a path g.session) (hreceive : g.receive msg = .ok h) :
    Streams conv a.sum path values h ∧ SoleSum adders c a path h.session := by
  unfold receive at hreceive
  split at hreceive
  · cases hreceive
  · obtain rfl := Except.ok.inj hreceive
    exact ⟨hg, halone⟩
  · rename_i buffer _ _
    split at hreceive
    · obtain rfl := Except.ok.inj hreceive
      exact ⟨hg, halone⟩
    · rename_i sendingPlug _
      obtain ⟨k, hk, hstreams, hkalone⟩ : ∃ k,
          (if (g.hierarchy.entities sendingPlug).isProxy then
            (g.setValue sendingPlug
              ((g.rawValue sendingPlug).deserialize (some buffer))).announceUpdate sendingPlug
          else g) = k ∧ Streams conv a.sum path values k ∧ SoleSum adders c a path k.session := by
        split
        · rename_i hproxy
          have hne : sendingPlug ≠ a.sum := by
            rintro rfl
            exact absurd (hproxy.symm.trans halone.real) (by decide)
          have hset := hg.untouched (PlugUnchanged.setValue hne
            ((g.rawValue sendingPlug).deserialize (some buffer)))
          exact ⟨_, rfl, ⟨hset.numeric, hset.floatList, hset.total⟩,
            halone.unmoved (Unmoved.announceUpdate (.refl g.session) sendingPlug)⟩
        · exact ⟨g, rfl, hg, halone⟩
      simp only [hk] at hreceive
      have hserved : PlugUnchanged a.sum path k h :=
        foldlM_receiveCable_untouched _ (hkalone.not_input sendingPlug) hreceive
      exact ⟨hstreams.untouched hserved, by rw [hserved.session]; exact hkalone⟩

/-- A compute event adds what it makes the component of the sum append. -/
theorem processCompute_streams (hg : Streams conv a.sum path values g)
    (halone : SoleSum adders c a path g.session) (ha : adders c = some a)
    (hprocess : processCompute conv plus adders g = .ok h) :
    Streams conv a.sum path (values ++ contribution conv plus c a g .compute) h ∧
      h.session = g.session := by
  have hnone (hdue : due g ≠ some c) : contribution conv plus c a g .compute = [] := if_neg hdue
  unfold processCompute at hprocess
  cases hevents : g.computeEvents with
  | nil =>
    rw [hevents] at hprocess
    obtain rfl := Except.ok.inj hprocess
    rw [hnone (by unfold due; rw [hevents]; exact Option.some_ne_none c |>.symm), List.append_nil]
    exact ⟨hg, rfl⟩
  | cons event rest =>
    have hdue : due g = waiting g.session event := by
      unfold due
      rw [hevents]
      rfl
    simp only [hevents] at hprocess
    split at hprocess
    · rename_i hfind
      have hwaiting : waiting g.session event = none := congrArg (Option.map _) hfind
      obtain rfl := Except.ok.inj hprocess
      rw [hnone (by rw [hdue, hwaiting]; exact (Option.some_ne_none c).symm), List.append_nil]
      exact ⟨⟨hg.numeric, hg.floatList, hg.total⟩, rfl⟩
    · rename_i plug hfind
      have hwaiting : waiting g.session event = some event.parent := congrArg (Option.map _) hfind
      obtain ⟨component, hcomponent, hrest⟩ := bind_ok.mp hprocess
      obtain rfl := Option.some.inj (deref_ok hcomponent)
      have hcalled : Streams conv a.sum path values { g with
          computeEvents := rest
          computed := g.computed ++ [⟨event.parent, plug, g.rawValue plug⟩] } :=
        ⟨hg.numeric, hg.floatList, hg.total⟩
      by_cases hc : event.parent = c
      · simp only [hc, ha] at hrest hcalled
        have hown : contribution conv plus c a g .compute = untilThrow (entries conv plus
            (g.rawValue a.augend).values (g.rawValue a.addend).values) :=
          if_pos (by rw [hdue, hwaiting, hc])
        rw [hown, ← onCompute_leaves hrest]
        exact compute_streams hcalled halone
      · rw [hnone (by rw [hdue, hwaiting]; exact fun heq => hc (Option.some.inj heq)),
          List.append_nil]
        split at hrest
        · obtain rfl := Except.ok.inj hrest
          exact ⟨hcalled, rfl⟩
        · rename_i b hb
          have hother : PlugUnchanged a.sum path { g with
              computeEvents := rest
              computed := g.computed ++ [⟨event.parent, plug, g.rawValue plug⟩] } h := by
            rw [← onCompute_leaves hrest]
            exact compute_untouched (g := { g with
              computeEvents := rest
              computed := g.computed ++ [⟨event.parent, plug, g.rawValue plug⟩] }) halone hb hc
          exact ⟨hcalled.untouched hother, hother.session⟩

theorem clientStep_streams (ha : adders c = some a) {event : AdderEvent F}
    (hg : Streams conv a.sum path values g) (halone : SoleSum adders c a path g.session)
    (hsession : ∀ s, event = .session s → SoleSum adders c a path s)
    (hstep : clientStep conv plus adders g event = .ok h) :
    Streams conv a.sum path (values ++ contribution conv plus c a g event) h ∧
      SoleSum adders c a path h.session := by
  cases event with
  | receive msg =>
    have hreceived := receive_streams hg halone hstep
    exact ⟨(List.append_nil values).symm ▸ hreceived.1, hreceived.2⟩
  | compute =>
    have hcomputed := processCompute_streams hg halone ha hstep
    exact ⟨hcomputed.1, by rw [hcomputed.2]; exact halone⟩
  | session s =>
    obtain rfl := Except.ok.inj hstep
    exact ⟨(List.append_nil values).symm ▸ ⟨hg.numeric, hg.floatList, hg.total⟩,
      hsession s rfl⟩

theorem contributed_cons {event : AdderEvent F} {events : List (AdderEvent F)}
    (hstep : clientStep conv plus adders g event = .ok h) :
    contributed conv plus adders c a g (event :: events) =
      contribution conv plus c a g event ++ contributed conv plus adders c a h events := by
  rw [contributed, hstep]

theorem run_streams (ha : adders c = some a) {events : List (AdderEvent F)}
    (hg : Streams conv a.sum path values g) (halone : SoleSum adders c a path g.session)
    (hsessions : ∀ s, .session s ∈ events → SoleSum adders c a path s)
    (hrun : run (clientStep conv plus adders) g events = .ok h) :
    Streams conv a.sum path (values ++ contributed conv plus adders c a g events) h := by
  induction events generalizing g values with
  | nil =>
    obtain rfl := Except.ok.inj hrun
    exact (List.append_nil values).symm ▸ hg
  | cons event events ih =>
    obtain ⟨k, hstep, hrest⟩ := run_cons_ok.mp hrun
    obtain ⟨hk, hkalone⟩ := clientStep_streams ha hg halone
      (fun s hs => hsessions s (hs ▸ List.mem_cons_self)) hstep
    have hlater := ih hk hkalone (fun s hs => hsessions s (List.mem_cons_of_mem event hs)) hrest
    rwa [List.append_assoc, ← contributed_cons hstep] at hlater

end Steps

/-- Whatever the calls of `compute` throw, and whenever the sum may fire: what it
has published and what it holds is what it was and what the calls have added. -/
theorem run_publishes {adders : EntityId → Option Adder} {c : EntityId} {a : Adder}
    (ha : adders c = some a) {path : ZstURI} {g g' : ZstGraphSession F}
    {events : List (AdderEvent F)} (hnumeric : Numeric conv (g.rawValue a.sum).values)
    (htype : (g.rawValue a.sum).defaultType = .floatList)
    (halone : SoleSum adders c a path g.session)
    (hsessions : ∀ s, .session s ∈ events → SoleSum adders c a path s)
    (hrun : run (clientStep conv plus adders) g events = .ok g') :
    published path g'.graphOut ++ floats conv (g'.rawValue a.sum).values =
      published path g.graphOut ++ floats conv (g.rawValue a.sum).values ++
        contributed conv plus adders c a g events :=
  (run_streams ha ⟨hnumeric, htype, rfl⟩ halone hsessions hrun).total

/-- The patch without feedback, where the first adder is due twice. -/
def dueTwice : ZstGraphSession Int :=
  { doubler false with
    computeEvents := [⟨1, ["ada", "a", "addend"]⟩, ⟨1, ["ada", "a", "augend"]⟩] }

/-- The first sum may not fire for a while. -/
def silenced : List (AdderEvent Int) :=
  let muted := (doubler false).session.hierarchy.modify 4 fun x => { x with canFire := false }
  [.session { (doubler false).session with hierarchy := muted }, .compute,
    .session (doubler false).session, .compute]

theorem alone_of_sum {s : ZstSession}
    (huri : (s.hierarchy.entities 4).uri = ["ada", "a", "sum"])
    (hreal : (s.hierarchy.entities 4).isProxy = false)
    (hinput : ∀ k ∈ s.cables, (s.cableObjects k).input ≠ 4)
    (hother : (s.hierarchy.entities 8).uri ≠ ["ada", "a", "sum"]) :
    SoleSum adasAdders 1 ⟨2, 3, 4, by decide, by decide⟩ ["ada", "a", "sum"] s := by
  refine ⟨huri, hreal, hinput, ?_⟩
  exact adasAdders_cases (fun hne => absurd rfl hne) fun _ => ⟨by decide, hother⟩

/-- No sum is lost while the first adder may not fire. -/
theorem run_publishes_dueTwice :
    ∃ g', run (clientStep ValueDelivery.millionths (· + ·) adasAdders) dueTwice silenced = .ok g' ∧
      published ["ada", "a", "sum"] g'.graphOut ++
        floats ValueDelivery.millionths (g'.rawValue 4).values = [2, 5, 2, 5] := by
  have hstart : SoleSum adasAdders 1 ⟨2, 3, 4, by decide, by decide⟩ ["ada", "a", "sum"]
      dueTwice.session := alone_of_sum (by decide) (by decide) (by decide) (by decide)
  have hsessions : ∀ s, .session s ∈ silenced →
      SoleSum adasAdders 1 ⟨2, 3, 4, by decide, by decide⟩ ["ada", "a", "sum"] s := by
    intro s hs
    rcases List.mem_cons.mp hs with hmuted | hs
    · obtain rfl := AdderEvent.session.inj hmuted
      exact alone_of_sum (by decide) (by decide) (by decide) (by decide)
    rcases List.mem_cons.mp hs with hcompute | hs
    · cases hcompute
    rcases List.mem_cons.mp hs with hback | hs
    · obtain rfl := AdderEvent.session.inj hback
      exact hstart
    · cases List.mem_singleton.mp hs
  have hok : (run (clientStep ValueDelivery.millionths (· + ·) adasAdders)
      dueTwice silenced).isOk = true := by decide +kernel
  cases hrun : run (clientStep ValueDelivery.millionths (· + ·) adasAdders)
      dueTwice silenced with
  | error fault =>
    rw [hrun] at hok
    cases hok
  | ok g' =>
    have hpublishes := run_publishes ValueDelivery.millionths (· + ·)
      (a := ⟨2, 3, 4, by decide, by decide⟩) (c := 1) rfl (numeric_floats []) rfl hstart
      hsessions hrun
    exact ⟨g', rfl, hpublishes.trans (by decide +kernel)⟩

end Showtime.Adders
