import Showtime.Client
import Showtime.Value
/-!
# Firing plugs and receiving their values

The part of `ZstClientSession` and `ZstOutputPlug` that moves values between
plugs: `fire`, which serves the cables inside one performer itself and hands
the value to the graph transport for all others, the handler of graph messages,
and the compute events that an input plug's component runs later.
-/

namespace Showtime

open ZstHierarchy

/-- A `GraphMessage`: the path of the plug that fired, and its value, if there is one. -/
structure GraphMessage (F : Type) where
  sender : ZstURI
  value : Option (PlugValue F)
  deriving DecidableEq, Repr

/-- A deferred call of `compute`, with the variables it captures. -/
structure ComputeEvent where
  parent : EntityId
  plugPath : ZstURI
  deriving DecidableEq, Repr

/-- A call of `compute`, and what the plug held at that time. -/
structure Computed (F : Type) where
  component : EntityId
  plug : EntityId
  value : ZstValue F
  deriving DecidableEq, Repr

/-- A client's session with the values of its plugs. -/
structure ZstGraphSession (F : Type) where
  session : ZstSession
  /-- `m_value` of each plug. -/
  rawValue : EntityId → ZstValue F
  computeEvents : List ComputeEvent := []
  /-- The calls of `compute` so far, oldest first. -/
  computed : List (Computed F) := []
  /-- What was handed to the graph transports, oldest first. -/
  graphOut : List (GraphMessage F) := []

namespace ZstGraphSession

variable {F : Type} (conv : Conversions F)

def hierarchy (g : ZstGraphSession F) : ZstHierarchy :=
  g.session.hierarchy

def setValue (g : ZstGraphSession F) (e : EntityId) (value : ZstValue F) : ZstGraphSession F :=
  { g with rawValue := Function.update g.rawValue e value }

/-- The component that `plug->parent()` is cast to. -/
def parentComponent (h : ZstHierarchy) (e : EntityId) : Option EntityId :=
  (h.parent e).filter fun p => (h.entities p).isComponent

/-- `plug_received_value`, which throws for a plug without a component. -/
def plugReceivedValue (g : ZstGraphSession F) (e : EntityId) :
    Except Fault (ZstGraphSession F) :=
  match parentComponent g.hierarchy e with
  | some parent =>
    .ok { g with
      computeEvents := g.computeEvents ++ [⟨parent, (g.hierarchy.entities e).uri⟩] }
  | none => .error .exception

/-- The inputs at the other ends of a plug's cables. -/
def inputs (s : ZstSession) (e : EntityId) : List EntityId :=
  (s.plugCables [] e).map fun c => (s.cableObjects c).input

/-- What `fire` does for one cable: inputs whose path starts as the plug's own
get a copy. -/
def fireCable (plug : EntityId) (g : ZstGraphSession F) (input : EntityId) :
    Except Fault (ZstGraphSession F) := do
  let input ← g.hierarchy.deref (some input)
  if (g.hierarchy.entities input).uri.first = (g.hierarchy.entities plug).uri.first then
    plugReceivedValue (g.setValue input ((g.rawValue input).copy (g.rawValue plug))) input
  else return g

/-- `ZstOutputPlug::fire`. The number of local cables never exceeds the number of
cables, so that the message is always published. -/
def fire (g : ZstGraphSession F) (plug : EntityId) : Except Fault (ZstGraphSession F) := do
  if !(g.hierarchy.entities plug).canFire then
    return g
  let bundle := inputs g.session plug
  let localCables := bundle.filter fun input =>
    (g.hierarchy.entities input).uri.first = (g.hierarchy.entities plug).uri.first
  let g ← bundle.foldlM (fireCable plug) g
  let g ← if localCables.length ≤ bundle.length then do
      let value ← (g.rawValue plug).serialize conv
      pure { g with graphOut := g.graphOut ++ [⟨(g.hierarchy.entities plug).uri, value⟩] }
    else pure g
  return g.setValue plug (g.rawValue plug).clear

/-- `synchronisable_annouce_update`. -/
def announceUpdate (g : ZstGraphSession F) (e : EntityId) : ZstGraphSession F :=
  { g with
    session := { g.session with
      hierarchy := (g.session.hierarchy.deferEvents e [.updated]).synchronisableHasEvent e } }

/-- What the handler of graph messages does for one cable: proxies are skipped. -/
def receiveCable (value : PlugValue F) (g : ZstGraphSession F) (input : EntityId) :
    Except Fault (ZstGraphSession F) := do
  let input ← g.hierarchy.deref (some input)
  if (g.hierarchy.entities input).isProxy then
    return g
  plugReceivedValue (g.setValue input ((g.rawValue input).deserialize (some value))) input

/-- `on_receive_msg` for graph messages. A message without a value is followed all the same. -/
def receive (g : ZstGraphSession F) (msg : GraphMessage F) : Except Fault (ZstGraphSession F) :=
  match msg.value with
  | none => .error .nullPointer
  | some .plugHandshake => .ok g
  | some value =>
    match g.session.findOutputPlug msg.sender with
    | none => .ok g
    | some sendingPlug => do
      let g :=
        if (g.hierarchy.entities sendingPlug).isProxy then
          (g.setValue sendingPlug
            ((g.rawValue sendingPlug).deserialize (some value))).announceUpdate sendingPlug
        else g
      (inputs g.session sendingPlug).foldlM (receiveCable value) g

/-- One deferred event of `m_compute_events`: the plug is looked up by its path. -/
def processCompute (g : ZstGraphSession F) : Except Fault (ZstGraphSession F) :=
  match g.computeEvents with
  | [] => .ok g
  | event :: rest =>
    let g := { g with computeEvents := rest }
    match g.hierarchy.findEntity event.plugPath with
    | none => .ok g
    | some plug => do
      let component ← g.hierarchy.deref (some event.parent)
      return { g with computed := g.computed ++ [⟨component, plug, g.rawValue plug⟩] }

/-- What `process_events` does beside the compute events. -/
def processSession (v : Overrides) (fuel : Nat) (g : ZstGraphSession F) : ZstGraphSession F :=
  { g with session := ZstClientSession.processEvents v fuel g.session }

end ZstGraphSession
end Showtime
