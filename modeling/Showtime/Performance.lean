import Showtime.StageSession
import Showtime.Client
/-!
# A stage and its clients

The stage with the clients that joined it. What the stage sends to a client
goes through a FIFO channel; a message of a client is handled by the stage
when it is sent, as any order of arrival is an order of sending.
-/

namespace Showtime

open ZstHierarchy

structure Performance where
  stage : ZstSession
  clients : Endpoint → ZstSession
  /-- The messages on their way from the stage to a client, oldest first. -/
  channels : Endpoint → List Content

namespace Performance

/-- The messages among some that go to an endpoint. -/
def addressedTo (c : Endpoint) (messages : List Outgoing) : List Content :=
  (messages.filter fun m => m.target = c).map Outgoing.content

/-- What the stage has handed to its transports goes into the channels. -/
def flush (p : Performance) : Performance where
  stage := ZstStageSession.onHierarchy p.stage fun h => { h with sent := [] }
  clients := p.clients
  channels c := p.channels c ++ addressedTo c p.stage.hierarchy.sent

/-- The stage handles a message of a client. -/
def stageReceive (p : Performance) (msg : ZstStageMessage) : Except Fault Performance := do
  let stage ← ZstStageSession.receive p.stage msg
  return { p with stage }.flush

/-- A client handles the oldest message of its channel. -/
def deliver (v : Overrides) (p : Performance) (c : Endpoint) : Except Fault Performance :=
  match p.channels c with
  | [] => .ok p
  | content :: rest => do
    let client ← ZstClientSession.receive v (p.clients c) content
    return { p with
      clients := Function.update p.clients c client
      channels := Function.update p.channels c rest }

/-- The endpoints that have a performer on the stage. -/
def joined (p : Performance) : List Endpoint :=
  (ZstStageHierarchy.getPerformers p.stage.hierarchy).filterMap fun e =>
    (p.stage.hierarchy.entities e).stageProxy.map StageProxy.originEndpointUUID

/-- A client's own performer path. -/
def rootURI (p : Performance) (c : Endpoint) : ZstURI :=
  ZstClientHierarchy.rootURI (p.clients c).hierarchy

@[simp] theorem flush_clients (p : Performance) : p.flush.clients = p.clients := rfl

@[simp] theorem flush_sent (p : Performance) : p.flush.stage.hierarchy.sent = [] := rfl

end Performance
end Showtime
