import Showtime.Client
/-!
# Joining and leaving the stage

`ZstClient::join_stage` and `ZstClient::leave_stage`, for a stage that answers
every request with OK. The snapshot of the graph that the stage sends to a
joining client only adds proxies and is not part of this.
-/

namespace Showtime

open ZstHierarchy ZstClientHierarchy

structure ZstClient where
  session : ZstSession
  connectedToStage : Bool := false
  isConnecting : Bool := false
  /-- `get_graph_out_address` of the graph transport. -/
  reliableAddress : String := ""

namespace ZstClient

/-- A stage that answers every request with OK while it is connected. -/
def okLink (connected : Bool) : StageLink where
  connected
  answer _ := some (.signalMessage .ok)

def hierarchy (client : ZstClient) : ZstHierarchy :=
  client.session.hierarchy

def onHierarchy (client : ZstClient) (f : ZstHierarchy → ZstHierarchy) : ZstClient :=
  { client with session := { client.session with hierarchy := f client.session.hierarchy } }

@[simp] theorem onHierarchy_hierarchy (client : ZstClient) (f : ZstHierarchy → ZstHierarchy) :
    (client.onHierarchy f).hierarchy = f client.hierarchy := rfl

@[simp] theorem onHierarchy_connectedToStage (client : ZstClient)
    (f : ZstHierarchy → ZstHierarchy) :
    (client.onHierarchy f).connectedToStage = client.connectedToStage := rfl

section Fuel

variable (fuel : Nat)

/-- What `process_events` does to the session. -/
def processEvents (client : ZstClient) : ZstClient :=
  { client with
    session := ZstClientSession.processEvents
      (overrides (okLink client.connectedToStage) fuel) fuel client.session }

/-- `synchronisable_set_activating` and `synchronisable_enqueue_activation`. -/
def wake (h : ZstHierarchy) (c : EntityId) : ZstHierarchy :=
  (h.setActivationStatus c .activating).enqueueActivation c

/-- `get_child_entities(bundle, true)` of the root: only itself and its children. -/
def nearEntities (h : ZstHierarchy) (root : EntityId) : List EntityId :=
  root :: h.childEntities root

/-- `join_stage_complete` once the stage has answered with OK. -/
def joinHierarchy (h : ZstHierarchy) (root : EntityId) (behaviour : SendBehaviour) :
    ZstHierarchy :=
  let link := okLink true
  let v := overrides link fuel
  let h := (nearEntities h root).foldl wake h
  -- `dispatch_connected_to_stage`, before and after the other activations
  let h := h.enqueueActivation root
  let h := publish link h { target := 0, content := .signalMessage .clientSync }
  let h := ((h.getChildEntities root).drop 1).foldl
    (fun h c => activateEntity v link fuel h c behaviour) h
  h.enqueueActivation root

def joinStageComplete (client : ZstClient) (root : EntityId) (behaviour : SendBehaviour) :
    ZstClient :=
  let client := { client with isConnecting := false, connectedToStage := true }
  let client := client.onHierarchy fun h => joinHierarchy fuel h root behaviour
  if behaviour = .syncReply then processEvents fuel client else client

/-- `join_stage`, with the OK of the stage, which nobody waits for after a publish. -/
def joinStage (client : ZstClient) (root : EntityId) (behaviour : SendBehaviour) : ZstClient :=
  if client.isConnecting || client.connectedToStage then client
  else
    let client := { client with isConnecting := true }
    let client := client.onHierarchy fun h => publish (okLink true) h
      { target := 0
        content := .clientJoinRequest (h.entities root).serialize client.reliableAddress }
    if behaviour = .publish then client else joinStageComplete fuel client root behaviour

/-- The stage answers the requests that wait for a response with OK. -/
def answerRequests (link : StageLink) (h : ZstHierarchy) (sent : List Outgoing) : ZstHierarchy :=
  (sent.filterMap Outgoing.onRecvResponse).foldl
    (fun h action => onRecvResponse (overrides link fuel) link h action
      (some (.signalMessage .ok))) h

/-- A join, the responses to its requests, and a drain of the client's events. -/
def join (client : ZstClient) (root : EntityId) (behaviour : SendBehaviour) : ZstClient :=
  let joined := joinStage fuel client root behaviour
  let requests := joined.hierarchy.sent.drop client.hierarchy.sent.length
  processEvents fuel (joined.onHierarchy fun h => answerRequests fuel (okLink true) h requests)

def leaveStageComplete (client : ZstClient) (root : EntityId) (behaviour : SendBehaviour) :
    ZstClient :=
  if client.connectedToStage then
    let client := { client with connectedToStage := false, isConnecting := false }
    let client := client.onHierarchy fun h => (nearEntities h root).foldl enqueueDeactivation h
    let client := if behaviour = .syncReply then processEvents fuel client else client
    -- `dispatch_disconnected_from_stage`
    let client := client.onHierarchy fun h => h.enqueueDeactivation root
    if behaviour = .syncReply then processEvents fuel client else client
  else client

/-- `leave_stage`, which drains the client's events itself. -/
def leaveStage (client : ZstClient) (root : EntityId) : ZstClient :=
  let client :=
    if client.connectedToStage then
      { client.onHierarchy fun h => publish (okLink true) h
          { target := 0, content := .clientLeaveRequest (h.entities root).uri .quit } with
        isConnecting := false }
    else client
  processEvents fuel (leaveStageComplete fuel client root .publish)

end Fuel

end ZstClient
end Showtime
