import Numax.Net.FrameStream

/-!
# The read loop of a connection

`read_messages` (`node.rs`): every message of a peer becomes an event for the node,
an answer, or the end of the loop.
-/

open Base

namespace Numax

/-- What a connection tells the node about replication. -/
inductive NodeEvent where
  | opsReceived (sender : NodeId) (ops : List Op)
  | pullRequested (sender : NodeId) (addr : String) (sinceOpId : Option String)
deriving DecidableEq

/-- What the loop does with a message. -/
inductive ReadOutcome where
  | event (event : NodeEvent)
  | reply (message : Message)
  | nothing
  | stop
deriving DecidableEq

/-- One round of `read_messages`, for a peer of which the node id and the address are
known. -/
def readOutcome (peerNodeId : NodeId) (addr : String) (message : Message) : ReadOutcome :=
  match message.kind with
  | .pushOps ops => .event (.opsReceived peerNodeId ops)
  | .pullSince sinceOpId => .event (.pullRequested peerNodeId addr sinceOpId)
  | .ping => .reply ⟨.pong⟩
  | .pong => .nothing
  | .error _ => .stop
  | .hello .. | .helloAck .. | .pushOpsAck _ => .nothing

end Numax
