import Numax.Cluster.Broadcast
import Numax.Cluster.ReadLoop
import Numax.Theorems.Convergence
import Numax.Base.Transition

/-!
# Stations and connections

Any number of nodes with their broadcast loops, event loops and anti-entropy requests,
and the connections between them. A connection is two pipes, one for each direction;
a pipe holds the bytes that were written and are not yet read.

A run is an interleaving of what all tasks of all nodes do with the network: at any
moment bytes may get lost together with everything behind them, and connections are made
and closed. When a write fails part of the frame may have been written. The failure and
`mark_peer_failed` are one action here; nothing is written to a pipe after it has failed.

A guest call is three actions. It reserves a slot of the queue; it waits for the lock of
the registry, changes and persists it; and it sends the operation. Its arguments are read
from the memory of a guest that is suspended meanwhile, so it makes no difference when.
Calls that fail before they have a permit change nothing and are left out, and so are the
sync errors that calls count themselves.

Each station keeps the history of `Replica`, and of its calls and its broadcast loop all
that was published and sent and the batches that were made of it. What a call has
published is pending until it is remembered, also if the call has failed since.
-/

open Base Std

namespace Numax

/-! ## Pipes -/

/-- One direction of a connection. -/
structure Pipe (ι : Type) where
  src : ι
  dst : ι
  /-- what the reader knows its peer by -/
  peerNodeId : NodeId
  addr : String
  /-- the other direction -/
  back : Nat
  format : SerializationFormat
  bytes : Bytes := []
  /-- nothing that is written gets through any more -/
  broken : Bool := false
  /-- the read loop is running -/
  reading : Bool := true

namespace Pipe

variable {ι : Type}

def write (bytes : Bytes) (p : Pipe ι) : Pipe ι :=
  if p.broken then p else { p with bytes := p.bytes ++ bytes }

/-- Only the first bytes were written. -/
def fail (bytes : Bytes) (p : Pipe ι) : Pipe ι := { p.write bytes with broken := true }

/-- The network loses everything but the first bytes. -/
def cut (n : Nat) (p : Pipe ι) : Pipe ι := { p with bytes := p.bytes.take n, broken := true }

def close (reading : Bool) (p : Pipe ι) : Pipe ι := { p with broken := true, reading }

end Pipe

/-! ## Stations -/

/-- The writer of a connected peer. -/
structure Writer where
  pipe : Nat
  format : SerializationFormat
deriving DecidableEq

/-- The task that handles the events of a node. -/
inductive EventLoop where
  | running
  /-- the shutdown of the node is requested -/
  | stopping
  /-- the queue was found empty: what comes in later is dropped with its receiver -/
  | ended
deriving DecidableEq

/-- The node with another queue. -/
def Node.withQueue (n : Node) (opQueue : OpQueue) : Node :=
  { n with sync := { n.sync with opQueue } }

/-- A node with its tasks. The table holds the connected entries of `peers`. -/
structure Station where
  replica : Replica
  loop : BroadcastLoop (String × Writer) := {}
  events : EventLoop := .running
  peers : OrdMap String Writer := ∅
  inbox : List NodeEvent := []
  eventCapacity : Nat
  maxMessageSize : Nat
  syncErrors : Nat := 0
  /-- published by calls that still hold their permit -/
  inHand : List Op := []
  /-- published by calls that have failed -/
  unreported : List Op := []
  /-- all operations the calls have sent -/
  queued : List Op := []
  /-- those of them that were sent after the broadcast loop had ended -/
  late : List Op := []
  /-- the finished batches, and whether they were remembered -/
  batches : List (List Op × Bool) := []

namespace Station

def node (s : Station) : Node := s.replica.node

def recordSyncError (s : Station) : Station := { s with syncErrors := s.syncErrors + 1 }

/-- `mark_peer_failed`: the entry goes if it is still the one that failed. -/
def forget (addr : String) (pipe : Nat) (s : Station) : Station :=
  { s with
    peers := if (s.peers[addr]?).any (·.pipe = pipe) then s.peers.erase addr else s.peers }

/-- The operations of the batches that could not be remembered. -/
def lost (s : Station) : List Op := (s.batches.filter fun batch => !batch.2).flatMap Prod.fst

/-- The operations that are published and neither remembered nor on their way to that. -/
def held (s : Station) : List Op := s.lost ++ (s.unreported ++ s.inHand)

def setNode (s : Station) (node : Node) : Station := { s with replica := { s.replica with node } }

/-- The broadcast loop is at another point, and the node may have changed with it. -/
def setLoop (s : Station) (loop : BroadcastLoop (String × Writer)) (node : Node) : Station :=
  { s.setNode node with loop }

/-! ### Calls -/

/-- `try_reserve`. A call that gets no permit fails. -/
def reserve (s : Station) : Option Station :=
  s.node.sync.opQueue.tryReserve.map fun queue => s.setNode (s.node.withQueue queue)

/-- A call that holds a permit gets the lock of the registry, and runs up to the point
where it sends or returns. It comes with the operation it has published. -/
def publish (serde : Serde) (s : Station) (memory : Option GuestMemory) (env : CallEnv)
    (call : CrdtCall) : Option (Station × List Op) :=
  let queue := s.node.sync.opQueue
  -- all other permits belong to calls that are about to send
  if queue.reserved ≤ s.inHand.length then none
  else
    -- for the call its permit is a queue with one slot
    let node := ((s.node.withQueue { capacity := 1 }).call serde memory env call).1
    let toSend := node.sync.opQueue.ops
    -- an insertion may change the registry and fail after that
    let unreported :=
      if toSend = [] ∧ node.sync.registries ≠ s.node.sync.registries then
        (insertedOp env s.node.sync.nodeId memory call).toList
      else []
    let node := node.withQueue (if toSend = [] then queue.release else queue)
    let pending := s.replica.pending ++ (toSend ++ unreported)
    some ({ s with
      replica := { s.replica with node, pending }
      inHand := s.inHand ++ toSend
      unreported := s.unreported ++ unreported }, toSend ++ unreported)

/-- `permit.send`. It does not fail, also if nobody will take the operation out. -/
def sendOp (s : Station) (op : Op) : Station :=
  let queue := s.node.sync.opQueue
  { s.setNode (s.node.withQueue (queue.send op)) with
    inHand := s.inHand.erase op
    queued := s.queued ++ [op]
    late := if queue.closed then s.late ++ [op] else s.late }

/-! ### Batches -/

/-- The result of `remember_ops` for the batch of the broadcast loop. -/
def finishBatch (s : Station) (loop : BroadcastLoop (String × Writer)) (node : Node)
    (batch : List Op) : Bool → Station
  | true =>
    { s with
      loop
      replica := s.replica.accept node batch (s.held ++ node.sync.opQueue.ops)
      batches := s.batches ++ [(batch, true)] }
  | false => { (s.setLoop loop node).recordSyncError with batches := s.batches ++ [(batch, false)] }

/-! ### Messages -/

section Send

variable {ι : Type} (codec : PayloadCodec) (pipes : List (Pipe ι))

/-- `write_to_connection`. A failure says how many bytes were written before it. -/
def writeToConnection (s : Station) (addr : String) (writer : Writer) (frame : Bytes) :
    Option Nat → Station × List (Pipe ι)
  | none => (s, pipes.modify writer.pipe (Pipe.write frame))
  | some n =>
    (s.forget addr writer.pipe, pipes.modify writer.pipe (Pipe.fail (frame.take n)))

/-- `send_message_to_addr`, by tasks that count every failure. -/
def sendMessageToAddr (s : Station) (addr : String) (message : Message) (failure : Option Nat) :
    Station × List (Pipe ι) :=
  match s.peers[addr]? with
  | none => (s.recordSyncError, pipes)
  | some writer =>
    match message.toBytesWithFormat codec writer.format with
    | .error _ => (s.recordSyncError, pipes)
    | .ok frame =>
      let (s', pipes') := s.writeToConnection pipes addr writer frame failure
      (if failure.isSome then s'.recordSyncError else s', pipes')

/-- One round of `broadcast_message`, or its end. -/
def push (s : Station) (failure : Option Nat) : Option (Station × List (Pipe ι)) :=
  match s.loop.phase with
  | .sending _ failed [] =>
    let s' := { s with loop := { s.loop with phase := .waiting } }
    some (if failed then s'.recordSyncError else s', pipes)
  | .sending batch failed ((addr, writer) :: rest) =>
    match (Message.pushOps batch).toBytesWithFormat codec writer.format with
    | .error _ =>
      some ({ s with loop := { s.loop with phase := .waiting } }.recordSyncError, pipes)
    | .ok frame =>
      let (s', pipes') := s.writeToConnection pipes addr writer frame failure
      let phase := .sending batch (failed || failure.isSome) rest
      some ({ s' with loop := { s.loop with phase } }, pipes')
  | _ => none

/-- `handle_node_event` on the oldest event. -/
def handle (serde : Serde) (s : Station) (fault : Option StoreError) (failure : Option Nat) :
    Option (Station × List (Pipe ι)) :=
  match s.inbox with
  | [] => none
  | .opsReceived _ ops :: rest =>
    match applyRemoteOps serde fault s.node ops with
    | (node, .ok ()) =>
      some ({ s with
        inbox := rest, replica := s.replica.accept node ops s.replica.pending }, pipes)
    | (node, .error _) =>
      some ({ s with inbox := rest, replica := { s.replica with node } }.recordSyncError, pipes)
  | .pullRequested _ addr sinceOpId :: rest =>
    let ops := opLogSince s.node.sync.opLog sinceOpId
    some ({ s with inbox := rest }.sendMessageToAddr codec pipes addr (Message.pushOps ops)
      failure)

end Send

end Station

/-! ## The cluster -/

structure Cluster (ι : Type) where
  station : ι → Station
  pipes : List (Pipe ι) := []
  issued : List Op := []
  remembered : List Op := []

/-- What one task does at once, or the network. -/
inductive Action (ι : Type) where
  | reserve (i : ι)
  | publish (i : ι) (memory : Option GuestMemory) (env : CallEnv) (call : CrdtCall)
  | send (i : ι) (op : Op)
  /-- the shutdown of the node is requested -/
  | stop (i : ι)
  /-- the broadcast loop sees it -/
  | shutdown (i : ι)
  /-- the event loop has drained its queue -/
  | endEvents (i : ι)
  | receive (i : ι)
  | tryRecv (i : ι)
  | remember (i : ι) (fault : Option StoreError)
  | snapshot (i : ι) (writers : List (String × Writer))
  | push (i : ι) (failure : Option Nat)
  | pull (i : ι) (addr : String) (failure : Option Nat)
  | handle (i : ι) (fault : Option StoreError) (failure : Option Nat)
  | read (pipe : Nat)
  | connect (i j : ι) (addrI addrJ : String) (format : SerializationFormat)
  | disconnect (i : ι) (addr : String)
  | cut (pipe : Nat) (n : Nat)

namespace Cluster

variable {ι : Type} [DecidableEq ι] (serde : Serde) (codec : PayloadCodec)

/-- The histories of the nodes. -/
def world (c : Cluster ι) : World ι where
  replica i := (c.station i).replica
  issued := c.issued
  remembered := c.remembered

/-- One station and the pipes have changed. -/
def set (c : Cluster ι) (i : ι) (s : Station) (pipes : List (Pipe ι)) : Cluster ι :=
  { c with station := Function.update c.station i s, pipes }

/-- The broadcast loop has the batch remembered. -/
def rememberBatch (c : Cluster ι) (i : ι) (fault : Option StoreError) : Option (Cluster ι) :=
  let s := c.station i
  match s.loop.remember serde fault s.node with
  | none => none
  | some (loop, node, .ok batch) =>
    some { c.set i (s.finishBatch loop node batch true) c.pipes with
      remembered := c.remembered ++ batch }
  | some (loop, node, .error _) =>
    some (c.set i (s.finishBatch loop node s.loop.phase.taken false) c.pipes)

/-- The read loop ends: the entry of the connection goes, and both directions with it. -/
def endReading (c : Cluster ι) (k : Nat) (p : Pipe ι) : Cluster ι :=
  c.set p.dst ((c.station p.dst).forget p.addr p.back)
    ((c.pipes.modify k (Pipe.close false)).modify p.back fun q => q.close q.reading)

/-- One round of the read loop of a pipe. It waits for more bytes unless none can come,
and for room in the event queue. -/
def readPipe (c : Cluster ι) (k : Nat) : Option (Cluster ι) :=
  match c.pipes[k]? with
  | none => none
  | some p =>
    let s := c.station p.dst
    if p.reading = false then none
    else
      match readMessageWithFormat codec s.maxMessageSize p.bytes with
      | (.error error, _) =>
        if error = .io "unexpected end of file" ∧ p.broken = false then none
        else some (c.endReading k p)
      | (.ok (_, message), bytes) =>
        let pipes := c.pipes.modify k fun p => { p with bytes }
        match readOutcome p.peerNodeId p.addr message with
        | .event event =>
          -- `send_node_event`: nobody takes the event any more
          if s.events = .ended then some { c with pipes }
          else if s.inbox.length < s.eventCapacity then
            some (c.set p.dst { s with inbox := s.inbox ++ [event] } pipes)
          -- it is not waited for room during a shutdown
          else if s.events = .stopping then some { c with pipes }
          else none
        | .reply answer =>
          match answer.toBytesWithFormat codec p.format with
          | .error _ => some (c.endReading k p)
          | .ok frame => some { c with pipes := pipes.modify p.back (Pipe.write frame) }
        | .nothing => some { c with pipes }
        | .stop => some (c.endReading k p)

/-- Both handshakes have succeeded. -/
def connect (c : Cluster ι) (i j : ι) (addrI addrJ : String) (format : SerializationFormat) :
    Option (Cluster ι) :=
  if i = j then none
  else
    let n := c.pipes.length
    let si := c.station i
    let sj := c.station j
    let there : Pipe ι :=
      { src := i, dst := j, peerNodeId := si.node.sync.nodeId, addr := addrJ,
        back := n + 1, format }
    let back : Pipe ι :=
      { src := j, dst := i, peerNodeId := sj.node.sync.nodeId, addr := addrI, back := n, format }
    some
      { c with
        station := Function.update
          (Function.update c.station i
            { si with peers := si.peers.insert addrI { pipe := n, format } })
          j { sj with peers := sj.peers.insert addrJ { pipe := n + 1, format } }
        pipes := c.pipes ++ [there, back] }

/-- The node gives up a connection. -/
def disconnect (c : Cluster ι) (i : ι) (addr : String) : Option (Cluster ι) :=
  match (c.station i).peers[addr]? with
  | none => none
  | some writer =>
    (c.pipes[writer.pipe]?).map fun p =>
      c.set i ((c.station i).forget addr writer.pipe)
        ((c.pipes.modify writer.pipe fun q => q.close q.reading).modify p.back (Pipe.close false))

/-- The result of one action, if it is possible. -/
def step (c : Cluster ι) : Action ι → Option (Cluster ι)
  | .reserve i => (c.station i).reserve.map fun s => c.set i s c.pipes
  | .publish i memory env call =>
    ((c.station i).publish serde memory env call).map fun (s, ops) =>
      { c.set i s c.pipes with issued := c.issued ++ ops }
  | .send i op =>
    if op ∈ (c.station i).inHand then some (c.set i ((c.station i).sendOp op) c.pipes) else none
  | .stop i =>
    if (c.station i).events = .running then
      some (c.set i { c.station i with events := .stopping } c.pipes)
    else none
  | .shutdown i =>
    if (c.station i).events = .running then none
    else (c.station i).loop.shutdown.map fun loop => c.set i { c.station i with loop } c.pipes
  | .endEvents i =>
    if (c.station i).events = .stopping ∧ (c.station i).inbox = [] then
      some (c.set i { c.station i with events := .ended } c.pipes)
    else none
  | .receive i =>
    ((c.station i).loop.receive (c.station i).node).map fun (loop, node) =>
      c.set i ((c.station i).setLoop loop node) c.pipes
  | .tryRecv i =>
    ((c.station i).loop.tryRecv (c.station i).node).map fun (loop, node) =>
      c.set i ((c.station i).setLoop loop node) c.pipes
  | .remember i fault => c.rememberBatch serde i fault
  | .snapshot i writers =>
    if writers.Perm (c.station i).peers.toList then
      ((c.station i).loop.snapshot writers).map fun loop =>
        c.set i { c.station i with loop } c.pipes
    else none
  | .push i failure =>
    ((c.station i).push codec c.pipes failure).map fun (s, pipes) => c.set i s pipes
  | .pull i addr failure =>
    let (s, pipes) := (c.station i).sendMessageToAddr codec c.pipes addr ⟨.pullSince none⟩ failure
    some (c.set i s pipes)
  | .handle i fault failure =>
    ((c.station i).handle codec c.pipes serde fault failure).map fun (s, pipes) => c.set i s pipes
  | .read k => c.readPipe codec k
  | .connect i j addrI addrJ format => c.connect i j addrI addrJ format
  | .disconnect i addr => c.disconnect i addr
  | .cut k n => some { c with pipes := c.pipes.modify k (Pipe.cut n) }

/-- A run of actions, if all of them are possible. -/
def run (c : Cluster ι) (actions : List (Action ι)) : Option (Cluster ι) :=
  runSteps (step serde codec) c actions

/-- What the runs are asked for: the generator has given an id of its own to every
operation, and no timestamp is at the end of its range. -/
structure Proper (c : Cluster ι) : Prop where
  ids : (c.issued.map Op.id).Nodup
  stamps : ∀ op ∈ c.issued, op.StampBelowMax

/-- Stations that have just started, without connections. -/
structure Initial (c : Cluster ι) : Prop where
  world : c.world.Initial
  queue : ∀ i, (c.station i).node.sync.opQueue.ops = [] ∧
    (c.station i).node.sync.opQueue.closed = false
  loop : ∀ i, (c.station i).loop = {}
  peers : ∀ i, (c.station i).peers = ∅
  inbox : ∀ i, (c.station i).inbox = []
  inHand : ∀ i, (c.station i).inHand = []
  unreported : ∀ i, (c.station i).unreported = []
  queued : ∀ i, (c.station i).queued = []
  late : ∀ i, (c.station i).late = []
  batches : ∀ i, (c.station i).batches = []
  pipes : c.pipes = []

end Cluster

end Numax
