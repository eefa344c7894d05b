import Numax.Net.Bootstrap
import Numax.Net.Exchange
import Numax.Base.Transition

/-!
# The connection table

A node keeps its peers in one map, from the address of a connection to the connection
(`nx-net/src/node.rs`). Many tasks work on it at once: one for each accepted
connection, one for each `connect_to_peer`, and the senders that find a connection
broken. All of them change the map under its lock, note how many peers it then holds,
and report the change to the sync manager after the lock is released. The sync manager
(`handle_node_event`) keeps a view of its own from those reports.

The state is what the tasks share together with where each of them stands, and a step
is what one of them does between two points at which another may run. Nothing is
assumed about the order of the steps.

* A permit of `connection_slots` belongs to the task until its connection is in the
  map, and to the entry from then on. Dropping either gives it back.
* Dropping an entry also closes its instance. An instance is closed when it was in the
  map and is not any more, so this needs no state of its own.
* An event that a task or a sender has noted and not yet sent is in `owed`, in the
  order of the changes. A sender waits for its own event, so it has at most one.
* `OpsReceived` and `PullRequested` go through the same queue, and touch neither the
  map nor the view. They are left out, and the writes they cause are `sendTo` steps.
* A task that is aborted takes no more steps; in front of the map that is `failed`.
-/

open Base Std

namespace Numax

inductive ConnectionDirection where
  | inbound
  | outbound
deriving DecidableEq, Repr

inductive PeerIdentityVerification where
  | certificateBound
  | unverified
deriving DecidableEq, Repr

structure PeerIdentity where
  nodeId : NodeId
  verification : PeerIdentityVerification
deriving DecidableEq, Repr

structure PeerConnectionInfo where
  transportAddr : String
  dialedEndpoint : Option String
  direction : ConnectionDirection
  identity : PeerIdentity
deriving DecidableEq, Repr

structure PeerInfo where
  addr : String
  nodeId : Option NodeId
deriving DecidableEq, Repr

/-- `OwnedSemaphorePermit`. -/
structure Permit where
  permits : Nat
deriving DecidableEq, Repr

/-- A connection in the map. The instance is known by the task that made it. -/
structure PeerEntry extends PeerConnection where
  info : PeerInfo
  connectionInfo : Option PeerConnectionInfo
  instanceId : Nat
  slot : Permit
deriving DecidableEq, Repr

abbrev PeerTable := OrdMap String PeerEntry

/-- The part of `NodeConfig` that decides about connections. -/
structure NodeConfig where
  maxPeers : Nat
  serializationFormat : SerializationFormat
  eventChannelCapacity : Nat
  /-- `identity_verification` of the TLS configuration -/
  verification : PeerIdentityVerification
deriving DecidableEq, Repr

def maxConcurrentOutboundAttempts : Nat := 1

/-- The errors that end an attempt to connect, apart from those of the socket. -/
inductive ConnectError where
  | connectionFailed (reason : String)
  | peerLimitReached (limit : Nat)
  | net (error : NetError)
  | wire (error : ProtocolWireError)
  /-- what `verify_peer_identity` says -/
  | identity
deriving DecidableEq, Repr

/-! ## The map -/

def connectedPeerCount (peers : PeerTable) : Nat :=
  ((OrdMap.valuesAsc peers).filter fun entry => entry.state = .connected).length

def isConnectedAddr (peers : PeerTable) (addr : String) : Bool :=
  peers[addr]?.any fun entry => entry.state = .connected

def connectionInfo (peers : PeerTable) (addr : String) : Option PeerConnectionInfo :=
  peers[addr]?.bind fun entry => if entry.state = .connected then entry.connectionInfo else none

/-- The entry under the address, if it belongs to this instance, and the map without it. -/
def removeConnectionIfCurrent (peers : PeerTable) (addr : String) (instanceId : Nat) :
    Option (PeerEntry × PeerTable) :=
  match peers[addr]? with
  | none => none
  | some entry =>
    if entry.instanceId = instanceId then some (entry, peers.erase addr) else none

def ensurePeerSlotAvailable (peers : PeerTable) (maxPeers : Nat) (replacingAddr : Option String) :
    Except ConnectError Unit :=
  if replacingAddr.any fun addr => peers.contains addr then .ok ()
  else if connectedPeerCount peers ≥ maxPeers then .error (.peerLimitReached maxPeers)
  else .ok ()

/-! ## The handshakes -/

inductive IncomingHandshake where
  | peer (nodeId : NodeId) (format : SerializationFormat)
  | bootstrap (nodeId : NodeId) (format : SerializationFormat) (clusterId : String)
      (advertisedEndpoint : Option String) (maxResults : Nat)
deriving DecidableEq, Repr

def negotiate (ours : SerializationFormat) (version : UInt32)
    (supportedFormats : List SerializationFormat) : Except ConnectError SerializationFormat :=
  if !isProtocolVersionCompatible version then
    .error (.wire (.protocolMismatch protocolVersion version))
  else
    match negotiateSerializationFormat ours supportedFormats with
    | none => .error (.net (.invalidMessage "no mutually supported serialization format"))
    | some format => .ok format

/-- What `handle_incoming` makes of the first message. -/
def incomingHandshake (ours : SerializationFormat) (message : WireMessage) :
    Except ConnectError IncomingHandshake :=
  match message.kind with
  | .hello nodeId version supportedFormats _ =>
    (negotiate ours version supportedFormats).map fun format => .peer nodeId format
  | .bootstrapHello nodeId version supportedFormats _ clusterId advertisedEndpoint maxResults =>
    (negotiate ours version supportedFormats).map fun format =>
      .bootstrap nodeId format clusterId advertisedEndpoint maxResults.toNat
  | .error error => .error (.wire error)
  | _ => .error (.net (.invalidMessage "expected Hello or BootstrapHello"))

/-- What `connect_to_peer` makes of the answer to its `Hello`. -/
def outgoingHandshake (ours : SerializationFormat) (message : Message) :
    Except ConnectError (NodeId × SerializationFormat) :=
  match message.kind with
  | .helloAck nodeId version selectedFormat =>
    if !isProtocolVersionCompatible version then
      .error (.wire (.protocolMismatch protocolVersion version))
    else if selectedFormat ∈ supportedFormatsFor ours then .ok (nodeId, selectedFormat)
    else .error (.net (.invalidMessage
      ("peer selected unsupported serialization format: " ++ selectedFormat.debugText)))
  | .error error => .error (.wire error.toProtocol)
  | _ => .error (.net (.invalidMessage "expected HelloAck"))

/-! ## The tasks -/

/-- Where the task of a connection stands. -/
inductive ConnectionPhase where
  /-- accepted, before the first message -/
  | opening (slot : Permit)
  /-- `Hello` read and the identity verified -/
  | greeted (nodeId : NodeId) (format : SerializationFormat) (slot : Permit)
  /-- there was room, the `HelloAck` is being written -/
  | acknowledging (nodeId : NodeId) (format : SerializationFormat) (slot : Permit)
  /-- connecting out, before the answer to `Hello` -/
  | dialing (slot : Permit)
  /-- waiting for the lock of the map -/
  | verified (nodeId : NodeId) (format : SerializationFormat) (transportAddr : String)
      (slot : Permit)
  /-- has been put into the map; announces itself, then reads -/
  | running (nodeId : NodeId)
  /-- has cleaned up behind itself -/
  | ended
  /-- was over before it was put into the map -/
  | refused
deriving DecidableEq, Repr

structure Connection where
  addr : String
  direction : ConnectionDirection
  phase : ConnectionPhase
deriving DecidableEq, Repr

/-- The permit that the task itself holds. -/
def ConnectionPhase.slot : ConnectionPhase → Option Permit
  | .opening slot | .greeted _ _ slot | .acknowledging _ _ slot | .dialing slot
  | .verified _ _ _ slot => some slot
  | .running _ | .ended | .refused => none

/-- The events about the table. -/
inductive PeerEvent where
  | peerConnected (nodeId : NodeId) (addr : String) (peersConnected : Nat)
  | peerDisconnected (nodeId : NodeId) (addr : String) (peersConnected : Nat)
deriving DecidableEq, Repr

def PeerEvent.announces : PeerEvent → Bool
  | .peerConnected .. => true
  | .peerDisconnected .. => false

def PeerEvent.addr : PeerEvent → String
  | .peerConnected _ addr _ | .peerDisconnected _ addr _ => addr

def PeerEvent.peersConnected : PeerEvent → Nat
  | .peerConnected _ _ peersConnected | .peerDisconnected _ _ peersConnected => peersConnected

inductive Sender where
  | task (id : Nat)
  | writer (id : Nat)
deriving DecidableEq, Repr

structure OwedEvent where
  sender : Sender
  /-- the instance whose entry the change was about -/
  instanceId : Nat
  event : PeerEvent
deriving DecidableEq, Repr

/-- The view of the sync manager. -/
structure PeerView where
  activeConnections : OrdMap String PeerConnectionInfo
  peersConnected : Nat

/-- `handle_node_event`. The connection is looked up when the event is handled. -/
def handleNodeEvent (peers : PeerTable) (view : PeerView) : PeerEvent → PeerView
  | .peerConnected nodeId addr peersConnected =>
    { activeConnections :=
        match connectionInfo peers addr with
        | some connection =>
          -- by now the address may have another peer
          if connection.identity.nodeId = nodeId then
            view.activeConnections.insert addr connection
          else view.activeConnections
        | none => view.activeConnections
      peersConnected }
  | .peerDisconnected _ addr peersConnected =>
    { activeConnections := view.activeConnections.erase addr, peersConnected }

/-- `outbound_attempts` and `outbound_attempt_slots`. -/
structure OutboundAttempts where
  endpoints : OrdSet String
  slots : Nat
  /-- the tasks whose `connect_to_peer` has not returned -/
  callers : List Nat

structure Transport where
  config : NodeConfig
  /-- shut down: `connection_slots` and the task registry are closed -/
  closed : Bool
  /-- the permits left in `connection_slots` -/
  available : Nat
  attempts : OutboundAttempts
  peers : PeerTable
  tasks : List Connection
  /-- for each sender the connections that it has found and not yet written to -/
  writers : List (List (String × Nat))
  owed : List OwedEvent
  queue : List PeerEvent
  view : PeerView

namespace Transport

def new (config : NodeConfig) : Transport where
  config := config
  closed := false
  available := config.maxPeers
  attempts := ⟨∅, maxConcurrentOutboundAttempts, []⟩
  peers := ∅
  tasks := []
  writers := []
  owed := []
  queue := []
  view := ⟨∅, 0⟩

variable (s : Transport)

def owes (sender : Sender) : Bool := s.owed.any fun owed => owed.sender = sender

def setPhase (id : Nat) (phase : ConnectionPhase) : Transport :=
  { s with tasks := s.tasks.modify id fun task => { task with phase } }

/-- `connect_to_peer` returns, which drops its `ConnectionAttemptGuard`. -/
def returned (id : Nat) (task : Connection) : Transport :=
  if id ∈ s.attempts.callers then
    { s with
      attempts := ⟨s.attempts.endpoints.erase task.addr, s.attempts.slots + 1,
        s.attempts.callers.erase id⟩ }
  else s

/-- The task is over before its connection is in the map, and drops its permit. -/
def refuse (id : Nat) (task : Connection) : Transport :=
  let s := { s with available := s.available + task.phase.slot.elim 0 Permit.permits }
  (s.setPhase id .refused).returned id task

/-- `try_acquire_owned` on `connection_slots`. -/
def tryAcquire : Option (Permit × Transport) :=
  if s.closed ∨ s.available = 0 then none
  else some (⟨1⟩, { s with available := s.available - 1 })

/-! ### Inbound -/

/-- The listener accepts a connection, and rejects it when there is no permit. -/
def accept (addr : String) : Transport :=
  match s.tryAcquire with
  | none => s
  | some (slot, s) => { s with tasks := s.tasks ++ [⟨addr, .inbound, .opening slot⟩] }

/-- The first message. An exchange with a bootstrap client ends the connection. -/
def firstMessage (id : Nat) (message : WireMessage) (identityVerified : Bool) : Option Transport :=
  match s.tasks[id]? with
  | some task =>
    match task.phase with
    | .opening slot =>
      match incomingHandshake s.config.serializationFormat message with
      | .ok (.peer nodeId format) =>
        if identityVerified then some (s.setPhase id (.greeted nodeId format slot))
        else some (s.refuse id task)
      -- a bootstrap client, a refused hello, or any other message
      | _ => some (s.refuse id task)
    | _ => none
  | none => none

/-- The look at the map before the `HelloAck`. -/
def checkRoom (id : Nat) : Option Transport :=
  match s.tasks[id]? with
  | some task =>
    match task.phase with
    | .greeted nodeId format slot =>
      match ensurePeerSlotAvailable s.peers s.config.maxPeers (some task.addr) with
      | .ok () => some (s.setPhase id (.acknowledging nodeId format slot))
      | .error _ => some (s.refuse id task)
    | _ => none
  | none => none

def ackWritten (id : Nat) : Option Transport :=
  match s.tasks[id]? with
  | some task =>
    match task.phase with
    | .acknowledging nodeId format slot =>
      some (s.setPhase id (.verified nodeId format task.addr slot))
    | _ => none
  | none => none

/-! ### Outbound -/

/-- What `connect_to_peer` does before it connects; without a state it is connected already.
The look at the map, the guard and the two permits are one step here. In the source the
address may get connected between the look and the guard, as it may in both while the task
is dialing. -/
def startConnect (addr : String) : Except ConnectError (Option Transport) :=
  if s.closed then .error (.connectionFailed "node is shut down")
  else if isConnectedAddr s.peers addr then .ok none
  else if s.attempts.endpoints.contains addr then
    .error (.connectionFailed ("connection attempt already in progress for peer: " ++ addr))
  else if s.attempts.slots = 0 then
    .error (.connectionFailed ("outbound connection attempt limit reached: " ++
      toString maxConcurrentOutboundAttempts))
  else
    match s.tryAcquire with
    | none => .error (.peerLimitReached s.config.maxPeers)
    | some (slot, s) =>
      .ok (some { s with
        attempts := ⟨s.attempts.endpoints.insert addr, s.attempts.slots - 1,
          s.tasks.length :: s.attempts.callers⟩
        tasks := s.tasks ++ [⟨addr, .outbound, .dialing slot⟩] })

/-- A call that fails at once leaves nothing behind. -/
def connect (addr : String) : Transport :=
  match s.startConnect addr with
  | .ok (some s) => s
  | _ => s

def ackReceived (id : Nat) (transportAddr : String) (message : Message) (identityVerified : Bool) :
    Option Transport :=
  match s.tasks[id]? with
  | some task =>
    match task.phase with
    | .dialing slot =>
      match outgoingHandshake s.config.serializationFormat message with
      | .ok (nodeId, format) =>
        if identityVerified then
          some (s.setPhase id (.verified nodeId format transportAddr slot))
        else some (s.refuse id task)
      | .error _ => some (s.refuse id task)
    | _ => none
  | none => none

/-! ### Into the map -/

/-- The entry that a task puts into the map. -/
def entryOf (id : Nat) (task : Connection) (nodeId : NodeId) (format : SerializationFormat)
    (transportAddr : String) (slot : Permit) : PeerEntry where
  state := .connected
  serializationFormat := format
  hasWriter := true
  info := ⟨task.addr, some nodeId⟩
  connectionInfo := some
    { transportAddr
      dialedEndpoint :=
        match task.direction with
        | .inbound => none
        | .outbound => some task.addr
      direction := task.direction
      identity := ⟨nodeId, s.config.verification⟩ }
  instanceId := id
  slot := slot

/-- `peers.insert`, which drops an entry it replaces. -/
def place (addr : String) (entry : PeerEntry) : Transport :=
  { s with
    peers := s.peers.insert addr entry
    available := s.available + s.peers[addr]?.elim 0 fun replaced => replaced.slot.permits }

/-- Take the entry out if it belongs to the instance. It is dropped, and the change
reported for the peer that `report` names. -/
def removeCurrent (sender : Sender) (addr : String) (instanceId : Nat)
    (report : PeerEntry → Option NodeId) : Transport :=
  match removeConnectionIfCurrent s.peers addr instanceId with
  -- the entry is gone, or another instance has replaced it
  | none => s
  | some (removed, peers) =>
    { s with
      peers
      available := s.available + removed.slot.permits
      owed := s.owed ++ ((report removed).map fun nodeId =>
        ⟨sender, instanceId, .peerDisconnected nodeId addr (connectedPeerCount peers)⟩).toList }

/-- The connection is put into the map, and its task goes on with announcing it. -/
def admitPeer (id : Nat) (task : Connection) (nodeId : NodeId) (entry : PeerEntry) : Transport :=
  let s := (s.place task.addr entry).setPhase id (.running nodeId)
  { s with
    owed := s.owed ++
      [⟨.task id, id, .peerConnected nodeId task.addr (connectedPeerCount s.peers)⟩] }

/-- The part of `handle_incoming` and of `connect_to_peer` under the lock. The task
registry refuses the reader of an outbound connection once the node is shut down. -/
def insert (id : Nat) : Option Transport :=
  match s.tasks[id]? with
  | some task =>
    match task.phase with
    | .verified nodeId format transportAddr slot =>
      let entry := s.entryOf id task nodeId format transportAddr slot
      -- an inbound connection replaces one under its address, an outbound one gives way
      if task.direction = .outbound ∧ isConnectedAddr s.peers task.addr then
        some (s.refuse id task)
      else
        match ensurePeerSlotAvailable s.peers s.config.maxPeers (some task.addr) with
        | .error _ => some (s.refuse id task)
        | .ok () =>
          if task.direction = .outbound ∧ s.closed then
            -- no reader, so the entry is taken out again under the same lock
            let s := (s.place task.addr entry).removeCurrent (.task id) task.addr id
              fun _ => none
            some ((s.setPhase id .refused).returned id task)
          else some (s.admitPeer id task nodeId entry)
    | _ => none
  | none => none

/-- The caller of `connect_to_peer` goes on, or gives up before it is done. -/
def callerLeft (id : Nat) : Option Transport :=
  match s.tasks[id]? with
  | some task =>
    if id ∈ s.attempts.callers then
      match task.phase.slot with
      | some _ => some (s.refuse id task)
      -- the connection is in the map and stays there
      | none => some (s.returned id task)
    else none
  | none => none

/-- An error or a timeout on the socket before the connection is in the map. -/
def failed (id : Nat) : Option Transport :=
  match s.tasks[id]? with
  | some task =>
    match task.phase.slot with
    | some _ => some (s.refuse id task)
    | none => none
  | none => none

/-! ### Out of the map -/

/-- The reader of a connection ends; it starts after the announcement. -/
def readerExit (id : Nat) : Option Transport :=
  match s.tasks[id]? with
  | some task =>
    match task.phase with
    | .running nodeId =>
      if s.owes (.task id) then none
      else
        some ((s.removeCurrent (.task id) task.addr id fun removed =>
          if removed.state = .connected then some nodeId else none).setPhase id .ended)
    | _ => none
  | none => none

/-- The connections that a message is to be written to. -/
def targets (peers : List (String × PeerEntry)) : List (String × Nat) :=
  (peers.filter fun peer => peer.2.state = .connected ∧ peer.2.hasWriter).map fun peer =>
    (peer.1, peer.2.instanceId)

def broadcast : Transport :=
  { s with writers := s.writers ++ [targets s.peers.toList] }

def sendTo (addr : String) : Transport :=
  { s with
    writers := s.writers ++ [targets (s.peers[addr]?.map fun entry => (addr, entry)).toList] }

/-- `mark_peer_failed`. -/
def markPeerFailed (sender : Sender) (addr : String) (instanceId : Nat) : Transport :=
  s.removeCurrent sender addr instanceId fun removed =>
    if removed.state = .connected then removed.info.nodeId else none

/-- A sender is done with the next of its connections. -/
def wrote (id : Nat) (ok : Bool) : Option Transport :=
  match s.writers[id]? with
  | some ((addr, instanceId) :: rest) =>
    if s.owes (.writer id) then none
    else
      let s := { s with writers := s.writers.set id rest }
      some (if ok then s else s.markPeerFailed (.writer id) addr instanceId)
  | _ => none

/-! ### Reports -/

/-- The instance of the owed event has been in the map and is not any more. -/
def instanceClosed (owed : OwedEvent) : Bool :=
  !(OrdMap.valuesAsc s.peers).any fun entry => entry.instanceId = owed.instanceId

/-- An event goes into the queue once there is room. -/
def send (k : Nat) : Option Transport :=
  match s.owed[k]? with
  | some owed =>
    if s.queue.length < max s.config.eventChannelCapacity 1 then
      some { s with owed := s.owed.eraseIdx k, queue := s.queue ++ [owed.event] }
    else none
  | none => none

/-- `while_connection_open` gives up the announcement of a closed instance; after a
shutdown every event may get lost. -/
def discard (k : Nat) : Option Transport :=
  match s.owed[k]? with
  | some owed =>
    if s.closed || owed.event.announces && s.instanceClosed owed then
      some { s with owed := s.owed.eraseIdx k }
    else none
  | none => none

/-- The sync manager handles the oldest event of the queue. Nobody else writes the view. -/
def handle : Option Transport :=
  match s.queue with
  | event :: rest => some { s with queue := rest, view := handleNodeEvent s.peers s.view event }
  | [] => none

/-- The end of `shutdown`: the remaining connections are dropped. -/
def clear : Option Transport :=
  if s.closed then
    some { s with
      peers := ∅
      available := s.available +
        ((OrdMap.valuesAsc s.peers).map fun entry => entry.slot.permits).sum }
  else none

end Transport

inductive TransportStep where
  | accept (addr : String)
  | firstMessage (id : Nat) (message : WireMessage) (identityVerified : Bool)
  | checkRoom (id : Nat)
  | ackWritten (id : Nat)
  | connect (addr : String)
  | ackReceived (id : Nat) (transportAddr : String) (message : Message) (identityVerified : Bool)
  | insert (id : Nat)
  | callerLeft (id : Nat)
  | failed (id : Nat)
  | readerExit (id : Nat)
  | broadcast
  | sendTo (addr : String)
  | wrote (id : Nat) (ok : Bool)
  | send (k : Nat)
  | discard (k : Nat)
  | handle
  | shutdown
  | clear

def Transport.step (s : Transport) : TransportStep → Option Transport
  | .accept addr => some (s.accept addr)
  | .firstMessage id message identityVerified => s.firstMessage id message identityVerified
  | .checkRoom id => s.checkRoom id
  | .ackWritten id => s.ackWritten id
  | .connect addr => some (s.connect addr)
  | .ackReceived id transportAddr message identityVerified =>
    s.ackReceived id transportAddr message identityVerified
  | .insert id => s.insert id
  | .callerLeft id => s.callerLeft id
  | .failed id => s.failed id
  | .readerExit id => s.readerExit id
  | .broadcast => some s.broadcast
  | .sendTo addr => some (s.sendTo addr)
  | .wrote id ok => s.wrote id ok
  | .send k => s.send k
  | .discard k => s.discard k
  | .handle => s.handle
  | .shutdown => some { s with closed := true }
  | .clear => s.clear

def Transport.run (s : Transport) (steps : List TransportStep) : Option Transport :=
  runSteps Transport.step s steps

end Numax
