import Numax.Host.Event

/-!
# The broadcast loop

`spawn_broadcast_loop` (`replication.rs`) takes what the host calls have queued and
sends it to the connected peers: it waits for an operation, gives the producers a
moment, takes more operations up to `BROADCAST_BATCH_MAX`, has the batch remembered,
and writes it to every connected peer. Once shutdown is requested it does the same
until the queue is empty.

The loop runs beside the guests and the event loop, so each `await` of the source is a
point where other steps come in between. A phase is one of these points.
-/

open Base Std

namespace Numax

/-- `BROADCAST_BATCH_MAX`. -/
def broadcastBatchMax : Nat := 1024

/-- Where the loop is. The operations of a batch that is being collected are off the
queue and not yet remembered. -/
inductive BroadcastPhase (ω : Type) where
  | waiting
  | coalescing (batch : List Op)
  /-- `try_recv` has failed or the batch is full -/
  | batched (batch : List Op)
  | remembered (batch : List Op)
  /-- in `broadcast_message`: the writers left, and whether one has failed -/
  | sending (batch : List Op) (failed : Bool) (writers : List ω)
  | terminated
deriving DecidableEq

/-- The loop of one node. It drains the queue once it has seen the shutdown. -/
structure BroadcastLoop (ω : Type) where
  phase : BroadcastPhase ω := .waiting
  draining : Bool := false
deriving DecidableEq

/-- Operations off the queue that the node has not remembered yet. -/
def BroadcastPhase.taken {ω : Type} : BroadcastPhase ω → List Op
  | .coalescing batch | .batched batch => batch
  | _ => []

/-- Operations that are remembered and not yet written to every peer. -/
def BroadcastPhase.outgoing {ω : Type} : BroadcastPhase ω → List Op
  | .remembered batch | .sending batch _ _ => batch
  | _ => []

/-- The receiver is dropped: no permit is given out any more. -/
def Node.closeQueue (n : Node) : Node :=
  { n with sync := { n.sync with opQueue := { n.sync.opQueue with closed := true } } }

namespace BroadcastLoop

variable {ω : Type}

/-- The shutdown is seen between two batches. -/
def shutdown (loop : BroadcastLoop ω) : Option (BroadcastLoop ω) :=
  match loop.phase with
  | .waiting => some { loop with draining := true }
  | _ => none

/-- `recv` in the loop, and `try_recv` in `drain_broadcast_queue`. Without an operation
the loop waits, or is done when it is draining. -/
def receive (loop : BroadcastLoop ω) (n : Node) : Option (BroadcastLoop ω × Node) :=
  match loop.phase, n.sync.opQueue.ops with
  | .waiting, first :: _ => some ({ loop with phase := .coalescing [first] }, n.recv)
  | .waiting, [] =>
    if loop.draining then some ({ loop with phase := .terminated }, n.closeQueue) else none
  | _, _ => none

/-- One round of the loop in `broadcast_batch`. -/
def tryRecv (loop : BroadcastLoop ω) (n : Node) : Option (BroadcastLoop ω × Node) :=
  match loop.phase with
  | .coalescing batch =>
    if batch.length < broadcastBatchMax then
      match n.sync.opQueue.ops with
      | op :: _ => some ({ loop with phase := .coalescing (batch ++ [op]) }, n.recv)
      | [] => some ({ loop with phase := .batched batch }, n)
    else some ({ loop with phase := .batched batch }, n)
  | _ => none

/-- `remember_ops` on the batch. A batch that cannot be remembered is not sent. -/
def remember (serde : Serde) (fault : Option StoreError) (loop : BroadcastLoop ω) (n : Node) :
    Option (BroadcastLoop ω × Node × Except StoreError (List Op)) :=
  match loop.phase with
  | .batched batch =>
    match rememberOps serde fault n batch with
    | (node, .ok ()) => some ({ loop with phase := .remembered batch }, node, .ok batch)
    | (node, .error error) => some ({ loop with phase := .waiting }, node, .error error)
  | _ => none

/-- `broadcast_message` takes the writers of the connected peers. -/
def snapshot (loop : BroadcastLoop ω) (writers : List ω) : Option (BroadcastLoop ω) :=
  match loop.phase with
  | .remembered batch => some { loop with phase := .sending batch false writers }
  | _ => none

end BroadcastLoop

end Numax
