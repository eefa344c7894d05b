import Numax.Core.Storage

/-!
# Node state and local acceptance

The state of a node's sync manager and `remember_ops` (`replication.rs`): the
operations a node issued itself enter its deduplication window and its log.
Acceptance is shared with the remote path: `freshOps` drops what is already
seen or repeated in the batch, and `planLoop` assigns the sequences.
-/

open Base Std

namespace Numax

/-- The bounded queue from host calls to the broadcast loop. A reserved permit
occupies a slot until it is used or dropped. -/
structure OpQueue where
  ops : List Op := []
  capacity : Nat
  reserved : Nat := 0
  closed : Bool := false
deriving DecidableEq

namespace OpQueue

/-- `try_reserve`: fails when the channel is closed or full. -/
def tryReserve (q : OpQueue) : Option OpQueue :=
  if q.closed || decide (q.capacity ≤ q.ops.length + q.reserved) then none
  else some { q with reserved := q.reserved + 1 }

/-- Drop a permit without sending. -/
def release (q : OpQueue) : OpQueue := { q with reserved := q.reserved - 1 }

/-- Use a permit. -/
def send (q : OpQueue) (op : Op) : OpQueue :=
  { q with ops := q.ops ++ [op], reserved := q.reserved - 1 }

theorem release_of_tryReserve {q q' : OpQueue} (h : q.tryReserve = some q') : q'.release = q := by
  unfold tryReserve at h
  split at h
  · cases h
  · cases h
    simp [release]

theorem send_of_tryReserve {q q' : OpQueue} (h : q.tryReserve = some q') (op : Op) :
    q'.send op = { q with ops := q.ops ++ [op] } := by
  unfold tryReserve at h
  split at h
  · cases h
  · cases h
    simp [send]

end OpQueue

/-- The sync manager's in-memory state. -/
structure SyncState where
  nodeId : NodeId
  registries : Registries := {}
  opQueue : OpQueue
  seenOps : SeenOps
  seenOpsNextSequence : UInt64 := 0
  opLog : List Op := []
  opLogNextSequence : UInt64 := 0
  opLogLimit : Nat

/-- A node: its sync state and its store. -/
structure Node where
  sync : SyncState
  store : Store

/-! ## Acceptance -/

/-- Is the operation already seen, or repeated in the batch? -/
def isDuplicate (seen : SeenOps) (inserted : List Op) (op : Op) : Bool :=
  seen.ids.contains op.id || inserted.any fun other => other.id == op.id

def acceptStep (seen : SeenOps) (inserted : List Op) (op : Op) : List Op :=
  if isDuplicate seen inserted op then inserted else inserted ++ [op]

/-- The operations of a batch that are accepted, in order. -/
def freshOps (seen : SeenOps) (ops : List Op) : List Op := ops.foldl (acceptStep seen) []

/-- Number the accepted operations; the last one carries the evictions. -/
def planLoop (lastIndex : Nat) (seenEvicted : List String) (opLogEvicted : List Op) :
    List Op → (index : Nat) → (nextSeen nextLog : UInt64) →
      List OpPersistencePlan × UInt64 × UInt64
  | [], _, nextSeen, nextLog => ([], nextSeen, nextLog)
  | op :: rest, index, nextSeen, nextLog =>
    let plan : OpPersistencePlan :=
      { op
        seenSequence := nextSeen
        opLogSequence := nextLog
        seenEvicted := if index = lastIndex then seenEvicted else []
        opLogEvicted := if index = lastIndex then opLogEvicted else [] }
    let (plans, seen, log) :=
      planLoop lastIndex seenEvicted opLogEvicted rest (index + 1) (satAdd nextSeen 1)
        (satAdd nextLog 1)
    (plan :: plans, seen, log)

/-- Evictions and plans of a batch of accepted operations. -/
def planBatch (s : SyncState) (inserted : List Op) : List OpPersistencePlan × UInt64 × UInt64 :=
  planLoop (inserted.length - 1)
    (planSeenEvictions s.seenOps (inserted.map Op.id))
    (planOpLogEvictions s.opLog inserted.length s.opLogLimit)
    inserted 0 s.seenOpsNextSequence s.opLogNextSequence

/-- The in-memory bookkeeping once a batch is durable. -/
def commitBatch (s : SyncState) (inserted : List Op) : SyncState :=
  let insertedIds := inserted.map Op.id
  let (_, nextSeen, nextLog) := planBatch s inserted
  { s with
    seenOps := applySeenInsertions s.seenOps insertedIds (planSeenEvictions s.seenOps insertedIds)
    opLog := (pruneOpLogAndReturnEvicted (s.opLog ++ inserted) s.opLogLimit).1
    seenOpsNextSequence := nextSeen
    opLogNextSequence := nextLog }

/-- Remember locally issued operations. On a store failure nothing changes. -/
def rememberOps (serde : Serde) (fault : Option StoreError) (n : Node) (ops : List Op) :
    Node × Except StoreError Unit :=
  let inserted := freshOps n.sync.seenOps ops
  let plans := (planBatch n.sync inserted).1
  match persistLocalOpsBatch serde fault n.store plans with
  | .error error => (n, .error error)
  | .ok store => ({ sync := commitBatch n.sync inserted, store }, .ok ())

end Numax
