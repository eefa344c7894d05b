import Numax.Host.CallOutcome
import Numax.Core.Batch

/-!
# What happens to a node

A node changes when a guest makes a mutating call, when the broadcast loop
takes an operation off the queue, and when a batch is remembered or applied.
`Node.Initial` is a node that has just started on a store without records of
its own.
-/

open Base Std

namespace Numax

/-- No record under any of the runtime's tables. -/
def NoTableRecords (store : Store) : Prop :=
  ∀ key ∈ store, ∀ table : StoreTable, ¬ startsWith key (asBytes table.dataPrefix)

/-- A node as it starts: nothing in memory, no records in its store. -/
structure Node.Initial (n : Node) : Prop where
  registries : n.sync.registries = {}
  seenOps : ∃ limit, n.sync.seenOps = SeenOps.new limit
  seenOpsNextSequence : n.sync.seenOpsNextSequence = 0
  opLog : n.sync.opLog = []
  opLogNextSequence : n.sync.opLogNextSequence = 0
  store : NoTableRecords n.store

namespace Node

/-- A node with the given limits on an empty store. -/
def start (nodeId : NodeId) (capacity opLogLimit seenOpsLimit : Nat) : Node where
  sync :=
    { nodeId
      opQueue := { capacity }
      seenOps := SeenOps.new seenOpsLimit
      opLogLimit }
  store := ∅

theorem start_initial (nodeId : NodeId) (capacity opLogLimit seenOpsLimit : Nat) :
    (start nodeId capacity opLogLimit seenOpsLimit).Initial where
  registries := rfl
  seenOps := ⟨seenOpsLimit, rfl⟩
  seenOpsNextSequence := rfl
  opLog := rfl
  opLogNextSequence := rfl
  store := fun key hkey => absurd hkey (by simp [start])

/-- A mutating call of a guest with the given memory. -/
def call (serde : Serde) (n : Node) (memory : Option GuestMemory) (env : CallEnv)
    (call : CrdtCall) : Node × Int :=
  let (host, code) := crdtCall serde env { memory, store := n.store, sync := some n.sync } call
  ({ sync := host.sync.getD n.sync, store := host.store }, code)

/-- The broadcast loop takes the oldest operation off the queue. -/
def recv (n : Node) : Node :=
  { n with
    sync := { n.sync with opQueue := { n.sync.opQueue with ops := n.sync.opQueue.ops.tail } } }

/-- The operations a call has added to the queue. -/
def queuedSince (before after : Node) : List Op :=
  after.sync.opQueue.ops.drop before.sync.opQueue.ops.length

/-- A successful call performs the effect of the one operation it queues, or
does nothing. -/
theorem call_success (serde : Serde) (n : Node) (memory : Option GuestMemory) (env : CallEnv)
    (c : CrdtCall) (hok : 0 ≤ (n.call serde memory env c).2) :
    (n.call serde memory env c).1.sync.nodeId = n.sync.nodeId ∧
    (n.call serde memory env c).1.sync.seenOps = n.sync.seenOps ∧
    ((n.queuedSince (n.call serde memory env c).1 = [] ∧
        (n.call serde memory env c).1.sync.registries = n.sync.registries) ∨
      ∃ op, IssuedBy env n.sync op ∧ n.queuedSince (n.call serde memory env c).1 = [op] ∧
        (n.call serde memory env c).1.sync.registries = applyOp n.sync.registries op) := by
  have houtcome := crdtCall_outcome serde env ⟨memory, n.store, some n.sync⟩ c
  unfold call at hok ⊢
  generalize crdtCall serde env ⟨memory, n.store, some n.sync⟩ c = result at houtcome hok ⊢
  cases houtcome with
  | rejected negative => exact absurd hok (by simpa using negative)
  | unchanged => exact ⟨rfl, rfl, .inl ⟨by simp [queuedSince], rfl⟩⟩
  | committed enabled issued persisted nonneg =>
    cases enabled
    exact ⟨rfl, rfl, .inr ⟨_, issued, by simp [queuedSince], rfl⟩⟩
  | queuedOnly enabled issued same =>
    cases enabled
    exact ⟨rfl, rfl, .inr ⟨_, issued, by simp [queuedSince], same.symm⟩⟩
  | unreported enabled issued persisted unwritable =>
    exact absurd hok (by simp [errInternal])

end Node

end Numax
