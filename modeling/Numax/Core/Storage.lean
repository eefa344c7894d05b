import Numax.Core.Tables
import Numax.Core.Registries
import Numax.Core.Bounded

/-!
# Durable form of the sync state

What the sync manager writes into the store, and how it reads it back
(`storage.rs`). Every CRDT entry has two records, its state as JSON and a
rendering for readers of the store; every accepted operation has a seen record
with its sequence and an op-log record with sequence and operation.

`serde_json` is a parameter (`Serde`) of which only the round trip is used.
The hydration functions return the store as well, since they rewrite
materialized records and delete evicted ones.
-/

open Base Std

namespace Numax

/-! ## Serialization -/

/-- A type with a JSON text form. -/
structure JsonCodec (α : Type) where
  toJson : α → String
  fromJson : String → Except String α
  roundTrip : ∀ a, fromJson (toJson a) = .ok a

/-- A type with a JSON byte form. -/
structure BytesCodec (α : Type) where
  toBytes : α → Bytes
  fromBytes : Bytes → Except String α
  roundTrip : ∀ a, fromBytes (toBytes a) = .ok a

/-- The JSON forms the sync manager uses. -/
structure Serde where
  state : (k : CrdtKind) → JsonCodec k.State
  op : BytesCodec Op
  mapEntries : List (String × Bytes) → Bytes
  setElements : List String → Bytes
  rgaValues : List Bytes → Bytes

variable (serde : Serde)

/-! ## Keys and values -/

inductive CrdtStoreNamespace where
  | materialized
  | state
deriving DecidableEq, Repr

def CrdtKind.table : CrdtKind → CrdtStoreNamespace → StoreTable
  | .gcounter, .materialized => .gcounterMaterialized
  | .gcounter, .state => .gcounterState
  | .pncounter, .materialized => .pncounterMaterialized
  | .pncounter, .state => .pncounterState
  | .lwwRegister, .materialized => .lwwRegisterMaterialized
  | .lwwRegister, .state => .lwwRegisterState
  | .lwwMap, .materialized => .lwwMapMaterialized
  | .lwwMap, .state => .lwwMapState
  | .orset, .materialized => .orsetMaterialized
  | .orset, .state => .orsetState
  | .rga, .materialized => .rgaMaterialized
  | .rga, .state => .rgaState

theorem CrdtKind.table_inj {k l : CrdtKind} {m n : CrdtStoreNamespace}
    (h : k.table m = l.table n) : k = l ∧ m = n := by
  revert h
  cases k <;> cases m <;> cases l <;> cases n <;> decide

def crdtStoreKey (kind : CrdtKind) (ns : CrdtStoreNamespace) (key : String) : Bytes :=
  tableKey (kind.table ns) key

def seenOpStoreKey (opId : String) : Bytes := tableKey .seenOps opId

def opLogStoreKey (opId : String) : Bytes := tableKey .opLog opId

/-- The reader's view of a CRDT state: counters as little-endian integers, a
register as its raw value, collections as JSON. -/
def render : (k : CrdtKind) → k.State → Bytes
  | .gcounter, (c : GCounter) => leBytes 8 c.value.toNat
  | .pncounter, (c : PNCounter) => leBytes 8 (c.value % 2 ^ 64).toNat
  | .lwwRegister, (r : LwwRegister) => r.value
  | .lwwMap, (m : LwwMap) => serde.mapEntries m.visibleEntries
  | .orset, (s : ORSet) => serde.setElements s.elements
  | .rga, (r : Rga) => serde.rgaValues r.values

/-- The two records of a CRDT entry. -/
def stateRecords (k : CrdtKind) (key : String) (s : k.State) : List (Bytes × Bytes) :=
  [(crdtStoreKey k .state key, asBytes ((serde.state k).toJson s)),
    (crdtStoreKey k .materialized key, render serde k s)]

def encodeDurableOpLogValue (sequence : UInt64) (op : Op) : Bytes :=
  beBytes 8 sequence.toNat ++ serde.op.toBytes op

/-! ## Persisting -/

section Persist

variable (fault : Option StoreError) (store : Store)

/-- Persist one CRDT entry: state and materialized record in one batch. -/
def persistState (k : CrdtKind) (key : String) (s : k.State) : Except StoreError Store :=
  store.applyBatch fault (stateRecords serde k key s) []

def persistGcounterState (key : String) (counter : GCounter) : Except StoreError Store :=
  persistState serde fault store .gcounter key counter

def persistPncounterState (key : String) (counter : PNCounter) : Except StoreError Store :=
  persistState serde fault store .pncounter key counter

def persistLwwRegisterState (key : String) (register : LwwRegister) : Except StoreError Store :=
  persistState serde fault store .lwwRegister key register

def persistLwwMapState (key : String) (map : LwwMap) : Except StoreError Store :=
  persistState serde fault store .lwwMap key map

def persistOrsetState (key : String) (set : ORSet) : Except StoreError Store :=
  persistState serde fault store .orset key set

def persistRgaState (key : String) (rga : Rga) : Except StoreError Store :=
  persistState serde fault store .rga key rga

/-- One accepted operation with its sequences; the evictions of a batch ride on
its last operation. -/
structure OpPersistencePlan where
  op : Op
  seenSequence : UInt64
  opLogSequence : UInt64
  seenEvicted : List String
  opLogEvicted : List Op

def collectSeenDeleteKeys (evicted : List String) : List Bytes := evicted.map seenOpStoreKey

def collectOpLogDeleteKeys (evicted : List Op) : List Bytes :=
  evicted.map fun op => opLogStoreKey op.id

/-- The records of the accepted operations of a batch. -/
def planSets (plans : List OpPersistencePlan) : List (Bytes × Bytes) :=
  plans.flatMap fun plan =>
    [(seenOpStoreKey plan.op.id, beBytes 8 plan.seenSequence.toNat),
      (opLogStoreKey plan.op.id, encodeDurableOpLogValue serde plan.opLogSequence plan.op)]

/-- The records a batch deletes. -/
def planDeletes (plans : List OpPersistencePlan) : List Bytes :=
  plans.flatMap fun plan =>
    collectSeenDeleteKeys plan.seenEvicted ++ collectOpLogDeleteKeys plan.opLogEvicted

def persistLocalOpsBatch (plans : List OpPersistencePlan) : Except StoreError Store :=
  if plans.isEmpty then .ok store
  else store.applyBatch fault (planSets serde plans) (planDeletes plans)

/-- The records of all changed entries of one kind, in key order. -/
def changedRecords (k : CrdtKind) (updates : OrdMap String k.State) : List (Bytes × Bytes) :=
  updates.toList.flatMap fun (key, s) => stateRecords serde k key s

/-- The records of all changed entries, kind by kind. -/
def updateSets (updates : Registries) : List (Bytes × Bytes) :=
  changedRecords serde .gcounter updates.counters
    ++ changedRecords serde .pncounter updates.pncounters
    ++ changedRecords serde .lwwRegister updates.lwwRegisters
    ++ changedRecords serde .lwwMap updates.lwwMaps
    ++ changedRecords serde .orset updates.orsets
    ++ changedRecords serde .rga updates.rgas

def persistRemoteOpsBatch (plans : List OpPersistencePlan) (updates : Registries) :
    Except StoreError Store :=
  if plans.isEmpty then .ok store
  else
    store.applyBatch fault (updateSets serde updates ++ planSets serde plans) (planDeletes plans)

end Persist

end Numax
