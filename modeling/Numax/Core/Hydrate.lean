import Numax.Core.Storage
import Mathlib.Data.List.Sort

/-!
# Hydration

How a starting node rebuilds its state from the store (`storage.rs`,
`manager.rs`): the operation log and the seen ids by their sequences, then the
registries from their state records. Hydration also writes: evicted records are
deleted and every materialized record is rewritten from its state.
-/

open Base Std

namespace Numax

/-- Why hydration stops. -/
inductive HydrateError where
  | store (error : StoreError)
  | corruptedKey (kind : CrdtKind) (error : KeyError)
  | corruptedState (kind : CrdtKind) (key : String) (error : String)
deriving DecidableEq, Repr

/-- An access to the store during hydration. -/
def ofStore {α : Type} : Except StoreError α → Except HydrateError α
  | .ok a => .ok a
  | .error e => .error (.store e)

/-! ## Parsing -/

def parseSeenOpSequence (bytes : Bytes) : Option UInt64 :=
  if bytes.length = 8 then some (UInt64.ofNat (ofBe bytes)) else none

def parseMaterializedGcounterValue (bytes : Bytes) : Option UInt64 :=
  if bytes.length = 8 then some (UInt64.ofNat (ofLe bytes)) else none

/-- `i64::from_le_bytes`. -/
def parseMaterializedPncounterValue (bytes : Bytes) : Option Int :=
  if bytes.length = 8 then some (Int.bmod (ofLe bytes) (2 ^ 64)) else none

section Serde

variable (serde : Serde)

def parseDurableOpLogValue (bytes : Bytes) : Option (UInt64 × Op) :=
  if bytes.length < 8 then none
  else
    match serde.op.fromBytes (bytes.drop 8) with
    | .ok op => some (UInt64.ofNat (ofBe (bytes.take 8)), op)
    | .error _ => none

def parseDurableState (k : CrdtKind) (bytes : Bytes) : Except String k.State :=
  match fromUtf8 bytes with
  | none => .error "invalid UTF-8"
  | some json => (serde.state k).fromJson json

end Serde

/-! ## Seen ids and operation log -/

variable (serde : Serde) (fault : Option StoreError) (store : Store)

/-- Sequence order; the sort is stable. -/
def bySequence {α : Type} (a b : UInt64 × α) : Prop := a.1.toNat ≤ b.1.toNat

instance {α : Type} : DecidableRel (bySequence (α := α)) :=
  fun a b => inferInstanceAs (Decidable (a.1.toNat ≤ b.1.toNat))

/-- Collect the readable records and the next free sequence. -/
def collectSequenced {α : Type} (read : Bytes × Bytes → Option (UInt64 × α))
    (entries : List (Bytes × Bytes)) : List (UInt64 × α) × UInt64 :=
  entries.foldl (fun (ordered, nextSequence) entry =>
    match read entry with
    | none => (ordered, nextSequence)
    | some (sequence, a) =>
      (ordered ++ [(sequence, a)], max nextSequence (satAdd sequence 1))) ([], 0)

def readSeenOp (entry : Bytes × Bytes) : Option (UInt64 × String) :=
  match logicalKeyForPrefix entry.1 seenOpStorePrefix with
  | .error _ => none
  | .ok opId => (parseSeenOpSequence entry.2).map fun sequence => (sequence, opId)

def persistSeenOpEvictions (evicted : List String) : Except StoreError Store :=
  if evicted.isEmpty then .ok store
  else store.applyBatch fault [] (evicted.map seenOpStoreKey)

/-- Insert ids in sequence order, collecting what falls out of the window. -/
def replaySeen (seen : SeenOps) (opIds : List String) : SeenOps × List String :=
  opIds.foldl (fun (seen, evicted) opId =>
    match seen.insert opId with
    | (seen, .inserted evictedIds) => (seen, evicted ++ evictedIds)
    | (seen, .alreadySeen) => (seen, evicted)) (seen, [])

def hydrateSeenOps (limit : Nat) : Except StoreError ((SeenOps × UInt64) × Store) := do
  let entries ← store.scanPrefix fault (asBytes seenOpStorePrefix)
  let (ordered, nextSequence) := collectSequenced readSeenOp entries
  let ordered := ordered.insertionSort bySequence
  let (seen, evicted) := replaySeen (SeenOps.new (normalizeSeenOpsLimit limit))
    (ordered.map Prod.snd)
  let store ← persistSeenOpEvictions fault store evicted
  pure ((seen, nextSequence), store)

/-- A log record whose value names another operation than its key is skipped. -/
def readOpLog (entry : Bytes × Bytes) : Option (UInt64 × Op) :=
  match logicalKeyForPrefix entry.1 opLogStorePrefix with
  | .error _ => none
  | .ok opId =>
    match parseDurableOpLogValue serde entry.2 with
    | none => none
    | some (sequence, op) => if op.id ≠ opId then none else some (sequence, op)

def persistOpLogEvictions (evicted : List Op) : Except StoreError Store :=
  if evicted.isEmpty then .ok store
  else store.applyBatch fault [] (collectOpLogDeleteKeys evicted)

def hydrateOpLog (limit : Nat) : Except StoreError ((List Op × UInt64) × Store) := do
  let limit := normalizeOpLogLimit limit
  let entries ← store.scanPrefix fault (asBytes opLogStorePrefix)
  let (ordered, nextSequence) := collectSequenced (readOpLog serde) entries
  let opLog := (ordered.insertionSort bySequence).map Prod.snd
  let (opLog, evicted) := pruneOpLogAndReturnEvicted opLog limit
  let store ← persistOpLogEvictions fault store evicted
  pure ((opLog, nextSequence), store)

/-! ## Registries -/

/-- One state record: decode it, rewrite its materialized record, publish it. -/
def hydrateStateRecord (k : CrdtKind) (acc : OrdMap String k.State × Store)
    (entry : Bytes × Bytes) : Except HydrateError (OrdMap String k.State × Store) :=
  match logicalKeyForPrefix entry.1 (k.table .state).dataPrefix with
  | .error e => .error (.corruptedKey k e)
  | .ok key =>
    match parseDurableState serde k entry.2 with
    | .error e => .error (.corruptedState k key e)
    | .ok state => do
      let store ← ofStore (acc.2.set fault (crdtStoreKey k .materialized key)
        (render serde k state))
      pure (acc.1.insert key state, store)

/-- `hydrate_durable_*_state`. -/
def hydrateDurableState (k : CrdtKind) (registry : OrdMap String k.State) :
    Except HydrateError (OrdMap String k.State × Store) := do
  let entries ← ofStore (store.scanPrefix fault (asBytes (k.table .state).dataPrefix))
  entries.foldlM (hydrateStateRecord serde fault k) (registry, store)

/-- Counters that only have a materialized value start from it, counted as the
node's own. -/
def hydrateMaterializedGcounterValues (nodeId : NodeId) (counters : OrdMap String GCounter) :
    Except HydrateError (OrdMap String GCounter) := do
  let entries ← ofStore (store.scanPrefix fault (asBytes gcounterStorePrefix))
  pure (entries.foldl (fun counters entry =>
    match logicalKeyForPrefix entry.1 gcounterStorePrefix with
    | .error _ => counters
    | .ok key =>
      match parseMaterializedGcounterValue entry.2 with
      | none => counters
      | some value =>
        if counters.contains key then counters
        else counters.insert key (GCounter.new.increment nodeId value)) counters)

def hydrateMaterializedPncounterValues (nodeId : NodeId) (counters : OrdMap String PNCounter) :
    Except HydrateError (OrdMap String PNCounter) := do
  let entries ← ofStore (store.scanPrefix fault (asBytes pncounterStorePrefix))
  pure (entries.foldl (fun counters entry =>
    match logicalKeyForPrefix entry.1 pncounterStorePrefix with
    | .error _ => counters
    | .ok key =>
      match parseMaterializedPncounterValue entry.2 with
      | none => counters
      | some value =>
        if counters.contains key then counters
        else if value ≥ 0 then
          counters.insert key (PNCounter.new.increment nodeId (UInt64.ofNat value.toNat))
        else
          counters.insert key (PNCounter.new.decrement nodeId (UInt64.ofNat value.natAbs)))
    counters)

/-- What hydration gives a starting node. -/
structure Hydrated where
  registries : Registries
  seenOps : SeenOps
  seenOpsNextSequence : UInt64
  opLog : List Op
  opLogNextSequence : UInt64

/-- The hydration of a starting node, in the order of the source. -/
def hydrate (nodeId : NodeId) (opLogLimit seenOpsLimit : Nat) :
    Except HydrateError (Hydrated × Store) := do
  let ((opLog, opLogNextSequence), store) ← ofStore (hydrateOpLog serde fault store opLogLimit)
  let ((seenOps, seenOpsNextSequence), store) ← ofStore (hydrateSeenOps fault store seenOpsLimit)
  let (counters, store) ← hydrateDurableState serde fault store .gcounter ∅
  let counters ← hydrateMaterializedGcounterValues fault store nodeId counters
  let (pncounters, store) ← hydrateDurableState serde fault store .pncounter ∅
  let pncounters ← hydrateMaterializedPncounterValues fault store nodeId pncounters
  let (lwwRegisters, store) ← hydrateDurableState serde fault store .lwwRegister ∅
  let (lwwMaps, store) ← hydrateDurableState serde fault store .lwwMap ∅
  let (orsets, store) ← hydrateDurableState serde fault store .orset ∅
  let (rgas, store) ← hydrateDurableState serde fault store .rga ∅
  pure
    ({ registries := { counters, pncounters, lwwRegisters, lwwMaps, orsets, rgas }
       seenOps, seenOpsNextSequence, opLog, opLogNextSequence }, store)

end Numax
