import Numax.Host.Memory
import Numax.Core.Apply

/-!
# Mutating CRDT host calls

The ten guest calls that change a CRDT (`host_api/crdt.rs`). All follow one
scheme, `localCall`: find the guest memory, read and check the arguments, find
the sync manager, reserve a queue slot, work out the change, persist it,
publish it, queue the operation. `crdt_rga_insert` also returns the new element
id through guest memory, after publishing, and has its own body.
-/

open Base Std

namespace Numax

/-! ## Reading arguments -/

/-- A UTF-8 key of bounded length outside the reserved prefix. -/
def readValidatedKey (memory : GuestMemory) (ptr len : UInt32) : Except Int String :=
  if len.toNat > maxKeyLen then .error errInternal
  else
    match memory.read ptr.toNat len.toNat with
    | none => .error errInternal
    | some buf =>
      match fromUtf8 buf with
      | none => .error errInternal
      | some key =>
        if startsWith (asBytes key) (asBytes reservedPrefix) then .error errReservedKey
        else .ok key

def readValueBytes (memory : GuestMemory) (ptr len : UInt32) : Except Int Bytes :=
  if len.toNat > maxValueLen then .error errInternal
  else
    match memory.read ptr.toNat len.toNat with
    | none => .error errInternal
    | some buf => .ok buf

def readUtf8Arg (memory : GuestMemory) (ptr len : UInt32) (maxLen : Nat) : Except Int String :=
  if len.toNat > maxLen then .error errInternal
  else
    match memory.read ptr.toNat len.toNat with
    | none => .error errInternal
    | some buf =>
      match fromUtf8 buf with
      | none => .error errInternal
      | some arg => .ok arg

/-- The wall clock; before the epoch or beyond `u64` it is an error. -/
def unixEpochMillis (env : CallEnv) : Except Int UInt64 :=
  match env.now with
  | none => .error errInternal
  | some millis => .ok millis

/-! ## The common scheme -/

/-- What a call decides once it holds a queue slot. -/
inductive LocalPlan where
  /-- return 0 and give the slot back -/
  | unchanged
  /-- persist and publish an entry, then queue the operation -/
  | publish (kind : CrdtKind) (key : String) (state : kind.State) (op : Op)
  /-- queue the operation only -/
  | queueOnly (op : Op)

def localCall {α : Type} (serde : Serde) (env : CallEnv) (h : HostState)
    (readArgs : GuestMemory → Except Int α) (plan : SyncState → α → LocalPlan) :
    HostState × Int :=
  match h.memory with
  | none => (h, errInternal)
  | some memory =>
    match readArgs memory with
    | .error code => (h, code)
    | .ok args =>
      match h.sync with
      | none => (h, errSyncDisabled)
      | some sync =>
        match sync.opQueue.tryReserve with
        | none => (h, errInternal)
        | some permit =>
          match plan sync args with
          | .unchanged =>
            ({ h with sync := some { sync with opQueue := permit.release } }, 0)
          | .publish kind key state op =>
            match persistState serde env.fault h.store kind key state with
            | .error _ =>
              ({ h with sync := some { sync with opQueue := permit.release } },
                errInternal)
            | .ok store =>
              ({ h with
                  store
                  sync := some { sync with
                    registries := sync.registries.insert kind key state
                    opQueue := permit.send op } }, 0)
          | .queueOnly op =>
            ({ h with sync := some { sync with opQueue := permit.send op } }, 0)

/-! ## The calls -/

section Calls

variable (serde : Serde) (env : CallEnv) (h : HostState)

def crdtGcounterInc (keyPtr keyLen : UInt32) (delta : UInt64) : HostState × Int :=
  localCall serde env h (fun memory => readValidatedKey memory keyPtr keyLen) fun sync key =>
    let counter := ((sync.registries.counters[key]?).getD GCounter.new).increment sync.nodeId delta
    .publish .gcounter key counter (.gcounterIncrement env.opId sync.nodeId key delta)

inductive PNCounterChange where
  | increment
  | decrement
deriving DecidableEq, Repr

def crdtPncounterChange (keyPtr keyLen : UInt32) (delta : UInt64) (change : PNCounterChange) :
    HostState × Int :=
  localCall serde env h (fun memory => readValidatedKey memory keyPtr keyLen) fun sync key =>
    let counter := (sync.registries.pncounters[key]?).getD PNCounter.new
    match change with
    | .increment =>
      .publish .pncounter key (counter.increment sync.nodeId delta)
        (.pncounterIncrement env.opId sync.nodeId key delta)
    | .decrement =>
      .publish .pncounter key (counter.decrement sync.nodeId delta)
        (.pncounterDecrement env.opId sync.nodeId key delta)

def crdtPncounterInc (keyPtr keyLen : UInt32) (delta : UInt64) : HostState × Int :=
  crdtPncounterChange serde env h keyPtr keyLen delta .increment

def crdtPncounterDec (keyPtr keyLen : UInt32) (delta : UInt64) : HostState × Int :=
  crdtPncounterChange serde env h keyPtr keyLen delta .decrement

/-- The timestamp of a local write: the clock, pushed past the existing entry. -/
def nextTimestamp (observed : UInt64) (existing : Option UInt64) : UInt64 :=
  match existing with
  | none => observed
  | some timestampMs => max observed (satAdd timestampMs 1)

def crdtLwwSet (keyPtr keyLen valuePtr valueLen : UInt32) : HostState × Int :=
  localCall serde env h
    (fun memory => do
      let key ← readValidatedKey memory keyPtr keyLen
      let value ← readValueBytes memory valuePtr valueLen
      let observed ← unixEpochMillis env
      pure (key, value, observed))
    fun sync (key, value, observed) =>
      let existing := sync.registries.lwwRegisters[key]?
      let timestampMs := nextTimestamp observed (existing.map LwwRegister.timestampMs)
      let candidate : LwwRegister := { value, timestampMs, writer := sync.nodeId }
      let op := Op.lwwRegisterSet env.opId sync.nodeId key value timestampMs
      match existing with
      | some register =>
        let (next, won) := register.merge candidate
        if won then .publish .lwwRegister key next op else .queueOnly op
      | none => .publish .lwwRegister key candidate op

def crdtLwwMapSet (keyPtr keyLen fieldPtr fieldLen valuePtr valueLen : UInt32) :
    HostState × Int :=
  localCall serde env h
    (fun memory => do
      let key ← readValidatedKey memory keyPtr keyLen
      let field ← readUtf8Arg memory fieldPtr fieldLen maxFieldLen
      let value ← readValueBytes memory valuePtr valueLen
      let observed ← unixEpochMillis env
      pure (key, field, value, observed))
    fun sync (key, field, value, observed) =>
      let map := (sync.registries.lwwMaps[key]?).getD LwwMap.new
      let timestampMs := nextTimestamp observed ((map.entry field).map LwwMapEntry.timestampMs)
      .publish .lwwMap key (map.set field value timestampMs sync.nodeId).1
        (.lwwMapSet env.opId sync.nodeId key field value timestampMs)

def crdtLwwMapRemove (keyPtr keyLen fieldPtr fieldLen : UInt32) : HostState × Int :=
  localCall serde env h
    (fun memory => do
      let key ← readValidatedKey memory keyPtr keyLen
      let field ← readUtf8Arg memory fieldPtr fieldLen maxFieldLen
      let observed ← unixEpochMillis env
      pure (key, field, observed))
    fun sync (key, field, observed) =>
      let map := (sync.registries.lwwMaps[key]?).getD LwwMap.new
      let timestampMs := nextTimestamp observed ((map.entry field).map LwwMapEntry.timestampMs)
      .publish .lwwMap key (map.remove field timestampMs sync.nodeId).1
        (.lwwMapRemove env.opId sync.nodeId key field timestampMs)

def crdtOrsetAdd (keyPtr keyLen elementPtr elementLen : UInt32) : HostState × Int :=
  localCall serde env h
    (fun memory => do
      let key ← readValidatedKey memory keyPtr keyLen
      let element ← readUtf8Arg memory elementPtr elementLen maxElementLen
      pure (key, element))
    fun sync (key, element) =>
      let set := (sync.registries.orsets[key]?).getD ORSet.new
      .publish .orset key (set.add element env.opId).1
        (.orsetAddWithOpIdTag env.opId sync.nodeId key element)

/-- Removing an element without observed adds changes and queues nothing. -/
def crdtOrsetRemove (keyPtr keyLen elementPtr elementLen : UInt32) : HostState × Int :=
  localCall serde env h
    (fun memory => do
      let key ← readValidatedKey memory keyPtr keyLen
      let element ← readUtf8Arg memory elementPtr elementLen maxElementLen
      pure (key, element))
    fun sync (key, element) =>
      let set := (sync.registries.orsets[key]?).getD ORSet.new
      let (set, observedTags) := set.remove element
      if observedTags.isEmpty then .unchanged
      else
        .publish .orset key set (.orsetRemove env.opId sync.nodeId key element observedTags)

def crdtRgaDelete (keyPtr keyLen idPtr idLen : UInt32) : HostState × Int :=
  localCall serde env h
    (fun memory => do
      let key ← readValidatedKey memory keyPtr keyLen
      let id ← readUtf8Arg memory idPtr idLen maxRgaIdLen
      pure (key, id))
    fun sync (key, id) =>
      let rga := (sync.registries.rgas[key]?).getD Rga.new
      .publish .rga key (rga.delete id).1 (.rgaDelete env.opId sync.nodeId key id)

structure RgaInsertArgs where
  keyPtr : UInt32
  keyLen : UInt32
  parentPtr : UInt32
  parentLen : UInt32
  valuePtr : UInt32
  valueLen : UInt32
  outIdPtr : UInt32
  outIdCap : UInt32
deriving DecidableEq, Repr

/-- The arguments of an insertion; an empty parent means the head. -/
def readRgaInsertArgs (memory : GuestMemory) (args : RgaInsertArgs) :
    Except Int (String × Option String × Bytes) :=
  if args.outIdCap.toNat > maxOutCap then .error errInternal
  else do
    let key ← readValidatedKey memory args.keyPtr args.keyLen
    let parent ←
      if args.parentLen = 0 then pure none
      else some <$> readUtf8Arg memory args.parentPtr args.parentLen maxRgaIdLen
    let value ← readValueBytes memory args.valuePtr args.valueLen
    pure (key, parent, value)

/-- Insert after a parent and write the new element id to the guest. The id is
written after the entry is published: if that write fails, the call reports an
error and the operation is not queued. -/
def crdtRgaInsert (args : RgaInsertArgs) : HostState × Int :=
  match h.memory with
  | none => (h, errInternal)
  | some memory =>
    match readRgaInsertArgs memory args with
    | .error code => (h, code)
    | .ok (key, parent, value) =>
      match h.sync with
      | none => (h, errSyncDisabled)
      | some sync =>
        match sync.opQueue.tryReserve with
        | none => (h, errInternal)
        | some permit =>
          let released := { h with sync := some { sync with opQueue := permit.release } }
          let op := Op.rgaInsertWithOpId env.opId sync.nodeId key parent value
          let idBytes := asBytes env.opId
          if idBytes.length > args.outIdCap.toNat then (released, errBufTooSmall)
          else
            let rga := (sync.registries.rgas[key]?).getD Rga.new
            let rga := (rga.insert env.opId parent value).1
            match persistRgaState serde env.fault h.store key rga with
            | .error _ => (released, errInternal)
            | .ok store =>
              let registries := sync.registries.insert .rga key rga
              match memory.write args.outIdPtr.toNat idBytes with
              | none =>
                ({ h with
                    store
                    sync := some { sync with
                      registries
                      opQueue := permit.release } }, errInternal)
              | some memory =>
                ({ memory := some memory
                   store
                   sync := some { sync with
                     registries
                     opQueue := permit.send op } }, asI32 idBytes.length)

/-- A mutating call with its arguments. -/
inductive CrdtCall where
  | gcounterInc (keyPtr keyLen : UInt32) (delta : UInt64)
  | pncounterInc (keyPtr keyLen : UInt32) (delta : UInt64)
  | pncounterDec (keyPtr keyLen : UInt32) (delta : UInt64)
  | lwwSet (keyPtr keyLen valuePtr valueLen : UInt32)
  | lwwMapSet (keyPtr keyLen fieldPtr fieldLen valuePtr valueLen : UInt32)
  | lwwMapRemove (keyPtr keyLen fieldPtr fieldLen : UInt32)
  | orsetAdd (keyPtr keyLen elementPtr elementLen : UInt32)
  | orsetRemove (keyPtr keyLen elementPtr elementLen : UInt32)
  | rgaInsert (args : RgaInsertArgs)
  | rgaDelete (keyPtr keyLen idPtr idLen : UInt32)
deriving DecidableEq, Repr

/-- Dispatch, as the linker registers the calls. -/
def crdtCall : CrdtCall → HostState × Int
  | .gcounterInc keyPtr keyLen delta => crdtGcounterInc serde env h keyPtr keyLen delta
  | .pncounterInc keyPtr keyLen delta => crdtPncounterInc serde env h keyPtr keyLen delta
  | .pncounterDec keyPtr keyLen delta => crdtPncounterDec serde env h keyPtr keyLen delta
  | .lwwSet keyPtr keyLen valuePtr valueLen =>
    crdtLwwSet serde env h keyPtr keyLen valuePtr valueLen
  | .lwwMapSet keyPtr keyLen fieldPtr fieldLen valuePtr valueLen =>
    crdtLwwMapSet serde env h keyPtr keyLen fieldPtr fieldLen valuePtr valueLen
  | .lwwMapRemove keyPtr keyLen fieldPtr fieldLen =>
    crdtLwwMapRemove serde env h keyPtr keyLen fieldPtr fieldLen
  | .orsetAdd keyPtr keyLen elementPtr elementLen =>
    crdtOrsetAdd serde env h keyPtr keyLen elementPtr elementLen
  | .orsetRemove keyPtr keyLen elementPtr elementLen =>
    crdtOrsetRemove serde env h keyPtr keyLen elementPtr elementLen
  | .rgaInsert args => crdtRgaInsert serde env h args
  | .rgaDelete keyPtr keyLen idPtr idLen => crdtRgaDelete serde env h keyPtr keyLen idPtr idLen

end Calls

end Numax
