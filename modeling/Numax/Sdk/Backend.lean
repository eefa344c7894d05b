import Numax.Host.Cells
import Numax.Sdk.Calls

/-!
# What the guest library offers

The library without pointers, codes and buffers: a typed interface over the store and the
sync state (`Backend`). A call checks its arguments in the order the host looks at them, and
then changes the state or answers from it. A change of a CRDT is the operation that the call
issues (`CrdtWrite.op`); it takes effect, is made durable and is queued, or nothing happens.

This is a statement of what the calls are for. That the library over the host does just
this is proved in `Numax.Theorems.SdkRefinement`.
-/

open Base Std

namespace Numax

structure Backend where
  store : Store
  sync : Option SyncState

def HostState.backend (h : HostState) : Backend := { store := h.store, sync := h.sync }

@[simp] theorem HostState.backend_store (h : HostState) : h.backend.store = h.store := rfl

@[simp] theorem HostState.backend_sync (h : HostState) : h.backend.sync = h.sync := rfl

def callFailed (error : NxError) : SdkResult := .error (.error error)

/-! ## Arguments -/

/-- A key is short enough and outside the reserved prefix. -/
def checkKey (key : String) : Except NxError Unit :=
  if (asBytes key).length > maxKeyLen then .error .internal
  else if isReserved (asBytes key) then .error .reservedKey
  else .ok ()

def checkLen (bytes : Bytes) (maxLen : Nat) : Except NxError Unit :=
  if bytes.length > maxLen then .error .internal else .ok ()

/-- The wall clock is within range. -/
def checkClock (env : CallEnv) : Except NxError Unit :=
  if env.now.isNone then .error .internal else .ok ()

def checkKeyAnd (key arg : String) (maxLen : Nat) : Except NxError Unit := do
  checkKey key
  checkLen (asBytes arg) maxLen

/-- A result that has to fit into the largest buffer. -/
def sized (len : Nat) (value : SdkValue) : SdkResult :=
  if len > maxSdkBuffer then callFailed .bufferTooSmall else .ok value

/-- A list has to have an encoding, which has to fit. -/
def listed (encoded : Except Int Bytes) (value : SdkValue) : SdkResult :=
  match encoded with
  | .error _ => callFailed .internal
  | .ok encoded => sized encoded.length value

/-! ## Changes -/

namespace CrdtWrite

def check (env : CallEnv) : CrdtWrite → Except NxError Unit
  | gcounterInc key _ => checkKey key
  | pncounterInc key _ => checkKey key
  | pncounterDec key _ => checkKey key
  | lwwSet key value => do
    checkKey key
    checkLen value maxValueLen
    checkClock env
  | lwwMapSet key field value => do
    checkKey key
    checkLen (asBytes field) maxFieldLen
    checkLen value maxValueLen
    checkClock env
  | lwwMapRemove key field => do
    checkKey key
    checkLen (asBytes field) maxFieldLen
    checkClock env
  | orsetAdd key element => checkKeyAnd key element maxElementLen
  | orsetRemove key element => checkKeyAnd key element maxElementLen
  | rgaInsertAfter key parent value => do
    checkKey key
    checkLen (asBytes (parent.getD "")) maxRgaIdLen
    checkLen value maxValueLen
  | rgaDelete key id => checkKeyAnd key id maxRgaIdLen

/-- The operation that the call issues. To remove what is not there takes none. -/
def op (env : CallEnv) (sync : SyncState) : CrdtWrite → Option Op
  | gcounterInc key delta => some (.gcounterIncrement env.opId sync.nodeId key delta)
  | pncounterInc key delta => some (.pncounterIncrement env.opId sync.nodeId key delta)
  | pncounterDec key delta => some (.pncounterDecrement env.opId sync.nodeId key delta)
  | lwwSet key value =>
    some (.lwwRegisterSet env.opId sync.nodeId key value
      (nextTimestamp (env.now.getD 0)
        ((sync.registries.lwwRegisters[key]?).map LwwRegister.timestampMs)))
  | lwwMapSet key field value =>
    some (.lwwMapSet env.opId sync.nodeId key field value
      (nextTimestamp (env.now.getD 0)
        ((((sync.registries.lwwMaps[key]?).getD LwwMap.new).entry field).map
          LwwMapEntry.timestampMs)))
  | lwwMapRemove key field =>
    some (.lwwMapRemove env.opId sync.nodeId key field
      (nextTimestamp (env.now.getD 0)
        ((((sync.registries.lwwMaps[key]?).getD LwwMap.new).entry field).map
          LwwMapEntry.timestampMs)))
  | orsetAdd key element => some (.orsetAddWithOpIdTag env.opId sync.nodeId key element)
  | orsetRemove key element =>
    let observedTags := (((sync.registries.orsets[key]?).getD ORSet.new).remove element).2
    if observedTags.isEmpty then none
    else some (.orsetRemove env.opId sync.nodeId key element observedTags)
  | rgaInsertAfter key parent value =>
    -- an empty parent is none
    some (.rgaInsertWithOpId env.opId sync.nodeId key (parent.filter (· ≠ "")) value)
  | rgaDelete key id => some (.rgaDelete env.opId sync.nodeId key id)

/-- What the call returns. -/
def answer (env : CallEnv) : CrdtWrite → SdkValue
  | rgaInsertAfter .. => .id env.opId
  | _ => .unit

/-- Room that the answer takes. -/
def answerLen (env : CallEnv) : CrdtWrite → Nat
  | rgaInsertAfter .. => (asBytes env.opId).length
  | _ => 0

end CrdtWrite

namespace Backend

variable (serde : Serde) (env : CallEnv) (b : Backend)

/-- An operation takes effect. -/
def issue (sync : SyncState) (op : Op) : Except NxError Backend :=
  let queued := { sync with opQueue := { sync.opQueue with ops := sync.opQueue.ops ++ [op] } }
  if op.isKept sync.registries then
    match persistState serde env.fault b.store op.kind.crdtKind op.kind.key
        (op.newEntry sync.registries) with
    | .error _ => .error .internal
    | .ok store =>
      .ok { store, sync := some { queued with registries := applyOp sync.registries op } }
  else .ok { b with sync := some queued }

def write (c : CrdtWrite) : Backend × SdkResult :=
  match c.check env with
  | .error error => (b, callFailed error)
  | .ok () =>
    match b.sync with
    | none => (b, callFailed .syncDisabled)
    | some sync =>
      if sync.opQueue.tryReserve.isNone then (b, callFailed .internal)
      else if c.answerLen env > maxSdkBuffer then (b, callFailed .bufferTooSmall)
      else
        match c.op env sync with
        | none => (b, .ok (c.answer env))
        | some op =>
          match b.issue serde env sync op with
          | .error error => (b, callFailed error)
          | .ok after => (after, .ok (c.answer env))

end Backend

/-! ## Questions -/

namespace CrdtQuery

def check : CrdtQuery → Except NxError Unit
  | gcounterValue key => checkKey key
  | pncounterValue key => checkKey key
  | lwwGet key => checkKey key
  | lwwMapGet key field => checkKeyAnd key field maxFieldLen
  | lwwMapContains key field => checkKeyAnd key field maxFieldLen
  | lwwMapEntries key => checkKey key
  | orsetContains key element => checkKeyAnd key element maxElementLen
  | orsetElements key => checkKey key
  | rgaValues key => checkKey key

/-- The answer from the entry of the key. -/
def answer (r : Registries) : CrdtQuery → SdkResult
  | gcounterValue key => .ok (.unsigned ((r.counters[key]?).elim 0 GCounter.value))
  | pncounterValue key => .ok (.signed ((r.pncounters[key]?).elim 0 PNCounter.value))
  | lwwGet key =>
    match r.lwwRegisters[key]? with
    | none => .ok (.bytes none)
    | some register => sized register.value.length (.bytes (some register.value))
  | lwwMapGet key field =>
    match (r.lwwMaps[key]?).bind fun map => map.getBytes field with
    | none => .ok (.bytes none)
    | some value => sized value.length (.bytes (some value))
  | lwwMapContains key field =>
    .ok (.flag ((r.lwwMaps[key]?).elim false fun map => map.contains field))
  | lwwMapEntries key =>
    let entries := (r.lwwMaps[key]?).elim [] LwwMap.visibleEntries
    listed (encodeLwwMapEntries entries) (.entries entries)
  | orsetContains key element =>
    .ok (.flag ((r.orsets[key]?).elim false fun set => set.contains element))
  | orsetElements key =>
    let elements := (r.orsets[key]?).elim [] ORSet.elements
    listed (encodeStringList elements) (.texts elements)
  | rgaValues key =>
    let values := (r.rgas[key]?).elim [] Rga.values
    listed (encodeBytesList values) (.chunks values)

end CrdtQuery

namespace Backend

variable (serde : Serde) (env : CallEnv) (b : Backend)

def query (c : CrdtQuery) : SdkResult :=
  match c.check with
  | .error error => callFailed error
  | .ok () =>
    match b.sync with
    | none => callFailed .syncDisabled
    | some sync => c.answer sync.registries

/-! ## Keys and values -/

def dbGet (key : String) : SdkResult :=
  match checkKey key with
  | .error error => callFailed error
  | .ok () =>
    match b.store.get env.fault (asBytes key) with
    | .error _ => callFailed .internal
    | .ok none => .ok (.bytes none)
    | .ok (some value) => sized value.length (.bytes (some value))

def dbExists (key : String) : SdkResult :=
  match checkKey key with
  | .error error => callFailed error
  | .ok () =>
    match b.store.existsKey env.fault (asBytes key) with
    | .error _ => callFailed .internal
    | .ok found => .ok (.flag found)

/-- A change of the store. -/
def dbUpdate (check : Except NxError Unit) (access : Store → Except StoreError Store) :
    Backend × SdkResult :=
  match check with
  | .error error => (b, callFailed error)
  | .ok () =>
    match access b.store with
    | .error _ => (b, callFailed .internal)
    | .ok store => ({ b with store }, .ok .unit)

/-- The length of the value is looked at first. -/
def dbSet (key : String) (value : Bytes) : Backend × SdkResult :=
  b.dbUpdate (do
    checkLen value maxValueLen
    checkKey key) fun store => store.set env.fault (asBytes key) value

def dbDelete (key : String) : Backend × SdkResult :=
  b.dbUpdate (checkKey key) fun store => store.delete env.fault (asBytes key)

def call : SdkCall → Backend × SdkResult
  | .dbSet key value => b.dbSet env key value
  | .dbDelete key => b.dbDelete env key
  | .dbExists key => (b, b.dbExists env key)
  | .dbGet key => (b, b.dbGet env key)
  | .write c => b.write serde env c
  | .query c => (b, b.query c)

end Backend

/-- One call after the other, with the results. -/
def Backend.session (serde : Serde) : Backend → List (SdkCall × CallEnv) →
    Backend × List SdkResult
  | b, [] => (b, [])
  | b, (c, env) :: rest =>
    let (b, result) := b.call serde env c
    let (b, results) := Backend.session serde b rest
    (b, result :: results)

end Numax
