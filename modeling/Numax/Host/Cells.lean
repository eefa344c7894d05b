import Numax.Host.Crdt

/-!
# Last-writer-wins cells

A register or one field of a map: what it holds, the operations and the calls that write
it, and the entry that a call stamps.
-/

open Base Std

namespace Numax

/-- A last-writer-wins cell: a register, or one field of a map. -/
inductive LwwSlot where
  | register (key : String)
  | field (key name : String)
deriving DecidableEq, Repr

namespace LwwSlot

/-- What the cell holds; a register is never a tombstone. -/
def entry (r : Registries) : LwwSlot → Option LwwMapEntry
  | register key =>
    (r.lwwRegisters[key]?).map fun reg => .present reg.value reg.timestampMs reg.writer
  | field key name => (r.lwwMaps[key]?).bind fun map => map.entry name

/-- The field of a map that may not exist yet. -/
theorem entry_field (r : Registries) (key name : String) :
    entry r (.field key name) = ((r.lwwMaps[key]?).getD LwwMap.new).entry name := by
  rw [entry]
  cases r.lwwMaps[key]? with
  | none => simp [LwwMap.new, LwwMap.entry]
  | some map => rfl

end LwwSlot

/-- The cell an operation writes, and the entry it writes there. -/
def Op.lwwWrite (op : Op) : Option (LwwSlot × LwwMapEntry) :=
  match op.kind with
  | .lwwRegisterSet key value timestampMs =>
    some (.register key, .present value timestampMs op.origin)
  | .lwwMapSet key field value timestampMs =>
    some (.field key field, .present value timestampMs op.origin)
  | .lwwMapRemove key field timestampMs =>
    some (.field key field, .tombstone timestampMs op.origin)
  | _ => none

/-- A register write that loses against the register it would replace is sent to the peers
and is not kept. -/
def Op.isKept (op : Op) (r : Registries) : Bool :=
  match op.kind with
  | .lwwRegisterSet key value timestampMs =>
    (r.lwwRegisters[key]?).all fun register => (register.assign value timestampMs op.origin).2
  | _ => true

/-- The three calls that write a last-writer-wins cell. -/
def CrdtCall.isLwwWrite : CrdtCall → Bool
  | .lwwSet .. => true
  | .lwwMapSet .. => true
  | .lwwMapRemove .. => true
  | _ => false

/-- The cell a call names and the content it is to have; `none` for a removal. -/
def CrdtCall.lwwTarget (memory : GuestMemory) : CrdtCall → Except Int (LwwSlot × Option Bytes)
  | .lwwSet keyPtr keyLen valuePtr valueLen => do
    let key ← readValidatedKey memory keyPtr keyLen
    let value ← readValueBytes memory valuePtr valueLen
    pure (.register key, some value)
  | .lwwMapSet keyPtr keyLen fieldPtr fieldLen valuePtr valueLen => do
    let key ← readValidatedKey memory keyPtr keyLen
    let field ← readUtf8Arg memory fieldPtr fieldLen maxFieldLen
    let value ← readValueBytes memory valuePtr valueLen
    pure (.field key field, some value)
  | .lwwMapRemove keyPtr keyLen fieldPtr fieldLen => do
    let key ← readValidatedKey memory keyPtr keyLen
    let field ← readUtf8Arg memory fieldPtr fieldLen maxFieldLen
    pure (.field key field, none)
  | _ => .error errInternal

/-- The entry a local write is stamped with. -/
def SyncState.stamped (sync : SyncState) (slot : LwwSlot) (content : Option Bytes)
    (observed : UInt64) : LwwMapEntry where
  value := content
  timestampMs := nextTimestamp observed
    ((slot.entry sync.registries).map LwwMapEntry.timestampMs)
  writer := sync.nodeId

end Numax
