import Numax.Host.Crdt
import Numax.Host.Db

/-!
# Reading CRDT host calls

The nine guest calls that read a CRDT (`host_api/crdt.rs`). They find the guest memory,
read and check the arguments, find the sync manager, and look at one entry of a registry.
Counters are written as eight bytes, and the size of the buffer is checked before anything
else. Values and lists of any length are checked against the buffer when they are known.
What is asked about an element is returned as the code.
-/

open Base Std

namespace Numax

/-- `i64::to_le_bytes`. -/
def leBytesI64 (n : Int) : Bytes := leBytes 8 (n % 2 ^ 64).toNat

section Calls

variable (h : HostState)

/-- The common body of the two counters. -/
def counterValue (keyPtr keyLen outPtr outCap : UInt32) (value : Registries → String → Bytes) :
    HostState × Int :=
  match h.memory with
  | none => (h, errInternal)
  | some memory =>
    if outCap.toNat < 8 then (h, errBufTooSmall)
    else
      match readValidatedKey memory keyPtr keyLen with
      | .error code => (h, code)
      | .ok key =>
        match h.sync with
        | none => (h, errSyncDisabled)
        | some sync =>
          match memory.write outPtr.toNat (value sync.registries key) with
          | none => (h, errInternal)
          | some memory => ({ h with memory := some memory }, 8)

def gcounterBytes (registries : Registries) (key : String) : Bytes :=
  leBytes 8 ((registries.counters[key]?).elim 0 GCounter.value).toNat

def crdtGcounterValue (keyPtr keyLen outPtr outCap : UInt32) : HostState × Int :=
  counterValue h keyPtr keyLen outPtr outCap gcounterBytes

def pncounterBytes (registries : Registries) (key : String) : Bytes :=
  leBytesI64 ((registries.pncounters[key]?).elim 0 PNCounter.value)

def crdtPncounterValue (keyPtr keyLen outPtr outCap : UInt32) : HostState × Int :=
  counterValue h keyPtr keyLen outPtr outCap pncounterBytes

/-- The common body of the calls that return values and lists. -/
def readOut {α : Type} (outPtr outCap : UInt32) (readArgs : GuestMemory → Except Int α)
    (answer : Registries → α → Except Int Bytes) : HostState × Int :=
  match h.memory with
  | none => (h, errInternal)
  | some memory =>
    if outCap.toNat > maxOutCap then (h, errInternal)
    else
      match readArgs memory with
      | .error code => (h, code)
      | .ok args =>
        match h.sync with
        | none => (h, errSyncDisabled)
        | some sync =>
          match answer sync.registries args with
          | .error code => (h, code)
          | .ok encoded => writeOut h memory outPtr outCap encoded

def lwwBytes (registries : Registries) (key : String) : Except Int Bytes :=
  match registries.lwwRegisters[key]? with
  | none => .error errNotFound
  | some register => .ok register.value

def crdtLwwGet (keyPtr keyLen outPtr outCap : UInt32) : HostState × Int :=
  readOut h outPtr outCap (fun memory => readValidatedKey memory keyPtr keyLen) lwwBytes

/-- A key and a field of a map, or an element of a set. -/
def readKeyAnd (keyPtr keyLen argPtr argLen : UInt32) (maxLen : Nat) (memory : GuestMemory) :
    Except Int (String × String) := do
  let key ← readValidatedKey memory keyPtr keyLen
  let arg ← readUtf8Arg memory argPtr argLen maxLen
  pure (key, arg)

def lwwMapBytes (registries : Registries) (target : String × String) : Except Int Bytes :=
  match registries.lwwMaps[target.1]? with
  | none => .error errNotFound
  | some map =>
    match map.getBytes target.2 with
    | none => .error errNotFound
    | some value => .ok value

def crdtLwwMapGet (keyPtr keyLen fieldPtr fieldLen outPtr outCap : UInt32) : HostState × Int :=
  readOut h outPtr outCap (readKeyAnd keyPtr keyLen fieldPtr fieldLen maxFieldLen) lwwMapBytes

def lwwMapEntriesBytes (registries : Registries) (key : String) : Except Int Bytes :=
  encodeLwwMapEntries ((registries.lwwMaps[key]?).elim [] LwwMap.visibleEntries)

def crdtLwwMapEntries (keyPtr keyLen outPtr outCap : UInt32) : HostState × Int :=
  readOut h outPtr outCap (fun memory => readValidatedKey memory keyPtr keyLen) lwwMapEntriesBytes

def orsetElementsBytes (registries : Registries) (key : String) : Except Int Bytes :=
  encodeStringList ((registries.orsets[key]?).elim [] ORSet.elements)

def crdtOrsetElements (keyPtr keyLen outPtr outCap : UInt32) : HostState × Int :=
  readOut h outPtr outCap (fun memory => readValidatedKey memory keyPtr keyLen) orsetElementsBytes

def rgaValuesBytes (registries : Registries) (key : String) : Except Int Bytes :=
  encodeBytesList ((registries.rgas[key]?).elim [] Rga.values)

def crdtRgaValues (keyPtr keyLen outPtr outCap : UInt32) : HostState × Int :=
  readOut h outPtr outCap (fun memory => readValidatedKey memory keyPtr keyLen) rgaValuesBytes

/-- The common body of the calls that ask about an element. -/
def contained (keyPtr keyLen argPtr argLen : UInt32) (maxLen : Nat)
    (test : Registries → String → String → Bool) : HostState × Int :=
  match h.memory with
  | none => (h, errInternal)
  | some memory =>
    match readKeyAnd keyPtr keyLen argPtr argLen maxLen memory with
    | .error code => (h, code)
    | .ok (key, arg) =>
      match h.sync with
      | none => (h, errSyncDisabled)
      | some sync => (h, if test sync.registries key arg then 1 else 0)

def hasField (registries : Registries) (key field : String) : Bool :=
  (registries.lwwMaps[key]?).elim false fun map => map.contains field

def crdtLwwMapContains (keyPtr keyLen fieldPtr fieldLen : UInt32) : HostState × Int :=
  contained h keyPtr keyLen fieldPtr fieldLen maxFieldLen hasField

def hasElement (registries : Registries) (key element : String) : Bool :=
  (registries.orsets[key]?).elim false fun set => set.contains element

def crdtOrsetContains (keyPtr keyLen elementPtr elementLen : UInt32) : HostState × Int :=
  contained h keyPtr keyLen elementPtr elementLen maxElementLen hasElement

/-- A reading call with its arguments. -/
inductive CrdtReadCall where
  | gcounterValue (keyPtr keyLen outPtr outCap : UInt32)
  | pncounterValue (keyPtr keyLen outPtr outCap : UInt32)
  | lwwGet (keyPtr keyLen outPtr outCap : UInt32)
  | lwwMapGet (keyPtr keyLen fieldPtr fieldLen outPtr outCap : UInt32)
  | lwwMapContains (keyPtr keyLen fieldPtr fieldLen : UInt32)
  | lwwMapEntries (keyPtr keyLen outPtr outCap : UInt32)
  | orsetContains (keyPtr keyLen elementPtr elementLen : UInt32)
  | orsetElements (keyPtr keyLen outPtr outCap : UInt32)
  | rgaValues (keyPtr keyLen outPtr outCap : UInt32)
deriving DecidableEq, Repr

/-- Dispatch, as the linker registers the calls. -/
def crdtRead : CrdtReadCall → HostState × Int
  | .gcounterValue keyPtr keyLen outPtr outCap => crdtGcounterValue h keyPtr keyLen outPtr outCap
  | .pncounterValue keyPtr keyLen outPtr outCap => crdtPncounterValue h keyPtr keyLen outPtr outCap
  | .lwwGet keyPtr keyLen outPtr outCap => crdtLwwGet h keyPtr keyLen outPtr outCap
  | .lwwMapGet keyPtr keyLen fieldPtr fieldLen outPtr outCap =>
    crdtLwwMapGet h keyPtr keyLen fieldPtr fieldLen outPtr outCap
  | .lwwMapContains keyPtr keyLen fieldPtr fieldLen =>
    crdtLwwMapContains h keyPtr keyLen fieldPtr fieldLen
  | .lwwMapEntries keyPtr keyLen outPtr outCap => crdtLwwMapEntries h keyPtr keyLen outPtr outCap
  | .orsetContains keyPtr keyLen elementPtr elementLen =>
    crdtOrsetContains h keyPtr keyLen elementPtr elementLen
  | .orsetElements keyPtr keyLen outPtr outCap => crdtOrsetElements h keyPtr keyLen outPtr outCap
  | .rgaValues keyPtr keyLen outPtr outCap => crdtRgaValues h keyPtr keyLen outPtr outCap

end Calls

end Numax
