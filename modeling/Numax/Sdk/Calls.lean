import Numax.Host.CrdtReads
import Numax.Sdk.Scan

/-!
# Calls of the guest library

The functions of `nx-sdk` over the host calls: `db.rs` without the scans, and `crdt/`. A
function hands the host pointers into the guest's memory, and turns the code, and what the
host has written, into a result. Where the length of the result is not known, the function
starts with a small buffer and doubles it while the host finds it too small.

Where the slices of a call lie is up to the guest's allocator, and may differ from attempt
to attempt, as may the clock, the id of the next operation and the failures of the store
(`CallSite`). The loop is unbounded in the source; here it takes fuel and returns `none`
when that runs out.
-/

open Base

namespace Numax

/-! ## Calls and results -/

/-- The functions that change a CRDT. -/
inductive CrdtWrite where
  | gcounterInc (key : String) (delta : UInt64)
  | pncounterInc (key : String) (delta : UInt64)
  | pncounterDec (key : String) (delta : UInt64)
  | lwwSet (key : String) (value : Bytes)
  | lwwMapSet (key field : String) (value : Bytes)
  | lwwMapRemove (key field : String)
  | orsetAdd (key element : String)
  | orsetRemove (key element : String)
  | rgaInsertAfter (key : String) (parent : Option String) (value : Bytes)
  | rgaDelete (key id : String)
deriving DecidableEq, Repr

/-- The functions that read a CRDT. -/
inductive CrdtQuery where
  | gcounterValue (key : String)
  | pncounterValue (key : String)
  | lwwGet (key : String)
  | lwwMapGet (key field : String)
  | lwwMapContains (key field : String)
  | lwwMapEntries (key : String)
  | orsetContains (key element : String)
  | orsetElements (key : String)
  | rgaValues (key : String)
deriving DecidableEq, Repr

inductive SdkCall where
  | dbSet (key : String) (value : Bytes)
  | dbDelete (key : String)
  | dbExists (key : String)
  | dbGet (key : String)
  | write (call : CrdtWrite)
  | query (call : CrdtQuery)
deriving DecidableEq, Repr

inductive SdkValue where
  | unit
  | flag (flag : Bool)
  | unsigned (value : UInt64)
  | signed (value : Int)
  | bytes (value : Option Bytes)
  | id (id : String)
  | texts (items : List String)
  | chunks (items : List Bytes)
  | entries (items : List (String × Bytes))
deriving DecidableEq, Repr

abbrev SdkResult := Except SdkFailure SdkValue

/-! ## Codes -/

namespace NxError

/-- The negative codes of the functions in `crdt/`. -/
def ofCode (rc : Int) : NxError :=
  if rc = errInternal then .internal
  else if rc = errReservedKey then .reservedKey
  else if rc = errSyncDisabled then .syncDisabled
  else .unknownCode rc

/-- Those of the functions in `db.rs`. -/
def ofDbCode (rc : Int) : NxError :=
  if rc = errInternal then .internal
  else if rc = errReservedKey then .reservedKey
  else .unknownCode rc

end NxError

/-- `map_unit_result`, `map_rc_unit`. -/
def mapUnitResult (ofCode : Int → NxError) (rc : Int) : SdkResult :=
  if rc = 0 then .ok .unit else .error (.error (ofCode rc))

/-- The two `contains`: other codes than 0 and 1 are no flag. -/
def containsResult (rc : Int) : SdkResult :=
  if rc = 0 then .ok (.flag false)
  else if rc = 1 then .ok (.flag true)
  else if rc < 0 then .error (.error (.ofCode rc))
  else .error (.error .internal)

/-- `exists`: they are an unknown code. -/
def existsResult (rc : Int) : SdkResult :=
  if rc = 0 then .ok (.flag false)
  else if rc = 1 then .ok (.flag true)
  else .error (.error (.ofDbCode rc))

/-- The two `value` functions, which expect eight bytes. -/
def counterResult (value : Bytes → SdkValue) (rc : Int) (out : Bytes) : SdkResult :=
  if rc = 8 then .ok (value out)
  else if rc = errBufTooSmall then .error (.error .bufferTooSmall)
  else if rc < 0 then .error (.error (.ofCode rc))
  else .error (.error .internal)

/-- `i64::from_le_bytes`. -/
def ofLeI64 (b : Bytes) : Int := if ofLe b < 2 ^ 63 then ofLe b else ofLe b - 2 ^ 64

/-! ## The host behind pointers -/

/-- The guest's memory during a call, and where the slices of the call lie in it. -/
structure CallFrame where
  memory : GuestMemory
  keyPtr : UInt32
  argPtr : UInt32
  valuePtr : UInt32
  outPtr : UInt32

structure CallSite where
  frame : (attempt cap : Nat) → CallFrame
  env : (attempt : Nat) → CallEnv

/-- `len() as u32`. -/
def lenU32 (b : Bytes) : UInt32 := UInt32.ofNat b.length

namespace CallSite

variable (g : CallSite)

/-- One call of the host with a buffer of `cap` bytes: the state, the code, and the buffer
afterwards. -/
def invoke (h : HostState) (call : CallEnv → HostState → CallFrame → HostState × Int)
    (attempt cap : Nat) : HostState × Int × Bytes :=
  let f := g.frame attempt cap
  let (after, rc) := call (g.env attempt) { h with memory := some f.memory } f
  (after, rc, (after.memory.bind fun memory => memory.read f.outPtr.toNat cap).getD [])

/-- A call without a buffer. -/
def once (h : HostState) (call : CallEnv → HostState → CallFrame → HostState × Int)
    (result : Int → SdkResult) : HostState × SdkResult :=
  let (after, rc, _) := g.invoke h call 0 0
  (after, result rc)

end CallSite

/-- The largest buffer. -/
def maxSdkBuffer : Nat := 1024 * 1024

section Grow

variable (w : UsizeWidth) (g : CallSite)
  (call : (cap : UInt32) → CallEnv → HostState → CallFrame → HostState × Int)
  (negative : Int → SdkResult) (finish : Bytes → SdkResult)

/-- The loop of the functions with a growing buffer. -/
def growLoop : (fuel attempt cap : Nat) → HostState → Option (HostState × SdkResult)
  | 0, _, _, _ => none
  | fuel + 1, attempt, cap, h =>
    let (after, n, out) := g.invoke h (call (UInt32.ofNat cap)) attempt cap
    if n = errBufTooSmall then
      let cap := saturatingMul w cap 2
      if cap > maxSdkBuffer then some (after, .error (.error .bufferTooSmall))
      else growLoop fuel (attempt + 1) cap after
    else if n < 0 then some (after, negative n)
    else some (after, finish (out.take n.toNat))

end Grow

/-- Negative codes that are errors. -/
def failWith (ofCode : Int → NxError) (rc : Int) : SdkResult := .error (.error (ofCode rc))

/-- Without an entry there is no value. -/
def orNone (ofCode : Int → NxError) (rc : Int) : SdkResult :=
  if rc = errNotFound then .ok (.bytes none) else failWith ofCode rc

/-- A parser behind the loop. -/
def parsed {α : Type} (value : α → SdkValue) (result : Except ParseError α) : SdkResult :=
  (result.map value).mapError SdkFailure.ofParse

/-- The arguments of an insertion; without a parent both its pointer and its length are
zero. -/
def CallFrame.insertArgs (f : CallFrame) (key : String) (parent : Option String) (value : Bytes)
    (cap : UInt32) : RgaInsertArgs where
  keyPtr := f.keyPtr
  keyLen := lenU32 (asBytes key)
  parentPtr := parent.elim 0 fun _ => f.argPtr
  parentLen := parent.elim 0 fun parent => lenU32 (asBytes parent)
  valuePtr := f.valuePtr
  valueLen := lenU32 value
  outIdPtr := f.outPtr
  outIdCap := cap

/-! ## The functions -/

namespace Sdk

section Functions

variable (serde : Serde) (w : UsizeWidth) (fuel : Nat) (g : CallSite) (h : HostState)

def dbSet (key : String) (value : Bytes) : HostState × SdkResult :=
  g.once h (fun env h f => Numax.dbSet env.fault h f.keyPtr (lenU32 (asBytes key)) f.valuePtr
    (lenU32 value)) (mapUnitResult .ofDbCode)

def dbDelete (key : String) : HostState × SdkResult :=
  g.once h (fun env h f => Numax.dbDelete env.fault h f.keyPtr (lenU32 (asBytes key)))
    (mapUnitResult .ofDbCode)

def dbExists (key : String) : HostState × SdkResult :=
  g.once h (fun env h f => Numax.dbExists env.fault h f.keyPtr (lenU32 (asBytes key))) existsResult

def dbGet (key : String) : Option (HostState × SdkResult) :=
  growLoop w g (fun cap env h f => Numax.dbGet env.fault h f.keyPtr (lenU32 (asBytes key)) f.outPtr
    cap) (orNone .ofDbCode) (fun out => .ok (.bytes (some out))) fuel 0 64 h

/-- A function that changes a CRDT and returns nothing. -/
def unitCall (call : CallFrame → CrdtCall) : HostState × SdkResult :=
  g.once h (fun env h f => crdtCall serde env h (call f)) (mapUnitResult .ofCode)

def gcounterInc (key : String) (delta : UInt64) : HostState × SdkResult :=
  unitCall serde g h fun f => .gcounterInc f.keyPtr (lenU32 (asBytes key)) delta

def pncounterInc (key : String) (delta : UInt64) : HostState × SdkResult :=
  unitCall serde g h fun f => .pncounterInc f.keyPtr (lenU32 (asBytes key)) delta

def pncounterDec (key : String) (delta : UInt64) : HostState × SdkResult :=
  unitCall serde g h fun f => .pncounterDec f.keyPtr (lenU32 (asBytes key)) delta

def lwwSet (key : String) (value : Bytes) : HostState × SdkResult :=
  unitCall serde g h fun f =>
    .lwwSet f.keyPtr (lenU32 (asBytes key)) f.valuePtr (lenU32 value)

def lwwMapSet (key field : String) (value : Bytes) : HostState × SdkResult :=
  unitCall serde g h fun f =>
    .lwwMapSet f.keyPtr (lenU32 (asBytes key)) f.argPtr (lenU32 (asBytes field)) f.valuePtr
      (lenU32 value)

def lwwMapRemove (key field : String) : HostState × SdkResult :=
  unitCall serde g h fun f =>
    .lwwMapRemove f.keyPtr (lenU32 (asBytes key)) f.argPtr (lenU32 (asBytes field))

def orsetAdd (key element : String) : HostState × SdkResult :=
  unitCall serde g h fun f =>
    .orsetAdd f.keyPtr (lenU32 (asBytes key)) f.argPtr (lenU32 (asBytes element))

def orsetRemove (key element : String) : HostState × SdkResult :=
  unitCall serde g h fun f =>
    .orsetRemove f.keyPtr (lenU32 (asBytes key)) f.argPtr (lenU32 (asBytes element))

def rgaDelete (key id : String) : HostState × SdkResult :=
  unitCall serde g h fun f =>
    .rgaDelete f.keyPtr (lenU32 (asBytes key)) f.argPtr (lenU32 (asBytes id))

/-- The id that the host has written is expected to be text. -/
def textId (out : Bytes) : SdkResult :=
  match fromUtf8 out with
  | none => .error (.error .internal)
  | some id => .ok (.id id)

def rgaInsertAfter (key : String) (parent : Option String) (value : Bytes) :
    Option (HostState × SdkResult) :=
  growLoop w g (fun cap env h f => crdtCall serde env h
    (.rgaInsert (f.insertArgs key parent value cap))) (failWith .ofCode) textId fuel 0 64 h

/-- A counter is read into a fixed buffer. -/
def counterCall (call : CallFrame → CrdtReadCall) (value : Bytes → SdkValue) :
    HostState × SdkResult :=
  let (after, rc, out) := g.invoke h (fun _ h f => crdtRead h (call f)) 0 8
  (after, counterResult value rc out)

def gcounterValue (key : String) : HostState × SdkResult :=
  counterCall g h (fun f => .gcounterValue f.keyPtr (lenU32 (asBytes key)) f.outPtr 8)
    fun out => .unsigned (UInt64.ofNat (ofLe out))

def pncounterValue (key : String) : HostState × SdkResult :=
  counterCall g h (fun f => .pncounterValue f.keyPtr (lenU32 (asBytes key)) f.outPtr 8)
    fun out => .signed (ofLeI64 out)

/-- Reading with a growing buffer. -/
def growingRead (call : (cap : UInt32) → CallFrame → CrdtReadCall) (negative : Int → SdkResult)
    (finish : Bytes → SdkResult) : Option (HostState × SdkResult) :=
  growLoop w g (fun cap _ h f => crdtRead h (call cap f)) negative finish fuel 0 256 h

def lwwGet (key : String) : Option (HostState × SdkResult) :=
  growingRead w fuel g h (fun cap f => .lwwGet f.keyPtr (lenU32 (asBytes key)) f.outPtr cap)
    (orNone .ofCode) fun out => .ok (.bytes (some out))

def lwwMapGet (key field : String) : Option (HostState × SdkResult) :=
  growingRead w fuel g h (fun cap f =>
    .lwwMapGet f.keyPtr (lenU32 (asBytes key)) f.argPtr (lenU32 (asBytes field)) f.outPtr cap)
    (orNone .ofCode) fun out => .ok (.bytes (some out))

def lwwMapEntries (key : String) : Option (HostState × SdkResult) :=
  growingRead w fuel g h
    (fun cap f => .lwwMapEntries f.keyPtr (lenU32 (asBytes key)) f.outPtr cap) (failWith .ofCode)
    fun out => parsed .entries (parseEntries w out)

def orsetElements (key : String) : Option (HostState × SdkResult) :=
  growingRead w fuel g h
    (fun cap f => .orsetElements f.keyPtr (lenU32 (asBytes key)) f.outPtr cap) (failWith .ofCode)
    fun out => parsed .texts (parseElements w out)

def rgaValues (key : String) : Option (HostState × SdkResult) :=
  growingRead w fuel g h (fun cap f => .rgaValues f.keyPtr (lenU32 (asBytes key)) f.outPtr cap)
    (failWith .ofCode) fun out => parsed .chunks (parseValues w out)

def lwwMapContains (key field : String) : HostState × SdkResult :=
  g.once h (fun _ h f => crdtRead h
    (.lwwMapContains f.keyPtr (lenU32 (asBytes key)) f.argPtr (lenU32 (asBytes field))))
    containsResult

def orsetContains (key element : String) : HostState × SdkResult :=
  g.once h (fun _ h f => crdtRead h
    (.orsetContains f.keyPtr (lenU32 (asBytes key)) f.argPtr (lenU32 (asBytes element))))
    containsResult

def call : SdkCall → Option (HostState × SdkResult)
  | .dbSet key value => some (dbSet g h key value)
  | .dbDelete key => some (dbDelete g h key)
  | .dbExists key => some (dbExists g h key)
  | .dbGet key => dbGet w fuel g h key
  | .write (.gcounterInc key delta) => some (gcounterInc serde g h key delta)
  | .write (.pncounterInc key delta) => some (pncounterInc serde g h key delta)
  | .write (.pncounterDec key delta) => some (pncounterDec serde g h key delta)
  | .write (.lwwSet key value) => some (lwwSet serde g h key value)
  | .write (.lwwMapSet key field value) => some (lwwMapSet serde g h key field value)
  | .write (.lwwMapRemove key field) => some (lwwMapRemove serde g h key field)
  | .write (.orsetAdd key element) => some (orsetAdd serde g h key element)
  | .write (.orsetRemove key element) => some (orsetRemove serde g h key element)
  | .write (.rgaInsertAfter key parent value) => rgaInsertAfter serde w fuel g h key parent value
  | .write (.rgaDelete key id) => some (rgaDelete serde g h key id)
  | .query (.gcounterValue key) => some (gcounterValue g h key)
  | .query (.pncounterValue key) => some (pncounterValue g h key)
  | .query (.lwwGet key) => lwwGet w fuel g h key
  | .query (.lwwMapGet key field) => lwwMapGet w fuel g h key field
  | .query (.lwwMapContains key field) => some (lwwMapContains g h key field)
  | .query (.lwwMapEntries key) => lwwMapEntries w fuel g h key
  | .query (.orsetContains key element) => some (orsetContains g h key element)
  | .query (.orsetElements key) => orsetElements w fuel g h key
  | .query (.rgaValues key) => rgaValues w fuel g h key

end Functions

/-- A guest makes one call after the other, and keeps the results. -/
def session (serde : Serde) (w : UsizeWidth) (fuel : Nat) :
    HostState → List (SdkCall × CallSite) → Option (HostState × List SdkResult)
  | h, [] => some (h, [])
  | h, (c, g) :: rest => do
    let (h, result) ← call serde w fuel g h c
    let (h, results) ← session serde w fuel h rest
    pure (h, result :: results)

end Sdk

end Numax
