import Numax.Host.Abi
import Numax.Base.Machine

/-!
# Database host calls

The eight guest calls on the key–value store (`host_api/db.rs`). A call finds
the guest memory, checks its limits, reads its key or prefix and cursor, makes
one store access and, if it has a result, writes it into the guest's buffer.
Reserved keys are refused as keys, prefixes and cursors, and skipped in pages.
-/

open Base Std

namespace Numax

def maxScanLimit : Nat := 1024
def maxReadLen : Nat := 1024 * 1024

/-! ## Arguments -/

def readBytes (memory : GuestMemory) (ptr len : UInt32) : Option Bytes :=
  if len.toNat > maxReadLen then none else memory.read ptr.toNat len.toNat

/-- Is the key one of the runtime's? -/
def isReserved (key : Bytes) : Bool := startsWith key (asBytes reservedPrefix)

/-- The keys that a listing under a prefix shows. -/
def shown (pfx key : Bytes) : Bool := startsWith key pfx && !isReserved key

/-- A key of bounded length outside the reserved prefix; any bytes. -/
def readValidatedDbKey (memory : GuestMemory) (ptr len : UInt32) : Except Int Bytes :=
  if len.toNat > maxKeyLen then .error errInternal
  else
    match readBytes memory ptr len with
    | none => .error errInternal
    | some key => if isReserved key then .error errReservedKey else .ok key

def readScanCursor (memory : GuestMemory) (ptr len : UInt32) (pfx : Bytes) :
    Except Int (Option Bytes) :=
  if len = 0 then .ok none
  else if len.toNat > maxKeyLen then .error errInternal
  else
    match readBytes memory ptr len with
    | none => .error errInternal
    | some cursor =>
      if isReserved cursor then .error errReservedKey
      else if !pfx.isEmpty && !startsWith cursor pfx then .error errInternal
      else .ok (some cursor)

def validatePageRequest (limit outCap : UInt32) : Except Int Unit :=
  if limit = 0 ∨ limit.toNat > maxScanLimit then .error errInternal
  else if outCap.toNat > maxOutCap then .error errInternal
  else .ok ()

/-! ## Calls -/

/-- The prefix, cursor and buffer of a page addressed by a key cursor. -/
structure KeyCursorPageRequest where
  prefixPtr : UInt32
  prefixLen : UInt32
  startAfterPtr : UInt32
  startAfterLen : UInt32
  limit : UInt32
  outPtr : UInt32
  outCap : UInt32
deriving DecidableEq, Repr

/-- The prefix, offset and buffer of a page addressed by an offset. -/
structure OffsetPageRequest where
  prefixPtr : UInt32
  prefixLen : UInt32
  cursor : UInt64
  limit : UInt32
  outPtr : UInt32
  outCap : UInt32
deriving DecidableEq, Repr

/-- A database call with its arguments. -/
inductive DbCall where
  | get (keyPtr keyLen outPtr outCap : UInt32)
  | set (keyPtr keyLen valPtr valLen : UInt32)
  | delete (keyPtr keyLen : UInt32)
  | exists (keyPtr keyLen : UInt32)
  | scan (req : OffsetPageRequest)
  | scanAfter (req : KeyCursorPageRequest)
  | keys (req : OffsetPageRequest)
  | keysAfter (req : KeyCursorPageRequest)
deriving DecidableEq, Repr

section Calls

variable (fault : Option StoreError) (h : HostState)

/-- Write a result into the guest's buffer and return its length. -/
def writeOut (memory : GuestMemory) (outPtr outCap : UInt32) (encoded : Bytes) : HostState × Int :=
  if encoded.length > outCap.toNat then (h, errBufTooSmall)
  else
    match memory.write outPtr.toNat encoded with
    | none => (h, errInternal)
    | some memory => ({ h with memory := some memory }, asI32 encoded.length)

def dbGet (keyPtr keyLen outPtr outCap : UInt32) : HostState × Int :=
  match h.memory with
  | none => (h, errInternal)
  | some memory =>
    if outCap.toNat > maxOutCap then (h, errInternal)
    else
      match readValidatedDbKey memory keyPtr keyLen with
      | .error code => (h, code)
      | .ok key =>
        match h.store.get fault key with
        | .error _ => (h, errInternal)
        | .ok none => (h, errNotFound)
        | .ok (some value) => writeOut h memory outPtr outCap value

def dbSet (keyPtr keyLen valPtr valLen : UInt32) : HostState × Int :=
  match h.memory with
  | none => (h, errInternal)
  | some memory =>
    if valLen.toNat > maxValueLen then (h, errInternal)
    else
      match readValidatedDbKey memory keyPtr keyLen with
      | .error code => (h, code)
      | .ok key =>
        match readBytes memory valPtr valLen with
        | none => (h, errInternal)
        | some val =>
          match h.store.set fault key val with
          | .error _ => (h, errInternal)
          | .ok store => ({ h with store }, 0)

def dbDelete (keyPtr keyLen : UInt32) : HostState × Int :=
  match h.memory with
  | none => (h, errInternal)
  | some memory =>
    match readValidatedDbKey memory keyPtr keyLen with
    | .error code => (h, code)
    | .ok key =>
      match h.store.delete fault key with
      | .error _ => (h, errInternal)
      | .ok store => ({ h with store }, 0)

def dbExists (keyPtr keyLen : UInt32) : HostState × Int :=
  match h.memory with
  | none => (h, errInternal)
  | some memory =>
    match readValidatedDbKey memory keyPtr keyLen with
    | .error code => (h, code)
    | .ok key =>
      match h.store.existsKey fault key with
      | .error _ => (h, errInternal)
      | .ok true => (h, 1)
      | .ok false => (h, 0)

/-- The common scheme of the four page calls: read what addresses the page, load
it, encode it, write it out. -/
def pageCall {ρ α : Type} (limit outPtr outCap : UInt32)
    (readRequest : GuestMemory → Except Int ρ) (page : Store → ρ → Except StoreError (List α))
    (encode : List α → Except Int Bytes) : HostState × Int :=
  match h.memory with
  | none => (h, errInternal)
  | some memory =>
    match validatePageRequest limit outCap with
    | .error code => (h, code)
    | .ok () =>
      match readRequest memory with
      | .error code => (h, code)
      | .ok request =>
        match page h.store request with
        | .error _ => (h, errInternal)
        | .ok items =>
          match encode items with
          | .error code => (h, code)
          | .ok encoded => writeOut h memory outPtr outCap encoded

/-- The prefix and the cursor of a page addressed by a key cursor. -/
def readPrefixAndCursor (req : KeyCursorPageRequest) (memory : GuestMemory) :
    Except Int (Bytes × Option Bytes) := do
  let pfx ← readValidatedDbKey memory req.prefixPtr req.prefixLen
  let startAfter ← readScanCursor memory req.startAfterPtr req.startAfterLen pfx
  pure (pfx, startAfter)

def dbScan (req : OffsetPageRequest) : HostState × Int :=
  pageCall h req.limit req.outPtr req.outCap
    (fun memory => readValidatedDbKey memory req.prefixPtr req.prefixLen)
    (fun store pfx =>
      store.scanPrefixPage fault pfx req.cursor req.limit (some (asBytes reservedPrefix)))
    encodeScanRows

def dbScanAfter (req : KeyCursorPageRequest) : HostState × Int :=
  pageCall h req.limit req.outPtr req.outCap (readPrefixAndCursor req)
    (fun store request =>
      store.scanPrefixPageAfter fault request.1 request.2 req.limit
        (some (asBytes reservedPrefix)))
    encodeScanRows

def dbKeys (req : OffsetPageRequest) : HostState × Int :=
  pageCall h req.limit req.outPtr req.outCap
    (fun memory => readValidatedDbKey memory req.prefixPtr req.prefixLen)
    (fun store pfx =>
      store.keysPrefixPage fault pfx req.cursor req.limit (some (asBytes reservedPrefix)))
    encodeKeys

def dbKeysAfter (req : KeyCursorPageRequest) : HostState × Int :=
  pageCall h req.limit req.outPtr req.outCap (readPrefixAndCursor req)
    (fun store request =>
      store.keysPrefixPageAfter fault request.1 request.2 req.limit
        (some (asBytes reservedPrefix)))
    encodeKeys

def dbCall : DbCall → HostState × Int
  | .get keyPtr keyLen outPtr outCap => dbGet fault h keyPtr keyLen outPtr outCap
  | .set keyPtr keyLen valPtr valLen => dbSet fault h keyPtr keyLen valPtr valLen
  | .delete keyPtr keyLen => dbDelete fault h keyPtr keyLen
  | .exists keyPtr keyLen => dbExists fault h keyPtr keyLen
  | .scan req => dbScan fault h req
  | .scanAfter req => dbScanAfter fault h req
  | .keys req => dbKeys fault h req
  | .keysAfter req => dbKeysAfter fault h req

end Calls

end Numax
