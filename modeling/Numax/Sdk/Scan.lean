import Numax.Host.Db
import Numax.Sdk.Parse

/-!
# Scans of the guest library

`nx-sdk/src/db.rs`: one page with a buffer that is doubled while the host finds
it too small, and the loop that follows the last key of each page until a page
is short. Both loops are unbounded in the source; here they take fuel and return
`none` when it runs out.

Where the guest's slices lie in its memory is up to the guest's allocator, and
whether a store access fails is up to the storage engine (`Surroundings`).
-/

open Base

namespace Numax

inductive NxError where
  | internal
  | bufferTooSmall
  | notFound
  | reservedKey
  | syncDisabled
  | unknownCode (code : Int)
deriving DecidableEq, Repr

/-- How a library call ends without a result. -/
inductive SdkFailure where
  | error (error : NxError)
  | panic
deriving DecidableEq, Repr

def SdkFailure.ofParse : ParseError → SdkFailure
  | .internal => .error .internal
  | .outOfRange => .panic

def defaultScanLimit : UInt32 := 64
def maxScanBuffer : Nat := 1024 * 1024

/-- `usize::saturating_mul`. -/
def saturatingMul (w : UsizeWidth) (a b : Nat) : Nat := min (a * b) w.max

/-! ## One page -/

/-- The guest's memory during a call, and where the slices of the call lie in it. -/
structure PageFrame where
  memory : GuestMemory
  prefixPtr : UInt32
  startAfterPtr : UInt32
  outPtr : UInt32

section Page

variable {α : Type} (w : UsizeWidth) (h : HostState)
  (call : (attempt : Nat) → HostState → KeyCursorPageRequest → HostState × Int)
  (parse : Bytes → Except ParseError (List α))
  (frame : (attempt : Nat) → (pfx startAfter : Bytes) → (cap : Nat) → PageFrame)
  (pfx startAfter : Bytes) (limit : UInt32)

/-- One call of the host with a buffer of `cap` bytes: the code, and the buffer
afterwards. -/
def callHost (attempt cap : Nat) : Int × Bytes :=
  let f := frame attempt pfx startAfter cap
  let (after, code) := call attempt { h with memory := some f.memory }
    { prefixPtr := f.prefixPtr
      prefixLen := UInt32.ofNat pfx.length
      startAfterPtr := f.startAfterPtr
      startAfterLen := UInt32.ofNat startAfter.length
      limit
      outPtr := f.outPtr
      outCap := UInt32.ofNat cap }
  (code, ((after.memory.bind fun memory => memory.read f.outPtr.toNat cap)).getD [])

/-- The retry loop of the page functions. -/
def pageAfterLoop : (fuel attempt cap : Nat) → Option (Except SdkFailure (List α))
  | 0, _, _ => none
  | fuel + 1, attempt, cap =>
    let (n, out) := callHost h call frame pfx startAfter limit attempt cap
    if n = errInternal then some (.error (.error .internal))
    else if n = errReservedKey then some (.error (.error .reservedKey))
    else if n = errBufTooSmall then
      let cap := saturatingMul w cap 2
      if cap > maxScanBuffer then some (.error (.error .bufferTooSmall))
      else pageAfterLoop fuel (attempt + 1) cap
    else if n < 0 then some (.error (.error (.unknownCode n)))
    else some ((parse (out.take n.toNat)).mapError SdkFailure.ofParse)

end Page

/-- What the library meets outside itself, call by call: its own memory and the
failures of the store. -/
structure Surroundings where
  frame : (round attempt : Nat) → (pfx startAfter : Bytes) → (cap : Nat) → PageFrame
  fault : (round attempt : Nat) → Option StoreError

namespace Sdk

variable (w : UsizeWidth) (g : Surroundings) (h : HostState)

def scanPageAfter (fuel round : Nat) (pfx : String) (startAfterKey : Option Bytes)
    (limit : UInt32) : Option (Except SdkFailure (List (Bytes × Bytes))) :=
  pageAfterLoop w h (fun attempt => dbScanAfter (g.fault round attempt)) (parseScanRows w)
    (g.frame round) (asBytes pfx) (startAfterKey.getD []) limit fuel 0 256

def keysPageAfter (fuel round : Nat) (pfx : String) (startAfterKey : Option Bytes)
    (limit : UInt32) : Option (Except SdkFailure (List Bytes)) :=
  pageAfterLoop w h (fun attempt => dbKeysAfter (g.fault round attempt)) (parseKeys w)
    (g.frame round) (asBytes pfx) (startAfterKey.getD []) limit fuel 0 256

/-! ## All pages -/

/-- The loop over the pages; a page below the limit is the last one. -/
def fullScanLoop {α : Type} (keyOf : α → Bytes)
    (page : (round : Nat) → Option Bytes → Option (Except SdkFailure (List α))) :
    (fuel round : Nat) → (lastKey : Option Bytes) → (out : List α) →
      Option (Except SdkFailure (List α))
  | 0, _, _, _ => none
  | fuel + 1, round, lastKey, out =>
    match page round lastKey with
    | none => none
    | some (.error failure) => some (.error failure)
    | some (.ok items) =>
      if items.isEmpty then some (.ok out)
      else
        let isLast := items.length < defaultScanLimit.toNat
        let lastKey := items.getLast?.map keyOf
        let out := out ++ items
        if isLast then some (.ok out)
        else fullScanLoop keyOf page fuel (round + 1) lastKey out

def scan (fuel : Nat) (pfx : String) : Option (Except SdkFailure (List (Bytes × Bytes))) :=
  fullScanLoop Prod.fst
    (fun round lastKey => scanPageAfter w g h fuel round pfx lastKey defaultScanLimit)
    fuel 0 none []

def keys (fuel : Nat) (pfx : String) : Option (Except SdkFailure (List Bytes)) :=
  fullScanLoop id
    (fun round lastKey => keysPageAfter w g h fuel round pfx lastKey defaultScanLimit)
    fuel 0 none []

end Sdk

end Numax
