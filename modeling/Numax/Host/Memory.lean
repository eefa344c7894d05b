import Numax.Core.Replication

/-!
# Guest memory and host state

The guest's linear memory as the host sees it, and the state a host call works
on. A read or write succeeds exactly when the whole range lies inside the
memory; a failed access changes nothing.
-/

open Base Std

namespace Numax

/-! ## Return codes and limits -/

def errNotFound : Int := -1
def errBufTooSmall : Int := -2
def errInternal : Int := -3
def errReservedKey : Int := -4
def errSyncDisabled : Int := -5

def maxKeyLen : Nat := 8 * 1024
def maxElementLen : Nat := 8 * 1024
def maxFieldLen : Nat := 8 * 1024
def maxRgaIdLen : Nat := 8 * 1024
def maxValueLen : Nat := 1024 * 1024
def maxOutCap : Nat := 1024 * 1024

/-- Keys under this prefix belong to the runtime. -/
def reservedPrefix : String := "__nx/"

/-! ## Linear memory -/

structure GuestMemory where
  bytes : Bytes
deriving DecidableEq, Repr

namespace GuestMemory

def size (m : GuestMemory) : Nat := m.bytes.length

def read (m : GuestMemory) (ptr len : Nat) : Option Bytes :=
  if ptr + len ≤ m.size then some ((m.bytes.drop ptr).take len) else none

def write (m : GuestMemory) (ptr : Nat) (data : Bytes) : Option GuestMemory :=
  if ptr + data.length ≤ m.size then
    some { bytes := m.bytes.take ptr ++ data ++ m.bytes.drop (ptr + data.length) }
  else none

end GuestMemory

/-! ## Host state -/

/-- What a host call can reach: the guest memory if the guest exports one, the
store, and the sync manager if sync is enabled. -/
structure HostState where
  memory : Option GuestMemory
  store : Store
  sync : Option SyncState

/-- What the outside world contributes to one call: the clock, the id the next
operation gets, and the failure of the store access, if any. -/
structure CallEnv where
  now : Option UInt64
  opId : OpId
  fault : Option StoreError := none

end Numax
