import Numax.Discovery.Snapshot
import Numax.Base.Machine

/-!
# Deadlines and limits of the providers

The checks that the discovery providers share (`nx-core/src/discovery/dynamic.rs` and
`discovery.rs`). `latest` is the last instant of the clock.
-/

open Base

namespace Numax

def maxDiscoveryEventCapacity : Nat := 4096

def validateEventCapacity (provider : String) (eventCapacity : Nat) : Except DiscoveryError Unit :=
  if 1 ≤ eventCapacity ∧ eventCapacity ≤ maxDiscoveryEventCapacity then .ok ()
  else
    .error (.invalidConfiguration provider
      ("event_capacity must be in 1..=" ++ toString maxDiscoveryEventCapacity))

def checkedDeadline (latest now duration : Nat) (provider field : String) :
    Except DiscoveryError Nat :=
  match checkedAdd latest now duration with
  | none => .error (.provider provider (field ++ " deadline is not representable") false)
  | some deadline => .ok deadline

/-- The first duration that leads to no deadline is refused. -/
def validateDurations (latest now : Nat) (provider : String) :
    List (String × Nat) → Except DiscoveryError Unit
  | [] => .ok ()
  | (field, duration) :: rest =>
    match checkedAdd latest now duration with
    | none =>
      .error (.invalidConfiguration provider (field ++ " deadline is not representable"))
    | some _ => validateDurations latest now provider rest

end Numax
