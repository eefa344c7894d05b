import Numax.Base.Bytes

/-!
# Views of a discovery provider

The data that providers, watches and the candidate coordinator exchange
(`nx-core/src/discovery.rs`). Instants are nanoseconds on a clock of their own.
-/

namespace Numax

inductive DiscoveryError where
  | invalidConfiguration (provider message : String)
  | provider (provider message : String) (retryable : Bool)
  | unsupported (provider operation : String)
  | watchOverflow (missed : Nat)
  | watchRevision (previous received : Nat)
  | watchInvalidated
  | watchClosed
deriving DecidableEq, Repr

/-- The complete view of a provider at one revision. -/
structure DiscoverySnapshot where
  revision : Nat
  peers : List String
  observations : Option (List Nat)
deriving DecidableEq, Repr

namespace DiscoverySnapshot

def new (revision : Nat) (peers : List String) : DiscoverySnapshot := ⟨revision, peers, none⟩

def observed (revision : Nat) (peers : List (String × Nat)) : DiscoverySnapshot :=
  ⟨revision, peers.map Prod.fst, some (peers.map Prod.snd)⟩

end DiscoverySnapshot

inductive DiscoveryChange where
  | added (endpoint : String)
  | removed (endpoint : String)
  | replaced (peers : List String)
  | observed (snapshot : DiscoverySnapshot)
deriving DecidableEq, Repr

structure DiscoveryEvent where
  revision : Nat
  change : DiscoveryChange
deriving DecidableEq, Repr

end Numax
