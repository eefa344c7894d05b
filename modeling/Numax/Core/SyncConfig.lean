import Numax.Net.Bootstrap
import Numax.Host.Event

/-!
# Sync configuration

`sync_config.rs`: the limits and timers of a node, their defaults and the check they have
to pass before the sync manager starts. Durations are nanoseconds.
-/

namespace Numax

structure SyncConfig where
  maxPeers : Nat
  queuedOpsLimit : Nat
  opLogLimit : Nat
  seenOpsLimit : Nat
  socketTimeout : Nat
  reconnectInitialDelay : Nat
  reconnectMaxDelay : Nat
  antiEntropyInterval : Nat
deriving DecidableEq, Repr

namespace SyncConfig

def defaults : SyncConfig where
  maxPeers := 64
  queuedOpsLimit := 10000
  opLogLimit := 10000
  seenOpsLimit := 100000
  socketTimeout := 30 * nanosPerSec
  reconnectInitialDelay := 500 * nanosPerMilli
  reconnectMaxDelay := 30 * nanosPerSec
  antiEntropyInterval := 30 * nanosPerSec

/-- The message of the error, if the configuration is refused. -/
def validate (platform : Platform) (now : Nat) (config : SyncConfig) : Except String Unit := do
  [("queued_ops_limit", config.queuedOpsLimit), ("max_peers", config.maxPeers)].forM
    fun (name, limit) =>
      if limit > platform.maxPermits then
        .error (name ++ " exceeds the supported channel/semaphore capacity")
      else .ok ()
  [("reconnect_initial_delay", config.reconnectInitialDelay),
    ("reconnect_max_delay", config.reconnectMaxDelay),
    ("anti_entropy_interval", config.antiEntropyInterval),
    ("socket_timeout", config.socketTimeout)].forM
    fun (name, duration) =>
      match platform.checkedAdd now (max duration nanosPerMilli) with
      | none => .error (name ++ " exceeds the supported deadline range")
      | some _ => .ok ()
  if config.socketTimeout = 0 then .error "socket_timeout must be positive" else .ok ()

/-- The sync manager of a node, on a store that holds nothing yet. -/
def start (config : SyncConfig) (nodeId : NodeId) : Node :=
  .start nodeId (max config.queuedOpsLimit 1) (normalizeOpLogLimit config.opLogLimit)
    (normalizeSeenOpsLimit config.seenOpsLimit)

end SyncConfig

end Numax
