import Numax.Base.Backoff
import Numax.Base.OrdMap
import Numax.Net.Bootstrap

/-!
# The reconnect loop

The loop that dials configured peers that are not connected
(`spawn_reconnect_loop` of `nx-core/src/sync_manager/replication.rs`, with the state of
a peer from `peer.rs`). In a round it looks at every peer in the order of the candidates;
then it sleeps until the next attempt is due, or until the candidates change.

What the loop meets is part of the events: whether the node is connected to a peer, how
a dial ends, and what the clock reads. Peer health and metrics are written and never
read here, and are left out. What the loop does to a peer it also writes to a journal.
Durations and instants are nanoseconds, and `latest` is the last instant of the clock.
-/

open Base Std

namespace Numax

/-! ## The state of one peer -/

def normalizeReconnectDelay (delay : Nat) : Nat := max delay nanosPerMilli

def nextReconnectDelay (current maxDelay : Nat) : Nat :=
  min (saturatingDouble current) (max maxDelay current)

def boundedRetryAfter (delay maxDelay : Nat) : Nat := min (normalizeReconnectDelay delay) maxDelay

structure PeerReconnectState where
  addr : String
  delay : Nat
  nextAttemptAt : Nat
  stopped : Bool
deriving DecidableEq, Repr

namespace PeerReconnectState

def new (addr : String) (initialDelay now : Nat) : PeerReconnectState :=
  { addr, delay := initialDelay, nextAttemptAt := now, stopped := false }

def reset (peer : PeerReconnectState) (initialDelay now : Nat) : PeerReconnectState :=
  { peer with delay := initialDelay, nextAttemptAt := now, stopped := false }

def stop (peer : PeerReconnectState) : PeerReconnectState := { peer with stopped := true }

/-- An unrepresentable deadline must never become an immediate retry. -/
def scheduleRetry (latest : Nat) (peer : PeerReconnectState) (delay now : Nat) :
    PeerReconnectState × Option Nat :=
  match checkedAdd latest now delay with
  | none => (peer.stop, none)
  | some deadline => ({ peer with nextAttemptAt := deadline }, some delay)

def recordFailure (latest : Nat) (peer : PeerReconnectState) (maxDelay now : Nat) :
    PeerReconnectState × Option Nat :=
  match peer.scheduleRetry latest peer.delay now with
  | (peer, none) => (peer, none)
  | (peer, some attemptDelay) =>
    ({ peer with delay := nextReconnectDelay attemptDelay maxDelay }, some attemptDelay)

def recordRetryAfter (latest : Nat) (peer : PeerReconnectState) (delay now : Nat) :
    PeerReconnectState × Option Nat :=
  peer.scheduleRetry latest (normalizeReconnectDelay delay) now

end PeerReconnectState

inductive ConfiguredPeerConnectOutcome where
  | connected
  | alreadyConnected
  | slotLimitReached
  | failed
  | retryAfter (delay : Nat)
  | fatal
deriving DecidableEq, Repr

/-! ## A round -/

/-- The two delays of the configuration. -/
structure ReconnectConfig where
  initialDelay : Nat
  maxDelay : Nat
  initialDelay_le : initialDelay ≤ durationMax
  maxDelay_le : maxDelay ≤ durationMax

namespace ReconnectConfig

/-- The initial delay the loop works with. -/
def initial (config : ReconnectConfig) : Nat := normalizeReconnectDelay config.initialDelay

/-- The maximal delay the loop works with. -/
def cap (config : ReconnectConfig) : Nat := max config.maxDelay config.initial

end ReconnectConfig

/-- What the loop finds when it comes to a peer: whether the node is connected to it; and
if it dials, when it starts to, how that ends, and what the clock reads then. Without
an outcome, shutdown comes first. -/
structure Look where
  connected : Bool
  dialedAt : Nat
  outcome : Option ConfiguredPeerConnectOutcome
  clock : Nat

/-- A round: what the clock reads at its start and before it sleeps, and what is found at
each peer. No dial starts before the round. -/
structure Round where
  now : Nat
  look : Nat → Look
  sleepFrom : Nat
  forward : ∀ k, now ≤ (look k).dialedAt

/-- An entry of the journal: a peer comes into the list of the loop, it is found
connected, or it is dialed and the loop will wait so long. -/
inductive ReconnectEntry where
  | joined (addr : String) (now : Nat)
  | seen (addr : String) (clock : Nat)
  | dialed (addr : String) (dialedAt : Nat) (outcome : Option ConfiguredPeerConnectOutcome)
      (clock : Nat) (wait : Option Nat)
deriving DecidableEq, Repr

def ReconnectEntry.addr : ReconnectEntry → String
  | .joined addr _ => addr
  | .seen addr _ => addr
  | .dialed addr _ _ _ _ => addr

/-- How the round goes on after a peer: `continue`, `break`, or `break 'reconnect`. -/
inductive Turn where
  | next
  | leave
  | shutdown
deriving DecidableEq, Repr

structure Visit where
  peer : PeerReconnectState
  wait : Option Nat
  turn : Turn
  entry : Option ReconnectEntry

section Loop

variable (latest : Nat) (config : ReconnectConfig)

/-- The body of the loop over the peers. -/
def visitPeer (now : Nat) (peer : PeerReconnectState) (look : Look) : Visit :=
  if peer.stopped then ⟨peer, none, .next, none⟩
  else if look.connected then
    ⟨peer.reset config.initial look.clock, none, .next, some (.seen peer.addr look.clock)⟩
  else if now < peer.nextAttemptAt then ⟨peer, some (peer.nextAttemptAt - now), .next, none⟩
  else
    let dialed := ReconnectEntry.dialed peer.addr look.dialedAt look.outcome look.clock
    match look.outcome with
    -- Shutdown wins over the dial, and the state of the peer stays.
    | none => ⟨peer, none, .shutdown, some (dialed none)⟩
    | some .connected => ⟨peer.reset config.initial look.clock, none, .next, some (dialed none)⟩
    | some .alreadyConnected =>
      ⟨peer.reset config.initial look.clock, none, .next, some (dialed none)⟩
    -- Without a slot the peers behind this one are not looked at in this round.
    | some .slotLimitReached => ⟨peer, none, .leave, some (dialed none)⟩
    | some .failed =>
      let (peer, wait) := peer.recordFailure latest config.cap look.clock
      ⟨peer, wait, .next, some (dialed wait)⟩
    | some (.retryAfter delay) =>
      let (peer, wait) :=
        -- What the peer asks for does not double the delay.
        peer.recordRetryAfter latest (boundedRetryAfter delay config.cap) look.clock
      ⟨peer, wait, .next, some (dialed wait)⟩
    | some .fatal => ⟨peer.stop, none, .next, some (dialed none)⟩

/-- `sleep_for.map_or(wait, |current| current.min(wait))`. -/
def sooner (sleepFor : Option Nat) : Option Nat → Option Nat
  | none => sleepFor
  | some wait => some (sleepFor.elim wait (min · wait))

structure RoundEnd where
  peers : List PeerReconnectState
  sleepFor : Option Nat
  shutdown : Bool
  entries : List ReconnectEntry

/-- The loop over the peers; `k` of them have been looked at. -/
def visitPeers (round : Round) : Nat → List PeerReconnectState → Option Nat → RoundEnd
  | _, [], sleepFor => ⟨[], sleepFor, false, []⟩
  | k, peer :: rest, sleepFor =>
    let visit := visitPeer latest config round.now peer (round.look k)
    match visit.turn with
    | .next =>
      let later := visitPeers round (k + 1) rest (sooner sleepFor visit.wait)
      { later with
        peers := visit.peer :: later.peers
        entries := visit.entry.toList ++ later.entries }
    | .leave => ⟨visit.peer :: rest, sleepFor, false, visit.entry.toList⟩
    | .shutdown => ⟨visit.peer :: rest, sleepFor, true, visit.entry.toList⟩

/-! ## Candidates -/

/-- One candidate after the other takes its state out of the map, or starts afresh. -/
def takeCandidates (initialDelay now : Nat) :
    OrdMap String PeerReconnectState → List String → List PeerReconnectState
  | _, [] => []
  | existing, addr :: rest =>
    match existing[addr]? with
    | some peer => peer :: takeCandidates initialDelay now (existing.erase addr) rest
    | none => .new addr initialDelay now :: takeCandidates initialDelay now existing rest

/-- `reconcile_reconnect_candidates`. -/
def reconcile (peers : List PeerReconnectState) (candidates : List String) (now : Nat) :
    List PeerReconnectState :=
  takeCandidates config.initial now (OrdMap.insertAll ∅ (peers.map fun peer => (peer.addr, peer)))
    candidates

/-- The candidates that are new to the loop. -/
def joiners (peers : List PeerReconnectState) (candidates : List String) (now : Nat) :
    List ReconnectEntry :=
  (candidates.filter fun addr => addr ∉ peers.map (·.addr)).map (.joined · now)

/-! ## The loop -/

inductive ReconnectPhase where
  | awake
  | asleep (deadline : Nat)
  | terminated
deriving DecidableEq, Repr

structure ReconnectLoop where
  peers : List PeerReconnectState
  phase : ReconnectPhase

inductive ReconnectEvent where
  | round (round : Round)
  | updated (candidates : List String) (now : Nat)
  | woke (now : Nat)
  /-- Shutdown, or the candidates are no longer sent. -/
  | shutdown

namespace ReconnectLoop

def start (candidates : List String) (now : Nat) : ReconnectLoop :=
  ⟨reconcile config [] candidates now, .awake⟩

/-- The loop sleeps after a round, unless it has been shut down or cannot say until when. -/
def afterRound (round : Round) (result : RoundEnd) : ReconnectPhase :=
  if result.shutdown then .terminated
  else
    match checkedAdd latest round.sleepFrom (result.sleepFor.getD config.initial) with
    | none => .terminated
    | some deadline => .asleep deadline

def step (loop : ReconnectLoop) (event : ReconnectEvent) : Option ReconnectLoop :=
  match loop.phase, event with
  | .awake, .round round =>
    let result := visitPeers latest config round 0 loop.peers none
    some ⟨result.peers, afterRound latest config round result⟩
  | .asleep _, .updated candidates now =>
    some ⟨reconcile config loop.peers candidates now, .awake⟩
  | .asleep deadline, .woke now =>
    if deadline ≤ now then some { loop with phase := .awake } else none
  | .awake, .shutdown => some { loop with phase := .terminated }
  | .asleep _, .shutdown => some { loop with phase := .terminated }
  | _, _ => none

/-- What a step writes to the journal. -/
def entries (loop : ReconnectLoop) : ReconnectEvent → List ReconnectEntry
  | .round round => (visitPeers latest config round 0 loop.peers none).entries
  | .updated candidates now => joiners loop.peers candidates now
  | .woke _ => []
  | .shutdown => []

end ReconnectLoop

end Loop

end Numax
