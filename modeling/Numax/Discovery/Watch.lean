import Numax.Discovery.Snapshot
import Numax.Base.Broadcast
import Numax.Base.Machine

/-!
# Watching a provider

A provider keeps its view in a `DynamicState` (`nx-core/src/discovery/dynamic.rs`) and
sends every change as an event on a broadcast channel. A `DiscoveryWatch`
(`nx-core/src/discovery.rs`) is a snapshot of the view with a receiver for what comes
after it. Both are created under the lock of the state, and so is every change, so the
operations are steps. A receive is a step of the consumer alone.

A channel is named by a number; `finish` after an unexpected end makes the state go on
with a new one. An event that is sent while nobody listens stays in the channel of the
model, where nobody can see it: receivers start behind it.
-/

open Base

namespace Numax

/-- The view has an observation time for every peer. -/
structure DynamicState where
  eventCapacity : Nat
  available : Bool
  revision : Nat
  peers : List String
  observations : List Nat
  aligned : observations.length = peers.length
  events : Nat

namespace DynamicState

def new (eventCapacity : Nat) : DynamicState where
  eventCapacity
  available := true
  revision := 0
  peers := []
  observations := []
  aligned := rfl
  events := 0

def snapshot (s : DynamicState) : DiscoverySnapshot :=
  .observed s.revision (s.peers.zip s.observations)

end DynamicState

structure DiscoveryWatch where
  snapshot : DiscoverySnapshot
  events : Nat
  next : Nat
  lastRevision : Nat
  invalidated : Bool
deriving DecidableEq, Repr

namespace DiscoveryWatch

def new (snapshot : DiscoverySnapshot) (events next : Nat) : DiscoveryWatch :=
  { snapshot, events, next, lastRevision := snapshot.revision, invalidated := false }

/-- The revision inside an observed view. -/
def innerRevision : DiscoveryChange → Option Nat
  | .observed snapshot => some snapshot.revision
  | _ => none

/-- What is made of an event that has been received. -/
def accept (watch : DiscoveryWatch) (event : DiscoveryEvent) :
    DiscoveryWatch × Except DiscoveryError DiscoveryEvent :=
  match (innerRevision event.change).filter (· != event.revision) with
  | some received =>
    ({ watch with invalidated := true }, .error (.watchRevision watch.lastRevision received))
  | none =>
    -- `last_revision.checked_add(1) != Some(event.revision)`
    if watch.lastRevision = u64Max ∨ watch.lastRevision + 1 ≠ event.revision then
      ({ watch with invalidated := true },
        .error (.watchRevision watch.lastRevision event.revision))
    else ({ watch with lastRevision := event.revision }, .ok event)

/-- A call of `recv`; without a result it waits. -/
def recv (watch : DiscoveryWatch) (channel : Channel DiscoveryEvent) (closed : Bool) :
    DiscoveryWatch × Option (Except DiscoveryError DiscoveryEvent) :=
  if watch.invalidated then (watch, some (.error .watchInvalidated))
  else
    match channel.recv watch.next with
    | (next, .item event) => ({ watch with next }.accept event).map id some
    | (next, .lagged missed) =>
      ({ watch with next, invalidated := true }, some (.error (.watchOverflow missed)))
    | (_, .empty) => (watch, if closed then some (.error .watchClosed) else none)

end DiscoveryWatch

/-! ## Producers and consumers -/

/-- A watch, and what its consumer has got from `recv` so far. -/
structure Subscriber where
  watch : DiscoveryWatch
  returned : List (Except DiscoveryError DiscoveryEvent)

structure DiscoveryWorld where
  state : DynamicState
  channels : Nat → Channel DiscoveryEvent
  subscribers : List Subscriber

namespace DiscoveryWorld

def new (eventCapacity : Nat) : DiscoveryWorld where
  state := .new eventCapacity
  channels _ := .new eventCapacity
  subscribers := []

/-- Without a next revision the change is rejected. -/
def publish (w : DiscoveryWorld) (peers : List String) (observations : List Nat)
    (aligned : observations.length = peers.length) : DiscoveryWorld :=
  if w.state.revision ≥ u64Max then w
  else
    let state := { w.state with revision := w.state.revision + 1, peers, observations, aligned }
    let event : DiscoveryEvent := ⟨state.revision, .observed state.snapshot⟩
    { w with
      state
      channels := Function.update w.channels state.events ((w.channels state.events).send event) }

/-- Peers that stay keep their observation time; `clock` is read for each of the others. -/
def replace (w : DiscoveryWorld) (peers : List String) (clock : Nat → Nat) : DiscoveryWorld :=
  if w.state.peers = peers then w
  else
    w.publish peers
      (peers.mapIdx fun i peer =>
        match w.state.peers.finIdxOf? peer with
        | some index => w.state.observations.get (index.cast w.state.aligned.symm)
        | none => clock i)
      List.length_mapIdx

def observeAt (w : DiscoveryWorld) (peers : List (String × Nat)) : DiscoveryWorld :=
  if w.state.peers = peers.map Prod.fst ∧ w.state.observations = peers.map Prod.snd then w
  else w.publish (peers.map Prod.fst) (peers.map Prod.snd)
    (by rw [List.length_map, List.length_map])

def observe (w : DiscoveryWorld) (peers : List String) (now : Nat) : DiscoveryWorld :=
  w.observeAt (peers.map fun peer => (peer, now))

def finish (w : DiscoveryWorld) (unexpected : Bool) : DiscoveryWorld :=
  let w := { w with state := { w.state with available := false } }
  let w := if w.state.peers.isEmpty then w else w.publish [] [] rfl
  if unexpected then
    { w with
      state := { w.state with events := w.state.events + 1 }
      channels := Function.update w.channels (w.state.events + 1) (.new w.state.eventCapacity) }
  else w

def activate (w : DiscoveryWorld) : DiscoveryWorld :=
  { w with state := { w.state with available := true } }

/-- A refused subscription (`WatchClosed`) leaves no watch. -/
def liveWatch (w : DiscoveryWorld) : DiscoveryWorld :=
  if w.state.available then
    { w with
      subscribers := w.subscribers ++
        [⟨.new w.state.snapshot w.state.events (w.channels w.state.events).tail, []⟩] }
  else w

/-- The consumer calls `recv`. -/
def recv (w : DiscoveryWorld) (i : Nat) : DiscoveryWorld :=
  match w.subscribers[i]? with
  | none => w
  | some subscriber =>
    let (watch, result) := subscriber.watch.recv (w.channels subscriber.watch.events)
      (subscriber.watch.events != w.state.events)
    { w with
      subscribers := w.subscribers.set i ⟨watch, subscriber.returned ++ result.toList⟩ }

end DiscoveryWorld

inductive DiscoveryStep where
  | replace (peers : List String) (clock : Nat → Nat)
  | observe (peers : List String) (now : Nat)
  | observeAt (peers : List (String × Nat))
  | finish (unexpected : Bool)
  | activate
  | liveWatch
  | recv (i : Nat)

def DiscoveryWorld.step (w : DiscoveryWorld) : DiscoveryStep → DiscoveryWorld
  | .replace peers clock => w.replace peers clock
  | .observe peers now => w.observe peers now
  | .observeAt peers => w.observeAt peers
  | .finish unexpected => w.finish unexpected
  | .activate => w.activate
  | .liveWatch => w.liveWatch
  | .recv i => w.recv i

def DiscoveryWorld.run (w : DiscoveryWorld) (steps : List DiscoveryStep) : DiscoveryWorld :=
  steps.foldl DiscoveryWorld.step w

end Numax
