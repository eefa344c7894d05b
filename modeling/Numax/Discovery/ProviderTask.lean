import Numax.Discovery.Watch

/-!
# Generations of a provider

A provider works in generations (`ProviderTask` of `nx-core/src/discovery/dynamic.rs`). The
supervisor of a generation joins the worker, finishes the shared state, cleans up, and
publishes its completion; then `ensure_started` may spawn the next one. `ensure_started`
and `request_shutdown` are those of `nx-core/src/discovery/dns_srv.rs`.

Callers and tasks meet at the lock of the shared state, so that is how far their steps go.
A call of `ensure_started` holds the lock of the lifecycle from its start to its end; what
it does in between is one step for every look at the completion or the state. The guard
that `running` holds on the completion only delays a publication and is left out. Dropping
the provider asks for shutdown, and no caller is left.

A supervisor can be aborted, or fail, at any of its steps. Its guard then finishes the
state, unless it has been disarmed; the tasks of the generation may still run on for a
while.
-/

open Base

namespace Numax

structure TaskCompletion where
  result : Except DiscoveryError Unit
  restart : Except DiscoveryError Unit

/-- How a task ends: with a result, or without one (`JoinError`). -/
inductive TaskOutcome where
  | returned (result : Except DiscoveryError Unit)
  | failed (error : String)

namespace TaskOutcome

/-- The result of a worker, and whether it allows a restart: a panic does. -/
def worker (provider : String) :
    TaskOutcome → Except DiscoveryError Unit × Except DiscoveryError Unit
  | .returned result => (result, result)
  | .failed error => (.error (.provider provider ("provider task failed: " ++ error) false), .ok ())

def cleaned (provider : String) : TaskOutcome → Except DiscoveryError Unit
  | .returned result => result
  | .failed error =>
    .error (.provider provider ("provider cleanup task failed: " ++ error) false)

end TaskOutcome

/-! ## The supervisor -/

inductive SupervisorPhase where
  | working
  | joined (result restart : Except DiscoveryError Unit) (unexpected : Bool)
  | cleaning (result restart : Except DiscoveryError Unit)
  | cleaned (result restart cleaned : Except DiscoveryError Unit)
  | disarmed (completion : TaskCompletion)
  | completed (completion : TaskCompletion)
  | aborted

/-- What a worker or a cleanup does to the shared state. -/
inductive ProviderChange where
  | replace (peers : List String) (clock : Nat → Nat)
  | observe (peers : List String) (now : Nat)
  | observeAt (peers : List (String × Nat))

def DiscoveryWorld.change (w : DiscoveryWorld) : ProviderChange → DiscoveryWorld
  | .replace peers clock => w.replace peers clock
  | .observe peers now => w.observe peers now
  | .observeAt peers => w.observeAt peers

inductive SupervisorStep where
  | change (change : ProviderChange)
  | join (outcome : TaskOutcome)
  | finish
  | cleanup (outcome : TaskOutcome)
  | settle
  | publish
  | abort

structure Generation where
  stopRequested : Bool
  phase : SupervisorPhase

/-- `Result::is_err`. -/
def isErr : Except DiscoveryError Unit → Bool
  | .error _ => true
  | .ok _ => false

/-- Without a confirmed cleanup there is no restart, whatever the worker says. -/
def restartAfter (provider : String) (restart : Except DiscoveryError Unit)
    (describe : DiscoveryError → String) :
    Except DiscoveryError Unit → Except DiscoveryError Unit
  | .ok _ => restart
  | .error error =>
    .error (.provider provider
      ("provider cleanup was not confirmed; restart blocked: " ++ describe error) false)

section Steps

variable (provider : String) (describe : DiscoveryError → String)

/-- A step of a generation, and what it does to the shared state. -/
def Generation.step (g : Generation) (w : DiscoveryWorld) :
    SupervisorStep → Option (Generation × DiscoveryWorld)
  | .change change =>
    match g.phase with
    -- The worker, the cleanup, or a task that the supervisor has left behind.
    | .working => some (g, w.change change)
    | .cleaning _ _ => some (g, w.change change)
    | .aborted => some (g, w.change change)
    | _ => none
  | .join outcome =>
    match g.phase with
    | .working =>
      let (result, restart) := outcome.worker provider
      -- Even a worker that returns `Ok` must have been asked to stop.
      some ({ g with phase := .joined result restart (!g.stopRequested || isErr result) }, w)
    | _ => none
  | .finish =>
    match g.phase with
    | .joined result restart unexpected =>
      some ({ g with phase := .cleaning result restart }, w.finish unexpected)
    | _ => none
  | .cleanup outcome =>
    match g.phase with
    | .cleaning result restart =>
      some ({ g with phase := .cleaned result restart (outcome.cleaned provider) }, w)
    | _ => none
  | .settle =>
    match g.phase with
    | .cleaned result restart cleaned =>
      let completion : TaskCompletion :=
        -- The error of the worker comes before that of the cleanup.
        { result := if isErr result then result else cleaned
          restart := restartAfter provider restart describe cleaned }
      some ({ g with phase := .disarmed completion },
        if isErr cleaned then w.finish true else w)
    | _ => none
  | .publish =>
    match g.phase with
    | .disarmed completion => some ({ g with phase := .completed completion }, w)
    | _ => none
  | .abort =>
    match g.phase with
    | .completed _ => none
    | .aborted => none
    -- The guard does nothing any more, and the completion is never published.
    | .disarmed _ => some ({ g with phase := .aborted }, w)
    | _ => some ({ g with phase := .aborted }, w.finish true)

/-! ## Callers -/

/-- Where the call of `ensure_started` is that holds the lock. -/
inductive CallerPhase where
  | checking
  | spawning
  | activated
deriving DecidableEq

structure Provider where
  world : DiscoveryWorld
  generations : List Generation
  stopped : Bool
  caller : Option CallerPhase

inductive ProviderEvent where
  | enter
  | check
  | activate
  | start
  | requestShutdown
  | liveWatch
  | recv (i : Nat)
  | generation (i : Nat) (step : SupervisorStep)

namespace Provider

def new (eventCapacity : Nat) : Provider := ⟨.new eventCapacity, [], false, none⟩

/-- The error allows another attempt. -/
def retryable : DiscoveryError → Bool
  | .provider _ _ retryable => retryable
  | _ => false

/-- The first part of `ensure_started`, up to the look at the completion in `running`. -/
def enter (s : Provider) : Except DiscoveryError CallerPhase :=
  if s.stopped then .error (.provider provider "provider is shut down" false)
  else
    match s.generations.getLast? with
    | none => .ok .spawning
    | some task =>
      match task.phase with
      | .completed done =>
        match done.restart with
        | .ok _ => .ok .spawning
        -- A retryable error of the worker lets the next generation start.
        | .error error => if retryable error then .ok .spawning else .error error
      | .aborted => .error (.provider provider "generation supervisor failed" false)
      | _ => .ok .checking

def checkAvailable (s : Provider) : Except DiscoveryError Unit :=
  if s.world.state.available then .ok () else .error .watchClosed

/-- The sender of the current generation asks it to stop. -/
def requestShutdown (s : Provider) : Provider :=
  { s with
    stopped := true
    generations := s.generations.modify (s.generations.length - 1) fun g =>
      { g with stopRequested := true } }

def step (s : Provider) : ProviderEvent → Option Provider
  | .enter =>
    if s.caller.isSome then none
    else
      match s.enter provider with
      | .error _ => some s
      | .ok phase => some { s with caller := some phase }
  | .check => if s.caller = some .checking then some { s with caller := none } else none
  | .activate =>
    if s.caller = some .spawning then
      some { s with world := s.world.activate, caller := some .activated }
    else none
  | .start =>
    if s.caller = some .activated then
      some { s with generations := s.generations ++ [⟨false, .working⟩], caller := none }
    else none
  | .requestShutdown => if s.caller.isSome then none else some s.requestShutdown
  | .liveWatch => some { s with world := s.world.liveWatch }
  | .recv i => some { s with world := s.world.recv i }
  | .generation i step =>
    s.generations[i]?.bind fun g =>
      (g.step provider describe s.world step).map fun next =>
        { s with world := next.2, generations := s.generations.set i next.1 }

/-- What calls of `ensure_started` return in a step. -/
def returned (s : Provider) : ProviderEvent → List (Except DiscoveryError Unit)
  | .enter =>
    match s.enter provider with
    | .error error => [.error error]
    | .ok _ => []
  | .check => [s.checkAvailable]
  | .start => [.ok ()]
  | _ => []

end Provider

end Steps

end Numax
