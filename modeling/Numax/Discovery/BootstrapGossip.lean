import Numax.Base.Backoff
import Numax.Base.Distinct
import Numax.Base.FirstDistinct
import Numax.Discovery.Deadlines
import Numax.Discovery.Watch
import Numax.Net.Bootstrap

/-!
# Bootstrap gossip

The provider that asks bootstrap seeds for endpoints
(`nx-core/src/discovery/bootstrap_gossip.rs`): the loop `run_bootstrap` with the schedule
of every seed, and the views of the seeds that it publishes. A seed is named by its
position in the configuration; the loop keeps its address with its schedule.

What the loop meets is part of the events: the answers of the seeds, announcements, and
what the clock reads. Durations and instants are nanoseconds, and `latest` is the last
instant of the clock. Requests are not followed further than whom they are sent to.
-/

open Base Std

namespace Numax

/-! ## Errors of a query -/

inductive WireRetryPolicy where
  | fatal
  | retry
  | retryAfter (delay : Nat)
  | requestFatal
deriving DecidableEq, Repr

def WireError.retryPolicy : WireError → WireRetryPolicy
  | .protocolMismatch _ _ => .fatal
  | .notAuthorized _ => .fatal
  | .rateLimited (some retryAfterMs) => .retryAfter (retryAfterMs.toNat * nanosPerMilli)
  | .rateLimited none => .retry
  | .internal _ => .retry
  | .opRejected _ => .requestFatal

/-- The errors of the exchange, and those of the client before it. -/
inductive SeedQueryError where
  | exchange (error : BootstrapError)
  | concurrencyLimitReached (limit : Nat)
  | nodeConfig (message : String)
deriving DecidableEq, Repr

def bootstrapErrorIsFatal : SeedQueryError → Bool
  | .exchange (.invalidConfig _) => true
  | .exchange (.rejected _) => true
  | .exchange (.invalidResponse _) => true
  | .nodeConfig _ => true
  | .exchange (.wire wire) =>
    match wire.retryPolicy with
    | .fatal => true
    | .requestFatal => true
    | _ => false
  | _ => false

def bootstrapRetryAfter : SeedQueryError → Option Nat
  | .exchange (.wire wire) =>
    match wire.retryPolicy with
    | .retryAfter delay => some delay
    | _ => none
  | _ => none

/-! ## Configuration -/

structure BootstrapGossipDiscoveryConfig where
  seeds : List String
  clusterId : String
  refreshInterval : Nat
  retryInitial : Nat
  retryMax : Nat
  staleAfter : Nat
  maxSeeds : Nat
  maxCandidates : Nat
  eventCapacity : Nat
  /-- It is a `Duration`. -/
  retryMax_le : retryMax ≤ durationMax

namespace BootstrapGossipDiscoveryConfig

def provider : String := "bootstrap"

def invalid (message : String) : DiscoveryError := .invalidConfiguration provider message

def validateConfig (latest now : Nat) (config : BootstrapGossipDiscoveryConfig) :
    Except DiscoveryError Unit := do
  validateEventCapacity provider config.eventCapacity
  if config.seeds.isEmpty then
    .error (invalid "at least one bootstrap seed is required")
  if config.seeds.length > config.maxSeeds then
    .error (invalid
      ("bootstrap seed count exceeds the " ++ toString config.maxSeeds ++ " seed limit"))
  if config.clusterId.utf8ByteSize = 0 ∨ config.clusterId.utf8ByteSize > 128 then
    .error (invalid "cluster_id length must be in 1..=128 bytes")
  if config.refreshInterval = 0 ∨ config.retryInitial = 0 ∨ config.retryMax < config.retryInitial ∨
      config.staleAfter = 0 ∨ config.maxSeeds = 0 ∨ config.maxCandidates = 0 ∨
      config.maxCandidates > maxBootstrapResponseCapacity then
    .error (invalid "intervals and limits are inconsistent")
  validateDurations latest now provider
    [("refresh_interval", config.refreshInterval), ("retry_initial", config.retryInitial),
      ("retry_max", config.retryMax), ("stale_after", config.staleAfter)]

end BootstrapGossipDiscoveryConfig

/-! ## The schedule of a seed -/

structure SeedSchedule where
  nextProbe : Nat
  notBefore : Nat
  retryDelay : Nat
  disabled : Bool
deriving DecidableEq, Repr

section Loop

variable (latest : Nat) (config : BootstrapGossipDiscoveryConfig)

open BootstrapGossipDiscoveryConfig (provider)

namespace SeedSchedule

def new (now : Nat) : SeedSchedule :=
  { nextProbe := now, notBefore := now, retryDelay := config.retryInitial, disabled := false }

def deadline (schedule : SeedSchedule) : Option Nat :=
  if schedule.disabled then none else some (max schedule.nextProbe schedule.notBefore)

def announce (schedule : SeedSchedule) (now : Nat) : SeedSchedule :=
  { schedule with nextProbe := now }

/-- The schedule is disabled before a deadline is checked: one that is not a time must
never turn into an immediate retry. -/
def failed (schedule : SeedSchedule) (error : SeedQueryError) (now : Nat) :
    SeedSchedule × Except DiscoveryError Unit :=
  let wasDisabled := bootstrapErrorIsFatal error
  let schedule := { schedule with disabled := true }
  match checkedDeadline latest now (min ((bootstrapRetryAfter error).getD 0) config.retryMax)
      provider "retry_after" with
  | .error error => (schedule, .error error)
  | .ok notBefore =>
    -- The barrier stands even if there is no time for the retry.
    let schedule := { schedule with notBefore }
    match checkedDeadline latest now schedule.retryDelay provider "retry_delay" with
    | .error error => (schedule, .error error)
    | .ok nextProbe =>
      let retryDelay := min (saturatingDouble schedule.retryDelay) config.retryMax
      ({ schedule with nextProbe, retryDelay, disabled := wasDisabled }, .ok ())

end SeedSchedule

/-- When to ask again, and until when the answer counts. -/
def seedDeadlines (now candidateTtl : Nat) : Except DiscoveryError (Nat × Nat) := do
  let refresh ← checkedDeadline latest now config.refreshInterval provider "refresh_interval"
  let expiry ←
    checkedDeadline latest now (min candidateTtl config.staleAfter) provider "candidate_ttl"
  return (refresh, expiry)

/-- What an answer does to the schedule; with the expiry of the view, unless a deadline is
not a time. -/
def SeedSchedule.answered (schedule : SeedSchedule) (response : BootstrapResponse) (now : Nat) :
    SeedSchedule × Option Nat :=
  let schedule := { schedule with retryDelay := config.retryInitial }
  match seedDeadlines latest config now response.candidateTtl with
  | .error _ => ({ schedule with disabled := true }, none)
  | .ok (refresh, expiresAt) => ({ schedule with nextProbe := refresh }, some expiresAt)

/-! ## Views -/

structure SeedView where
  endpoints : List String
  expiresAt : Nat
  observedAt : Nat
deriving DecidableEq, Repr

/-- The seed itself and what it suggests. -/
def seedEndpoints (seed : String) (suggested : List String) : List String :=
  (suggested.foldl Distinct.push (Distinct.empty.push seed)).items.take config.maxCandidates

/-- `flatten_views`. -/
def flattenViews (views : OrdMap String SeedView) : List String :=
  firstDistinct config.maxCandidates
    ((config.seeds.filterMap fun seed => views[seed]?).flatMap SeedView.endpoints)

/-- The views, the seeds an announcement has been sent to, and the state the provider
publishes in. -/
structure GossipViews where
  views : OrdMap String SeedView
  announcedSeeds : OrdSet String
  world : DiscoveryWorld

def publishViews (v : GossipViews) (now : Nat) : GossipViews :=
  let views := v.views.filter fun _ view => decide (view.expiresAt > now)
  let peers := (flattenViews config views).filterMap fun peer =>
    let listing := (OrdMap.valuesAsc views).filter fun view => view.endpoints.contains peer
    -- A peer of several views was observed when the newest of them was.
    (listing.map SeedView.observedAt).max?.map fun observedAt => (peer, observedAt)
  { v with views, world := v.world.observeAt peers }

/-! ## A round -/

/-- A seed with its position and its schedule. -/
structure SeedSlot where
  position : Nat
  seed : String
  schedule : SeedSchedule

/-- What the loop finds when it comes to a seed: what the clock reads when the deadline is
checked; and if it asks, each time a view expires meanwhile, how that ends, and what the
clock reads when the schedule, the view and the published state are written. Without a
result, shutdown comes first. -/
structure SeedLook where
  now : Nat
  expiries : List Nat
  result : Option (Except SeedQueryError BootstrapResponse)
  clock : Nat
  observedAt : Nat
  publishedAt : Nat

/-- A round over the seeds: the announcement to send, what is found at each seed, and what
the clock reads when the views are published at the end. -/
structure GossipRound where
  announcement : Option String
  look : Nat → SeedLook
  publishedAt : Nat

/-- An entry of the journal: the schedule was told of an announcement, or the seed was
asked. -/
inductive SeedEntry where
  | announced (position now : Nat)
  | queried (position now : Nat) (result : Option (Except SeedQueryError BootstrapResponse))
      (clock : Nat)
deriving DecidableEq

def SeedEntry.position : SeedEntry → Nat
  | .announced position _ => position
  | .queried position _ _ _ => position

structure SeedVisit where
  slot : SeedSlot
  views : GossipViews
  shutdown : Bool
  entry : Option SeedEntry

/-- What a result does to the schedule. -/
def SeedSchedule.handle (schedule : SeedSchedule)
    (result : Option (Except SeedQueryError BootstrapResponse)) (clock : Nat) : SeedSchedule :=
  match result with
  | none => schedule
  | some (.error error) => (schedule.failed latest config error clock).1
  | some (.ok response) => (schedule.answered latest config response clock).1

/-- What a result does to the view of the seed. -/
def handleViews (slot : SeedSlot) (views : OrdMap String SeedView) (look : SeedLook) :
    OrdMap String SeedView :=
  match look.result with
  | none => views
  | some (.error _) => views
  | some (.ok response) =>
    match (slot.schedule.answered latest config response look.clock).2 with
    | none => views.erase slot.seed
    | some expiresAt =>
      views.insert slot.seed
        { endpoints := seedEndpoints config slot.seed response.endpoints, expiresAt
          observedAt := look.observedAt }

/-- The body of the loop over the seeds. -/
def visitSeed (round : GossipRound) (slot : SeedSlot) (v : GossipViews) (look : SeedLook) :
    SeedVisit :=
  if slot.schedule.deadline.all fun deadline => decide (deadline > look.now) then
    ⟨slot, v, false, none⟩
  else
    let v := if round.announcement.isSome then
      { v with announcedSeeds := v.announcedSeeds.insert slot.seed } else v
    -- Views that expire while the seed is asked go without waiting for it.
    let v := look.expiries.foldl (publishViews config) v
    let entry := SeedEntry.queried slot.position look.now look.result look.clock
    if look.result.isNone then ⟨slot, v, true, some entry⟩
    else
      let schedule := slot.schedule.handle latest config look.result look.clock
      let v := { v with views := handleViews latest config slot v.views look }
      ⟨{ slot with schedule }, publishViews config v look.publishedAt, false, some entry⟩

structure GossipRoundEnd where
  slots : List SeedSlot
  views : GossipViews
  shutdown : Bool
  entries : List SeedEntry

def visitSeeds (round : GossipRound) : List SeedSlot → GossipViews → GossipRoundEnd
  | [], v => ⟨[], v, false, []⟩
  | slot :: rest, v =>
    let visit := visitSeed latest config round slot v (round.look slot.position)
    if visit.shutdown then ⟨visit.slot :: rest, visit.views, true, visit.entry.toList⟩
    else
      let later := visitSeeds round rest visit.views
      { later with
        slots := visit.slot :: later.slots
        entries := visit.entry.toList ++ later.entries }

/-! ## The loop -/

inductive GossipPhase where
  | awake
  | asleep (deadline : Option Nat)
  | terminated
deriving DecidableEq, Repr

structure GossipLoop where
  slots : List SeedSlot
  views : GossipViews
  phase : GossipPhase

inductive GossipEvent where
  | round (round : GossipRound)
  | announced (now : Nat)
  | woke (now : Nat)
  /-- The shutdown channel has a new value; it is closed like one that asks for it. -/
  | shutdown (requested : Bool)

namespace GossipLoop

def start (views : GossipViews) (now : Nat) : GossipLoop where
  slots := config.seeds.mapIdx fun position seed => ⟨position, seed, .new config now⟩
  views
  phase := .awake

/-- The loop sleeps until the first seed is due or the first view expires. -/
def sleepUntil (slots : List SeedSlot) (views : OrdMap String SeedView) : Option Nat :=
  (slots.filterMap (fun slot => slot.schedule.deadline) ++
    (OrdMap.valuesAsc views).map SeedView.expiresAt).min?

def step (loop : GossipLoop) (event : GossipEvent) : Option GossipLoop :=
  match loop.phase, event with
  | .awake, .round round =>
    let result := visitSeeds latest config round loop.slots loop.views
    if result.shutdown then some ⟨result.slots, result.views, .terminated⟩
    else
      let views := publishViews config result.views round.publishedAt
      some ⟨result.slots, views, .asleep (sleepUntil result.slots views.views)⟩
  | .awake, .shutdown true => some { loop with phase := .terminated }
  | .asleep _, .announced now =>
    some { loop with
      slots := loop.slots.map fun slot => { slot with schedule := slot.schedule.announce now }
      phase := .awake }
  | .asleep deadline, .woke now =>
    if deadline.any fun deadline => decide (deadline ≤ now) then
      some { loop with phase := .awake }
    else none
  | .asleep _, .shutdown requested =>
    some { loop with phase := if requested then .terminated else .awake }
  | _, _ => none

/-- What a step writes to the journal. -/
def entries (loop : GossipLoop) : GossipEvent → List SeedEntry
  | .round round => (visitSeeds latest config round loop.slots loop.views).entries
  | .announced now => loop.slots.map fun slot => .announced slot.position now
  | .woke _ => []
  | .shutdown _ => []

end GossipLoop

end Loop

end Numax
