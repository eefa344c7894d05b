import Numax.Discovery.Deadlines
import Numax.Discovery.SrvRecords
import Numax.Discovery.Watch

/-!
# The DNS-SRV refresh loop

The worker of the DNS-SRV provider (`run_dns_refresh` of
`nx-core/src/discovery/dns_srv.rs`). It sleeps until the next refresh, looks the service
up, and publishes what it gets; while a lookup is pending it still clears a view whose
lifetime is over.

What the loop meets is part of the events: timers that fire, results of lookups, and what
the clock reads. Durations and instants are nanoseconds, and `latest` is the last instant
of the clock. A change of the shutdown channel that does not ask for shutdown changes
nothing and is left out.
-/

open Base

namespace Numax

structure DnsSrvDiscoveryConfig where
  serviceName : String
  clusterId : String
  retryInterval : Nat
  maxRefreshInterval : Nat
  maxCandidates : Nat
  eventCapacity : Nat

namespace DnsSrvDiscoveryConfig

def provider : String := "dns-srv"

def invalid (message : String) : DiscoveryError := .invalidConfiguration provider message

/-- `_service`, of letters, digits and hyphens. -/
def validService : List Char → Bool
  | '_' :: name => !name.isEmpty && name.all fun c => c.isAlphanum || c == '-'
  | _ => false

def validProtocol (label : List Char) : Bool :=
  label.map Char.toLower == ['_', 't', 'c', 'p'] || label.map Char.toLower == ['_', 'u', 'd', 'p']

/-- `isName` is what the DNS library accepts (`Name::from_ascii`). -/
def validateConfig (isName : String → Bool) (latest now : Nat) (config : DnsSrvDiscoveryConfig) :
    Except DiscoveryError Unit := do
  validateEventCapacity provider config.eventCapacity
  if config.serviceName.toList.getLast? ≠ some '.' then
    .error (invalid "service_name must be a fully-qualified name ending with '.'")
  let labels := (SrvRecord.trimDots config.serviceName.toList).splitOn '.'
  if labels.length < 3 ∨ (labels[0]?.any validService) = false ∨
      (labels[1]?.any validProtocol) = false then
    .error (invalid "service_name must use the fully-qualified _service._tcp|_udp.domain. form")
  if isName config.serviceName = false then
    .error (invalid "service_name is not a valid DNS name")
  if trim config.clusterId.toList = [] then
    .error (invalid "cluster_id must not be empty")
  if config.retryInterval = 0 ∨ config.maxRefreshInterval = 0 ∨ config.maxCandidates = 0 then
    .error (invalid "intervals and limits must be greater than zero")
  validateDurations latest now provider
    [("retry_interval", config.retryInterval), ("max_refresh_interval", config.maxRefreshInterval)]

end DnsSrvDiscoveryConfig

structure SrvAnswer (dns : DnsNames) where
  records : List (SrvRecord dns)
  validUntil : Nat

/-- The loop sleeps until the next refresh, waits for a lookup, or has returned. -/
inductive DnsPhase where
  | sleeping (nextRefresh : Nat)
  | pending
  | returned (result : Except DiscoveryError Unit)

structure DnsRefresh where
  world : DiscoveryWorld
  validUntil : Option Nat
  phase : DnsPhase

/-- A timer of the loop fires, or the lookup ends. With an answer come the readings of the
clock for what is observed now. -/
inductive DnsEvent (dns : DnsNames) where
  | wake (now : Nat)
  | expire (now : Nat)
  | answer (answer : SrvAnswer dns) (now observedAt : Nat) (clock : Nat → Nat)
  | fail (error : DiscoveryError) (now : Nat)
  | shutdown

section Loop

variable {dns : DnsNames} (v6 : Ipv6Text) (debug : List Char → String) (latest : Nat)
  (config : DnsSrvDiscoveryConfig)

open DnsSrvDiscoveryConfig (provider)

def retryDeadline (now : Nat) (validUntil : Option Nat) : Except DiscoveryError Nat :=
  (checkedDeadline latest now config.retryInterval provider "retry_interval").map fun retry =>
    -- A view whose lifetime still runs is refreshed at its end, at the latest.
    ((validUntil.filter fun deadline => decide (deadline > now)).map fun deadline =>
      min deadline retry).getD retry

/-- What the provider lists for an answer. -/
def SrvAnswer.peers (answer : SrvAnswer dns) : List String :=
  recordsToPeers v6 debug answer.records config.maxCandidates

/-- Only a newly validated lifetime renews the observations. -/
def applyDnsAnswer (world : DiscoveryWorld) (answer : SrvAnswer dns) (previous : Option Nat)
    (now observedAt : Nat) (clock : Nat → Nat) :
    DiscoveryWorld × Except DiscoveryError (Option Nat × Nat) :=
  if answer.validUntil ≤ now then
    -- The answer was over when it came: the view goes, and there is no lifetime.
    (world.replace [] clock,
      (checkedDeadline latest now config.retryInterval provider "retry_interval").map fun retry =>
        (none, retry))
  else
    match checkedDeadline latest now config.maxRefreshInterval provider "max_refresh_interval" with
    | .error error => (world, .error error)
    | .ok refresh =>
      let peers := answer.peers v6 debug config
      -- A resolver may give the same cached answer again; then observations are kept.
      let world := if previous.any fun previous => decide (answer.validUntil ≤ previous) then
        world.replace peers clock else world.observe peers observedAt
      (world, .ok (some answer.validUntil, min answer.validUntil refresh))

namespace DnsRefresh

/-- The worker starts with a refresh that is due. -/
def start (world : DiscoveryWorld) (now : Nat) : DnsRefresh := ⟨world, none, .sleeping now⟩

/-- The end of a lookup with an error: the view goes if its lifetime is over. -/
def failed (loop : DnsRefresh) (error : DiscoveryError) (now : Nat) : DnsRefresh :=
  -- The lifetime itself is kept, also when it is over.
  let world := if loop.validUntil.any fun deadline => decide (now ≥ deadline) then
    loop.world.replace [] fun _ => now else loop.world
  let fatal := match error with
    | .provider _ _ retryable => !retryable
    | _ => false
  if fatal then { loop with world, phase := .returned (.error error) }
  else
    match retryDeadline latest config now loop.validUntil with
    | .error error => { loop with world, phase := .returned (.error error) }
    | .ok nextRefresh => { loop with world, phase := .sleeping nextRefresh }

def step (loop : DnsRefresh) (event : DnsEvent dns) : Option DnsRefresh :=
  match loop.phase, event with
  | .sleeping nextRefresh, .wake now =>
    if nextRefresh ≤ now then some { loop with phase := .pending } else none
  | .sleeping _, .shutdown => some { loop with phase := .returned (.ok ()) }
  | .pending, .shutdown => some { loop with phase := .returned (.ok ()) }
  -- The lookup goes on while the view is cleared.
  | .pending, .expire now =>
    if loop.validUntil.any fun deadline => decide (deadline ≤ now) then
      some { loop with world := loop.world.replace [] fun _ => now, validUntil := none }
    else none
  | .pending, .answer answer now observedAt clock =>
    match applyDnsAnswer v6 debug latest config loop.world answer loop.validUntil now observedAt
        clock with
    | (world, .error error) => some { loop with world, phase := .returned (.error error) }
    | (world, .ok (validUntil, nextRefresh)) =>
      some { world, validUntil, phase := .sleeping nextRefresh }
  | .pending, .fail error now => some (loop.failed latest config error now)
  | _, _ => none

/-- The answers that are accepted: their lifetime is not over, and there is a time for the
next refresh. -/
def accepted (loop : DnsRefresh) : DnsEvent dns → List (SrvAnswer dns)
  | .answer answer now _ _ =>
    match loop.phase with
    | .pending =>
      if answer.validUntil ≤ now then []
      else
        match checkedDeadline latest now config.maxRefreshInterval provider
            "max_refresh_interval" with
        | .error _ => []
        | .ok _ => [answer]
    | _ => []
  | _ => []

end DnsRefresh

end Loop

end Numax
