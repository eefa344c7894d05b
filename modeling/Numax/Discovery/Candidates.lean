import Numax.Discovery.Snapshot
import Numax.Base.Distinct
import Numax.Base.Machine

/-!
# The candidate registry

Peer candidates of all discovery sources, in one bounded table
(`nx-core/src/sync_manager/candidates.rs`). A record says which sources contribute
an endpoint and until when. The order is that of the sources' own lists, source by
source. Endpoints of this node stay in the lists of the sources but never get a
record.

An operation returns the registry after it and what the source returns: whether the
endpoints have changed, or why the operation was refused. `canonicalize` is
`canonicalize_endpoint`, of which nothing is used but its result, and `latest` is the
last instant of the clock.
-/

open Base Std

namespace Numax

structure CandidateContribution where
  expiresAt : Option Nat
deriving DecidableEq, Repr

structure CandidateRecord where
  sources : OrdMap String CandidateContribution

structure CandidateRegistry where
  maxCandidates : Nat
  order : List String
  sourceOrder : List String
  sourceCandidates : OrdMap String (List String)
  records : OrdMap String CandidateRecord
  localEndpoints : OrdSet String

def candidateLimitReached (limit : Nat) : DiscoveryError :=
  .invalidConfiguration "coordinator" ("peer candidate limit reached: " ++ toString limit)

def ttlOutOfRange (sourceId : String) : DiscoveryError :=
  .invalidConfiguration sourceId "candidate_ttl exceeds the platform time range"

namespace CandidateRegistry

def new (maxCandidates : Nat) : Except DiscoveryError CandidateRegistry :=
  if maxCandidates = 0 then
    .error (.invalidConfiguration "coordinator" "max_candidates must be greater than zero")
  else
    .ok { maxCandidates, order := [], sourceOrder := [], sourceCandidates := ∅, records := ∅
          localEndpoints := ∅ }

def endpoints (r : CandidateRegistry) : List String :=
  r.order.filter fun endpoint => r.records.contains endpoint

/-! ## Parts of the operations -/

/-- Does the source contribute the endpoint? -/
def contributes (r : CandidateRegistry) (sourceId endpoint : String) : Bool :=
  r.records[endpoint]?.any fun record => record.sources.contains sourceId

def pruneEmpty (r : CandidateRegistry) : CandidateRegistry :=
  { r with records := r.records.filter fun _ record => !record.sources.isEmpty }

def registerSource (r : CandidateRegistry) (sourceId : String) : CandidateRegistry :=
  if sourceId ∈ r.sourceOrder then r else { r with sourceOrder := r.sourceOrder ++ [sourceId] }

def pruneSourceCandidates (r : CandidateRegistry) : CandidateRegistry :=
  { r with
    sourceCandidates :=
      (r.sourceCandidates.map fun sourceId candidates =>
        candidates.filter (r.contributes sourceId)).filter fun _ candidates => !candidates.isEmpty }

/-- The candidates of one source, behind what is there. -/
def pushSource (r : CandidateRegistry) (order : Distinct String) (sourceId : String) :
    Distinct String :=
  match r.sourceCandidates[sourceId]? with
  | none => order
  | some candidates => order.pushWhere (r.contributes sourceId) candidates

def rebuildOrder (r : CandidateRegistry) : CandidateRegistry :=
  { r with order := (r.sourceOrder.foldl r.pushSource .empty).items }

/-- Keep the contributions that pass the test. -/
def retainContributions (r : CandidateRegistry)
    (keep : String → String → CandidateContribution → Bool) : CandidateRegistry :=
  { r with
    records := r.records.map fun endpoint record =>
      ⟨record.sources.filter fun sourceId contribution => keep endpoint sourceId contribution⟩ }

def removeSourceExcept (r : CandidateRegistry) (sourceId : String) (retained : OrdSet String) :
    CandidateRegistry :=
  (r.retainContributions fun endpoint source _ =>
    retained.contains endpoint || source != sourceId).pruneEmpty

/-- `records.entry(endpoint).or_default().sources.insert(source_id, contribution)`. -/
def contribute (r : CandidateRegistry) (sourceId endpoint : String)
    (contribution : CandidateContribution) : CandidateRegistry :=
  { r with
    records := r.records.insert endpoint
      ⟨(r.records[endpoint]?.elim ∅ (·.sources)).insert sourceId contribution⟩ }

/-- The end of most operations: forget what has no source, order what is left, and
compare with the endpoints before. -/
def settle (before r : CandidateRegistry) : CandidateRegistry × Bool :=
  let r := r.pruneEmpty.pruneSourceCandidates.rebuildOrder
  (r, decide (r.endpoints ≠ before.endpoints))

/-! ## Replacing what a source contributes -/

/-- The loop over the contributions of a replacement. -/
def contributeLoop (sourceId : String) : List (String × CandidateContribution) →
    CandidateRegistry → List String → Except DiscoveryError (CandidateRegistry × List String)
  | [], updated, candidates => .ok (updated, candidates)
  | (endpoint, contribution) :: rest, updated, candidates =>
    let candidates := candidates ++ [endpoint]
    if updated.localEndpoints.contains endpoint then
      contributeLoop sourceId rest updated candidates
    else if !updated.records.contains endpoint &&
        decide (updated.records.size ≥ updated.maxCandidates) then
      .error (candidateLimitReached updated.maxCandidates)
    else contributeLoop sourceId rest
      (updated.contribute sourceId endpoint contribution) candidates

/-- The replacement is prepared next to the registry, which a refusal leaves alone. -/
def replaceContributions (r : CandidateRegistry) (sourceId : String)
    (contributions : List (String × CandidateContribution)) :
    CandidateRegistry × Except DiscoveryError Bool :=
  let retained := contributions.foldl (fun set entry => set.insert entry.1) (∅ : OrdSet String)
  let updated := (r.registerSource sourceId).removeSourceExcept sourceId retained
  match contributeLoop sourceId contributions updated [] with
  | .error error => (r, .error error)
  | .ok (updated, candidates) =>
    let updated := { updated with
      sourceCandidates := updated.sourceCandidates.insert sourceId candidates }.rebuildOrder
    (updated, .ok (decide (updated.order ≠ r.order)))

section Commands

variable (canonicalize : String → Except DiscoveryError String) (latest : Nat)

/-- The canonical endpoints of a list, each once; others are skipped. -/
def canonicalPeers (peers : List String) : List String :=
  (peers.foldl (fun canonical peer =>
    match canonicalize peer with
    | .ok endpoint => canonical.push endpoint
    | .error _ => canonical) Distinct.empty).items

def replaceSource (r : CandidateRegistry) (sourceId : String) (peers : List String)
    (ttl : Option Nat) (now : Nat) : CandidateRegistry × Except DiscoveryError Bool :=
  if peers.length > r.maxCandidates then
    (r, .error (.invalidConfiguration "coordinator" ("discovery snapshot exceeds the " ++
      toString r.maxCandidates ++ " candidate limit")))
  else
    let canonical := canonicalPeers canonicalize peers
    -- empty, invalid-only and local-only snapshots acquire no lease
    let leased := canonical.any fun peer => !r.localEndpoints.contains peer
    match ttl, leased with
    | some ttl, true =>
      match checkedAdd latest now ttl with
      | none => (r, .error (ttlOutOfRange sourceId))
      | some deadline =>
        r.replaceContributions sourceId (canonical.map fun peer => (peer, ⟨some deadline⟩))
    | _, _ => r.replaceContributions sourceId (canonical.map fun peer => (peer, ⟨none⟩))

/-- Keep the position of the first and the lease of the newest occurrence. -/
def mergeContribution (contributions : List (String × CandidateContribution)) (peer : String)
    (expiresAt : Option Nat) : List (String × CandidateContribution) :=
  if contributions.any fun entry => entry.1 == peer then
    contributions.map fun entry =>
      if entry.1 = peer then (entry.1, ⟨max entry.2.expiresAt expiresAt⟩) else entry
  else contributions ++ [(peer, ⟨expiresAt⟩)]

/-- The observations of a snapshot that are still live, by canonical endpoint. -/
def observedLoop (sourceId : String) (ttl : Option Nat) (now : Nat) :
    List (String × Nat) → List (String × CandidateContribution) →
      Except DiscoveryError (List (String × CandidateContribution))
  | [], contributions => .ok contributions
  | (peer, at') :: rest, contributions =>
    let add (expiresAt : Option Nat) :=
      match canonicalize peer with
      | .ok peer => mergeContribution contributions peer expiresAt
      | .error _ => contributions
    match ttl with
    | none => observedLoop sourceId ttl now rest (add none)
    | some lease =>
      match checkedAdd latest at' lease with
      | none => .error (ttlOutOfRange sourceId)
      | some deadline =>
        if deadline ≤ now then observedLoop sourceId ttl now rest contributions
        else observedLoop sourceId ttl now rest (add (some deadline))

def replaceSnapshot (r : CandidateRegistry) (sourceId : String) (snapshot : DiscoverySnapshot)
    (ttl : Option Nat) (now : Nat) : CandidateRegistry × Except DiscoveryError Bool :=
  match snapshot.observations with
  | none => r.replaceSource canonicalize latest sourceId snapshot.peers ttl now
  | some observations =>
    if snapshot.peers.length > r.maxCandidates then
      (r, .error (.invalidConfiguration sourceId "discovery snapshot exceeds candidate limit"))
    else
      match observedLoop canonicalize latest sourceId ttl now (snapshot.peers.zip observations) []
      with
      | .error error => (r, .error error)
      | .ok contributions => r.replaceContributions sourceId contributions

/-! ## Single changes -/

/-- List and record a contribution. -/
def insertCandidate (r : CandidateRegistry) (sourceId endpoint : String)
    (contribution : CandidateContribution) : CandidateRegistry :=
  let candidates := (r.sourceCandidates[sourceId]?).getD []
  let candidates := if endpoint ∈ candidates then candidates else candidates ++ [endpoint]
  let registered := r.registerSource sourceId
  let listed := { registered with
    sourceCandidates := registered.sourceCandidates.insert sourceId candidates }
  (listed.contribute sourceId endpoint contribution).rebuildOrder

/-- A canonical endpoint. -/
def add (r : CandidateRegistry) (sourceId endpoint : String) (ttl : Option Nat) (now : Nat) :
    CandidateRegistry × Except DiscoveryError Bool :=
  let insert (expiresAt : Option Nat) :=
    let updated := r.insertCandidate sourceId endpoint ⟨expiresAt⟩
    (updated, .ok (decide (updated.order ≠ r.order)))
  if r.localEndpoints.contains endpoint then (r, .ok false)
  else if !r.records.contains endpoint && decide (r.records.size ≥ r.maxCandidates) then
    (r, .error (candidateLimitReached r.maxCandidates))
  else
    match ttl with
    | none => insert none
    | some ttl =>
      match checkedAdd latest now ttl with
      | none => (r, .error (ttlOutOfRange sourceId))
      | some deadline => insert (some deadline)

def remove (r : CandidateRegistry) (sourceId endpoint : String) : CandidateRegistry × Bool :=
  settle r
    { r with
      sourceCandidates := r.sourceCandidates.alter sourceId
        (Option.map fun candidates => candidates.filter (· ≠ endpoint))
      records := r.records.alter endpoint
        (Option.map fun record => ⟨record.sources.erase sourceId⟩) }

def sourceUnavailable (r : CandidateRegistry) (sourceId : String) (leased : Bool) :
    CandidateRegistry × Bool :=
  if leased then (r, false)
  else
    settle r
      { r.retainContributions fun _ source _ => source != sourceId with
        sourceCandidates := r.sourceCandidates.erase sourceId }

def setLocalEndpoints (r : CandidateRegistry) (endpoints : List String) :
    CandidateRegistry × Bool :=
  let localEndpoints := endpoints.foldl (fun set endpoint => set.insert endpoint)
    (∅ : OrdSet String)
  let updated :=
    { r with
      localEndpoints
      records := r.records.filter fun endpoint _ => !localEndpoints.contains endpoint }
  let updated := updated.pruneSourceCandidates.rebuildOrder
  (updated, decide (updated.endpoints ≠ r.endpoints))

def expire (r : CandidateRegistry) (now : Nat) : CandidateRegistry × Bool :=
  settle r (r.retainContributions fun _ _ contribution =>
    contribution.expiresAt.all fun deadline => decide (deadline > now))

end Commands

end CandidateRegistry

/-! ## The coordinator -/

inductive CandidateCommand where
  | snapshot (sourceId : String) (snapshot : DiscoverySnapshot) (ttl : Option Nat)
  | replaceSource (sourceId : String) (peers : List String) (ttl : Option Nat)
  | add (sourceId endpoint : String) (ttl : Option Nat)
  | remove (sourceId endpoint : String)
  | sourceUnavailable (sourceId : String) (leased : Bool)
  | setLocalEndpoints (endpoints : List String)
deriving DecidableEq, Repr

/-- What wakes the coordinator: a command, or the next deadline. -/
inductive CoordinatorEvent where
  | command (command : CandidateCommand) (now : Nat)
  | expiry (now : Nat)
deriving DecidableEq, Repr

section Coordinator

variable (canonicalize : String → Except DiscoveryError String) (latest : Nat)

/-- The operation of the registry behind an event. -/
def CandidateRegistry.perform (r : CandidateRegistry) :
    CoordinatorEvent → CandidateRegistry × Except DiscoveryError Bool
  | .command (.snapshot sourceId snapshot ttl) now =>
    r.replaceSnapshot canonicalize latest sourceId snapshot ttl now
  | .command (.replaceSource sourceId peers ttl) now =>
    r.replaceSource canonicalize latest sourceId peers ttl now
  | .command (.add sourceId endpoint ttl) now =>
    match canonicalize endpoint with
    | .error error => (r, .error error)
    | .ok endpoint => r.add latest sourceId endpoint ttl now
  | .command (.remove sourceId endpoint) _ =>
    match canonicalize endpoint with
    | .error error => (r, .error error)
    | .ok endpoint => (r.remove sourceId endpoint).map id .ok
  | .command (.sourceUnavailable sourceId leased) _ =>
    (r.sourceUnavailable sourceId leased).map id .ok
  | .command (.setLocalEndpoints endpoints) _ => (r.setLocalEndpoints endpoints).map id .ok
  | .expiry now => (r.expire now).map id .ok

/-- `run_candidate_registry`: the registry and the value on the watch channel. -/
structure Coordinator where
  registry : CandidateRegistry
  candidates : List String

namespace Coordinator

/-- The channel starts with the endpoints of the registry. -/
def new (registry : CandidateRegistry) : Coordinator := ⟨registry, registry.endpoints⟩

/-- A refused command is logged, and nothing is sent. -/
def step (c : Coordinator) (event : CoordinatorEvent) : Coordinator :=
  match c.registry.perform canonicalize latest event with
  | (registry, .ok true) => { registry, candidates := registry.endpoints }
  | (registry, _) => { c with registry }

def run (c : Coordinator) (events : List CoordinatorEvent) : Coordinator :=
  events.foldl (step canonicalize latest) c

end Coordinator

end Coordinator

end Numax
