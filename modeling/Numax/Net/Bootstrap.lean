import Numax.Net.Endpoint
import Numax.Base.OrdMap
import Numax.Base.Machine

/-!
# The bootstrap exchange

A node that looks for peers asks a seed for endpoints (`nx-net/src/bootstrap.rs`
and the bootstrap part of `handle_incoming` in `node.rs`). The seed remembers the
endpoint each requester advertises for `candidate_ttl`, and answers with its own
endpoint and those of the others. The client trusts none of it: it counts the
candidates, bounds the lifetime, and brings every endpoint into canonical form
again. One bad endpoint makes the whole answer invalid.

Durations and instants are nanoseconds. Locks are never poisoned, since nothing
panics while one is held; TLS and the certificates are the `identity` parameter,
the outcome of `verify_peer_identity`.
-/

open Base Std

namespace Numax

def NetError.text : NetError → String
  | .io kind => "io error: " ++ kind
  | .serialization message => "serialization error: " ++ message
  | .binarySerialization message => "binary serialization error: " ++ message
  | .binaryDeserialization message => "binary deserialization error: " ++ message
  | .peerDisconnected addr => "peer disconnected: " ++ addr
  | .invalidMessage message => "invalid message: " ++ message
  | .messageTooLarge len limit => "message too large: " ++ toString len ++ " > " ++ toString limit

inductive BootstrapError where
  | invalidConfig (reason : String)
  | rejected (reason : String)
  | invalidResponse (reason : String)
  | transport (error : NetError)
  /-- `Transport(NetError::Wire(error))` -/
  | wire (error : WireError)
deriving DecidableEq, Repr

def bootstrapConfigError (error : NetError) : BootstrapError := .invalidConfig error.text

/-- `if !condition { return Err(InvalidConfig(reason)) }`. -/
def require (condition : Prop) [Decidable condition] (reason : String) :
    Except BootstrapError Unit :=
  if condition then .ok () else .error (.invalidConfig reason)

/-- What the two configurations ask of the machine: the last instant of its clock and
the largest semaphore. -/
structure Platform where
  latestInstant : Nat
  maxPermits : Nat

def Platform.checkedAdd (platform : Platform) (now duration : Nat) : Option Nat :=
  Base.checkedAdd platform.latestInstant now duration

def nanosPerMilli : Nat := 1000000
def nanosPerSec : Nat := 1000000000

/-! ## Configuration -/

def defaultBootstrapCacheCapacity : Nat := 1024
def defaultBootstrapResponseCapacity : Nat := 128
def maxBootstrapResponseCapacity : Nat := 4096
def defaultBootstrapCandidateTtl : Nat := 60 * nanosPerSec
def maxBootstrapCandidateTtl : Nat := 300 * nanosPerSec
def maxClusterIdLen : Nat := 255

/-- The `Cc` category. -/
def isControl (c : Char) : Bool := decide (c.toNat ≤ 0x1f ∨ 0x7f ≤ c.toNat ∧ c.toNat ≤ 0x9f)

def validateClusterId (clusterId : String) : Except NetError Unit :=
  if clusterId.isEmpty || decide (clusterId.utf8ByteSize > maxClusterIdLen) then
    .error (.invalidMessage ("bootstrap cluster ID length must be in 1..=" ++
      toString maxClusterIdLen))
  else if clusterId.toList.any isControl then
    .error (.invalidMessage "bootstrap cluster ID must not contain control characters")
  else .ok ()

def validateResponseCapacity (limit : Nat) : Except NetError Unit :=
  if 1 ≤ limit ∧ limit ≤ maxBootstrapResponseCapacity then .ok ()
  else .error (.invalidMessage ("bootstrap response capacity must be in 1..=" ++
    toString maxBootstrapResponseCapacity))

def validateCandidateTtl (ttl : Nat) : Except NetError Unit :=
  if ttl = 0 ∨ ttl > maxBootstrapCandidateTtl then
    .error (.invalidMessage ("bootstrap candidate TTL must be in 1ms..=" ++
      toString (maxBootstrapCandidateTtl / nanosPerSec) ++ "s"))
  else .ok ()

/-- The endpoint of a configuration or a request, if it has one. -/
def checkEndpoint (v6 : Ipv6Text) : Option String → Except BootstrapError Unit
  | none => .ok ()
  | some endpoint => (validateAdvertisedEndpoint v6 endpoint).mapError bootstrapConfigError

/-- The seed's side. The endpoint is private and set by `with_advertised_endpoint`
only, so it has been through the canonical form. -/
structure BootstrapServerConfig (v6 : Ipv6Text) where
  clusterId : String
  advertisedEndpoint : Option String
  maxCachedCandidates : Nat
  maxResponseCandidates : Nat
  candidateTtl : Nat
  canonical : ∀ endpoint ∈ advertisedEndpoint,
    ∃ given, canonicalizeAdvertisedEndpoint v6 given = .ok endpoint

namespace BootstrapServerConfig

variable {v6 : Ipv6Text}

def validate (config : BootstrapServerConfig v6) : Except BootstrapError Unit := do
  (validateClusterId config.clusterId).mapError bootstrapConfigError
  checkEndpoint v6 config.advertisedEndpoint
  require (config.maxCachedCandidates ≠ 0) "bootstrap cache capacity must be greater than zero"
  (validateResponseCapacity config.maxResponseCandidates).mapError bootstrapConfigError
  (validateCandidateTtl config.candidateTtl).mapError bootstrapConfigError

/-- `BootstrapServerConfig::new`, before it validates. -/
def defaults (v6 : Ipv6Text) (clusterId : String) : BootstrapServerConfig v6 where
  clusterId
  advertisedEndpoint := none
  maxCachedCandidates := defaultBootstrapCacheCapacity
  maxResponseCandidates := defaultBootstrapResponseCapacity
  candidateTtl := defaultBootstrapCandidateTtl
  canonical := nofun

def new (v6 : Ipv6Text) (clusterId : String) : Except BootstrapError (BootstrapServerConfig v6) :=
  (defaults v6 clusterId).validate.map fun _ => defaults v6 clusterId

def withAdvertisedEndpoint (config : BootstrapServerConfig v6) (endpoint : String) :
    Except BootstrapError (BootstrapServerConfig v6) :=
  match h : canonicalizeAdvertisedEndpoint v6 endpoint with
  | .error error => .error (bootstrapConfigError error)
  | .ok canonical =>
    .ok { config with
      advertisedEndpoint := some canonical
      canonical := by
        rintro _ ⟨⟩
        exact ⟨endpoint, h⟩ }

def withMaxCachedCandidates (config : BootstrapServerConfig v6) (limit : Nat) :
    Except BootstrapError (BootstrapServerConfig v6) :=
  (require (limit ≠ 0) "bootstrap cache capacity must be greater than zero").map fun _ =>
    { config with maxCachedCandidates := limit }

def withMaxResponseCandidates (config : BootstrapServerConfig v6) (limit : Nat) :
    Except BootstrapError (BootstrapServerConfig v6) :=
  ((validateResponseCapacity limit).mapError bootstrapConfigError).map fun _ =>
    { config with maxResponseCandidates := limit }

def withCandidateTtl (config : BootstrapServerConfig v6) (ttl : Nat) :
    Except BootstrapError (BootstrapServerConfig v6) :=
  ((validateCandidateTtl ttl).mapError bootstrapConfigError).map fun _ =>
    { config with candidateTtl := ttl }

end BootstrapServerConfig

structure BootstrapClientConfig where
  nodeId : NodeId
  maxMessageSize : Nat
  socketTimeout : Nat
  serializationFormat : SerializationFormat
  maxResponseCandidates : Nat
  maxCandidateTtl : Nat
  maxConcurrentQueries : Nat
deriving DecidableEq, Repr

namespace BootstrapClientConfig

def new (nodeId : NodeId) : BootstrapClientConfig where
  nodeId
  maxMessageSize := 16 * 1024 * 1024
  socketTimeout := 30 * nanosPerSec
  serializationFormat := .bincode
  maxResponseCandidates := defaultBootstrapResponseCapacity
  maxCandidateTtl := maxBootstrapCandidateTtl
  maxConcurrentQueries := 1

def validate (platform : Platform) (now : Nat) (config : BootstrapClientConfig) :
    Except BootstrapError Unit := do
  require (config.maxMessageSize ≠ 0) "bootstrap maximum message size must be greater than zero"
  require (config.socketTimeout ≠ 0) "bootstrap socket timeout must be greater than zero"
  require (platform.checkedAdd now config.socketTimeout ≠ none)
    "bootstrap socket timeout exceeds the supported deadline range"
  (validateResponseCapacity config.maxResponseCandidates).mapError bootstrapConfigError
  (validateCandidateTtl config.maxCandidateTtl).mapError bootstrapConfigError
  require (1 ≤ config.maxConcurrentQueries ∧ config.maxConcurrentQueries ≤ platform.maxPermits)
    ("bootstrap concurrent query limit must be in 1..=" ++ toString platform.maxPermits)

end BootstrapClientConfig

/-! ## The seed -/

structure CachedCandidate where
  endpoint : String
  expiresAt : Nat
deriving DecidableEq, Repr

structure BootstrapCache where
  byNode : OrdMap NodeId CachedCandidate
  order : List NodeId

structure BootstrapServer (v6 : Ipv6Text) where
  config : BootstrapServerConfig v6
  advertisedEndpoint : Option String
  cache : BootstrapCache

def pruneExpired (cache : BootstrapCache) (now : Nat) : BootstrapCache :=
  let byNode := cache.byNode.filter fun _ candidate => decide (candidate.expiresAt > now)
  { byNode, order := cache.order.filter fun nodeId => byNode.contains nodeId }

/-- Endpoints of the other nodes, in order of arrival and without repetition. -/
def collectLoop (byNode : OrdMap NodeId CachedCandidate) (requester : NodeId) (limit : Nat) :
    List NodeId → List String → OrdSet String → List String
  | [], endpoints, _ => endpoints
  | nodeId :: order, endpoints, seen =>
    if endpoints.length ≥ limit then endpoints
    else if nodeId = requester then collectLoop byNode requester limit order endpoints seen
    else
      match byNode[nodeId]? with
      | none => collectLoop byNode requester limit order endpoints seen
      | some candidate =>
        if seen.contains candidate.endpoint then
          collectLoop byNode requester limit order endpoints seen
        else
          collectLoop byNode requester limit order (endpoints ++ [candidate.endpoint])
            (seen.insert candidate.endpoint)

/-- Note the requester; a full cache takes no new nodes. -/
def BootstrapCache.note (cache : BootstrapCache) (capacity : Nat) (requester : NodeId) :
    Option CachedCandidate → BootstrapCache
  | some candidate =>
    -- a known node keeps its place in the order
    if cache.byNode.contains requester then
      { cache with byNode := cache.byNode.insert requester candidate }
    else if cache.byNode.size < capacity then
      { byNode := cache.byNode.insert requester candidate, order := cache.order ++ [requester] }
    else cache
  | none =>
    { byNode := cache.byNode.erase requester, order := cache.order.filter (· ≠ requester) }

namespace BootstrapServer

variable {v6 : Ipv6Text}

def new (config : BootstrapServerConfig v6) : BootstrapServer v6 where
  config
  advertisedEndpoint := config.advertisedEndpoint
  cache := ⟨∅, []⟩

def announce (server : BootstrapServer v6) (endpoint : String) :
    Except NetError (BootstrapServer v6) :=
  (canonicalizeAdvertisedEndpoint v6 endpoint).map fun endpoint =>
    { server with advertisedEndpoint := some endpoint }

def withdraw (server : BootstrapServer v6) : BootstrapServer v6 :=
  { server with advertisedEndpoint := none }

def clear (server : BootstrapServer v6) : BootstrapServer v6 :=
  { server with advertisedEndpoint := none, cache := ⟨∅, []⟩ }

/-- What the requester says about itself. -/
def requesterNote (platform : Platform) (config : BootstrapServerConfig v6) (now : Nat) :
    Option String → Except NetError (Option CachedCandidate)
  | some endpoint =>
    match canonicalizeAdvertisedEndpoint v6 endpoint with
    | .error error => .error error
    | .ok endpoint =>
      match platform.checkedAdd now config.candidateTtl with
      | none => .error (.invalidMessage
          "bootstrap candidate TTL exceeds the supported deadline range")
      | some expiresAt => .ok (some { endpoint, expiresAt })
  | none => .ok none

/-- The room that is reserved for the answer, apart from its limit; nothing on underflow. -/
def availableEntries (advertised : Option String) (cache : BootstrapCache) (requester : NodeId) :
    Option Nat :=
  let own := if cache.byNode.contains requester then 1 else 0
  if own ≤ cache.byNode.size then
    some (cache.byNode.size - own + if advertised.isSome then 1 else 0)
  else none

/-- The answer to a requester that may have `limit` endpoints. -/
def suggestions (advertised : Option String) (cache : BootstrapCache) (requester : NodeId)
    (limit : Nat) : List String :=
  let endpoints := if 0 < limit then advertised.toList else []
  (collectLoop cache.byNode requester limit cache.order endpoints
    (endpoints.foldl (fun seen endpoint => seen.insert endpoint) ∅)).take limit

/-- An endpoint that is refused leaves the expired candidates pruned. -/
def exchange (platform : Platform) (server : BootstrapServer v6) (now : Nat) (requester : NodeId)
    (requesterEndpoint : Option String) (requestedResults : Nat) :
    BootstrapServer v6 × Except NetError (List String) :=
  let cache := pruneExpired server.cache now
  match requesterNote platform server.config now requesterEndpoint with
  | .error error => ({ server with cache }, .error error)
  | .ok note =>
    let cache := cache.note server.config.maxCachedCandidates requester note
    let limit :=
      min (min requestedResults server.config.maxResponseCandidates) maxBootstrapResponseCapacity
    ({ server with cache }, .ok (suggestions server.advertisedEndpoint cache requester limit))

end BootstrapServer

/-! ## Negotiation -/

def supportedFormatsFor : SerializationFormat → List SerializationFormat
  | .json => [.json]
  | .bincode => [.bincode, .json]

def negotiateSerializationFormat (preferred : SerializationFormat)
    (peerSupported : List SerializationFormat) : Option SerializationFormat :=
  if preferred ∈ peerSupported ∧ preferred ∈ supportedFormatsFor preferred then some preferred
  else (supportedFormatsFor preferred).find? fun format => format ∈ peerSupported

def isProtocolVersionCompatible (peerVersion : UInt32) : Bool := peerVersion == protocolVersion

def WireMessage.bootstrapHello (nodeId : NodeId) (supportedFormats : List SerializationFormat)
    (preferredFormat : SerializationFormat) (clusterId : String)
    (advertisedEndpoint : Option String) (maxResults : UInt32) : WireMessage :=
  ⟨.bootstrapHello nodeId Numax.protocolVersion supportedFormats preferredFormat clusterId
    advertisedEndpoint maxResults⟩

def WireMessage.bootstrapAck (nodeId : NodeId) (selectedFormat : SerializationFormat)
    (clusterId : String) (candidates : List String) (candidateTtlMs : UInt64) : WireMessage :=
  ⟨.bootstrapAck nodeId Numax.protocolVersion selectedFormat clusterId candidates candidateTtlMs⟩

def WireMessage.wireError (error : ProtocolWireError) : WireMessage := ⟨.error error⟩

/-- A running node as far as the bootstrap exchange uses it. -/
structure SeedNode (v6 : Ipv6Text) where
  nodeId : NodeId
  serializationFormat : SerializationFormat
  bootstrapServer : Option (BootstrapServer v6)

section Incoming

variable {v6 : Ipv6Text}

/-- `as_millis`, as far as it fits. -/
def candidateTtlMs (ttl : Nat) : UInt64 :=
  UInt64.ofNat (min (ttl / nanosPerMilli) (2 ^ 64 - 1))

/-- The bootstrap part of `handle_incoming`: the node after the message, and what it
writes before it closes the connection. -/
def handleIncoming (platform : Platform) (node : SeedNode v6) (now : Nat)
    (identity : NodeId → Except NetError Unit) (helloFormat : SerializationFormat)
    (message : WireMessage) : SeedNode v6 × Option (SerializationFormat × WireMessage) :=
  match message.kind with
  | .bootstrapHello nodeId version supportedFormats _ clusterId advertisedEndpoint maxResults =>
    if !isProtocolVersionCompatible version then
      (node, some (helloFormat, .wireError (.protocolMismatch protocolVersion version)))
    else
      match negotiateSerializationFormat node.serializationFormat supportedFormats,
          identity nodeId with
      | none, _ => (node, none)
      | _, .error _ => (node, none)
      | some format, .ok () =>
        let reject (reason : String) :
            SeedNode v6 × Option (SerializationFormat × WireMessage) :=
          (node, some (format, .wireError (.bootstrapRejected reason)))
        match node.bootstrapServer with
        | none => reject "bootstrap service is disabled"
        | some server =>
          if clusterId ≠ server.config.clusterId then
            reject "cluster ID does not match this bootstrap seed"
          else if maxResults = 0 then reject "max_results must be greater than zero"
          else
            match server.exchange platform now nodeId advertisedEndpoint maxResults.toNat with
            | (server, .error error) =>
              ({ node with bootstrapServer := some server },
                some (format, .wireError (.bootstrapRejected error.text)))
            | (server, .ok candidates) =>
              ({ node with bootstrapServer := some server },
                some (format, .bootstrapAck node.nodeId format clusterId candidates
                  (candidateTtlMs server.config.candidateTtl)))
  | _ => (node, none)

end Incoming

/-! ## The client -/

structure BootstrapRequest where
  clusterId : String
  advertisedEndpoint : Option String
  maxResults : Nat
deriving DecidableEq, Repr

structure BootstrapResponse where
  seedNodeId : NodeId
  endpoints : List String
  candidateTtl : Nat
deriving DecidableEq, Repr

def SerializationFormat.debugText : SerializationFormat → String
  | .json => "Json"
  | .bincode => "Bincode"

namespace BootstrapClientConfig

variable (v6 : Ipv6Text) (config : BootstrapClientConfig)

/-- What `query` checks before it connects. -/
def checkRequest (request : BootstrapRequest) : Except BootstrapError Unit := do
  (validateClusterId request.clusterId).mapError bootstrapConfigError
  require (request.maxResults ≠ 0 ∧ request.maxResults ≤ config.maxResponseCandidates ∧
      request.maxResults < 2 ^ 32)
    ("bootstrap max_results must be in 1..=" ++ toString config.maxResponseCandidates)
  checkEndpoint v6 request.advertisedEndpoint

def hello (request : BootstrapRequest) : WireMessage :=
  .bootstrapHello config.nodeId (supportedFormatsFor config.serializationFormat)
    config.serializationFormat request.clusterId request.advertisedEndpoint
    (UInt32.ofNat request.maxResults)

def normalizeLoop : List String → OrdSet String → List String → Except BootstrapError (List String)
  | [], _, normalized => .ok normalized
  | endpoint :: rest, seen, normalized =>
    match canonicalizeAdvertisedEndpoint v6 endpoint with
    | .error error => .error (.invalidResponse error.text)
    | .ok endpoint =>
      if seen.contains endpoint then
        .error (.invalidResponse "bootstrap response contains duplicate endpoints")
      else normalizeLoop rest (seen.insert endpoint) (normalized ++ [endpoint])

/-- The checks of what the seed suggests. -/
def checkCandidates (request : BootstrapRequest) (seedNodeId : NodeId) (candidates : List String)
    (candidateTtlMs : UInt64) : Except BootstrapError BootstrapResponse :=
  if candidates.length > request.maxResults ∨ candidates.length > config.maxResponseCandidates then
    .error (.invalidResponse "bootstrap response exceeds the negotiated candidate limit")
  else
    let candidateTtl := candidateTtlMs.toNat * nanosPerMilli
    if candidateTtl = 0 ∨ candidateTtl > config.maxCandidateTtl then
      .error (.invalidResponse "bootstrap response contains an invalid candidate TTL")
    else (normalizeLoop v6 candidates ∅ []).map fun endpoints =>
      { seedNodeId, endpoints, candidateTtl }

/-- What `query` makes of the message it reads. -/
def checkAnswer (request : BootstrapRequest) (identity : NodeId → Except NetError Unit)
    (responseFormat : SerializationFormat) (response : WireMessage) :
    Except BootstrapError BootstrapResponse :=
  match response.kind with
  | .bootstrapAck nodeId version selectedFormat clusterId candidates candidateTtlMs =>
    if version ≠ protocolVersion then
      .error (.wire (.protocolMismatch protocolVersion version))
    else if clusterId ≠ request.clusterId then
      .error (.invalidResponse "bootstrap response cluster ID does not match the request")
    else if selectedFormat ∉ supportedFormatsFor config.serializationFormat then
      .error (.invalidResponse ("bootstrap seed selected unsupported serialization format: " ++
        selectedFormat.debugText))
    else if responseFormat ≠ selectedFormat then
      .error (.invalidResponse
        "bootstrap ACK frame format does not match the selected serialization format")
    else
      match identity nodeId with
      | .error error => .error (.transport error)
      | .ok () => config.checkCandidates v6 request nodeId candidates candidateTtlMs
  | .error (.bootstrapRejected reason) => .error (.rejected reason)
  | .error error =>
    match error.toPublic with
    | .error error => .error (.transport error)
    | .ok error => .error (.wire error)
  | _ => .error (.invalidResponse "expected BootstrapAck from bootstrap seed")

end BootstrapClientConfig

/-! ## Histories of a seed -/

/-- What happens to a seed: exchanges by any node with any text, at any time. -/
inductive SeedStep where
  | exchange (now : Nat) (requester : NodeId) (endpoint : Option String) (requested : Nat)
  | announce (endpoint : String)
  | withdraw
  | clear
deriving DecidableEq, Repr

def BootstrapServer.step {v6 : Ipv6Text} (platform : Platform) (server : BootstrapServer v6) :
    SeedStep → BootstrapServer v6
  | .exchange now requester endpoint requested =>
    (server.exchange platform now requester endpoint requested).1
  | .announce endpoint =>
    match server.announce endpoint with
    | .error _ => server
    | .ok server => server
  | .withdraw => server.withdraw
  | .clear => server.clear

def BootstrapServer.run {v6 : Ipv6Text} (platform : Platform) (server : BootstrapServer v6)
    (steps : List SeedStep) : BootstrapServer v6 :=
  steps.foldl (BootstrapServer.step platform) server

end Numax
