import Numax.Base.FirstDistinct
import Numax.Base.Smallest
import Numax.Discovery.Deadlines
import Numax.Discovery.PeerEndpoint
import Numax.Discovery.Watch
import Numax.Net.Bootstrap

/-!
# mDNS

The event loop of the mDNS provider (`run_mdns_events` of
`nx-core/src/discovery/mdns.rs`): the table of the instances that others announce, and
the announcements of this node, which must not come back as peers.

What the daemon of the mDNS library says and does is part of the events. So are requests
for an announcement. One that replaces an earlier announcement waits for its withdrawal,
and no other event is handled meanwhile. Replies to the requests are not followed, and
neither is what the supervisor cleans up. The loop looks at a request for shutdown between
two events; since it chooses among the events that are ready, it may handle one more.
-/

open Base

namespace Numax

structure MdnsDiscoveryConfig where
  instanceName : String
  clusterId : String
  maxInstances : Nat
  maxCandidates : Nat
  eventCapacity : Nat

/-- What the provider takes from libraries: Unicode lower case, the first 16 digits of the
BLAKE3 hash, and the full name of a new service, or why there is none. -/
structure MdnsLibrary (v6 : Ipv6Text) where
  toLowercase : String → String
  hash : String → String
  newService : (serviceType instanceName hostname : String) → Option (IpAddr v6) → (port : Nat) →
    (cluster : String) → Except String String

namespace Mdns

def provider : String := "mdns"

def serviceBase : String := "_numax._tcp.local."

def maxOwnHistory : Nat := 1024

def invalid (message : String) : DiscoveryError := .invalidConfiguration provider message

def providerError (message : String) (retryable : Bool) : DiscoveryError :=
  .provider provider message retryable

def validateConfig (config : MdnsDiscoveryConfig) : Except DiscoveryError Unit := do
  validateEventCapacity provider config.eventCapacity
  if config.instanceName.utf8ByteSize = 0 ∨ config.instanceName.utf8ByteSize > 63 then
    .error (invalid "instance_name length must be in 1..=63 bytes")
  if config.instanceName.toList.any isControl then
    .error (invalid "instance_name must not contain control characters")
  if config.clusterId.utf8ByteSize = 0 ∨ config.clusterId.utf8ByteSize > 128 then
    .error (invalid "cluster_id length must be in 1..=128 bytes")
  if config.maxInstances = 0 ∨ config.maxCandidates = 0 then
    .error (invalid "limits must be greater than zero")

/-! ## Services -/

section Services

variable {v6 : Ipv6Text} (library : MdnsLibrary v6)

def clusterServiceType (clusterId : String) : String :=
  "_c" ++ library.hash clusterId ++ "._sub." ++ serviceBase

def splitEndpoint (v6 : Ipv6Text) (endpoint : List Char) :
    Except DiscoveryError (List Char × Nat) :=
  match SocketAddr.parse v6 endpoint with
  | some (ip, port) => .ok (ip.print, port)
  | none =>
    match rsplitColon endpoint with
    | none => .error (providerError "advertised endpoint must include a port" false)
    | some (host, port) =>
      match parseU16 port with
      | none => .error (providerError "advertised endpoint has an invalid port" false)
      | some port => .ok (host, port)

/-- The full name of the service for an endpoint. -/
def buildService (config : MdnsDiscoveryConfig) (serviceType endpoint : String) :
    Except DiscoveryError String := do
  let (host, port) ← splitEndpoint v6 endpoint.toList
  let hostname := "numax-" ++ library.hash config.instanceName ++ ".local."
  let service ←
    match IpAddr.parse v6 host with
    | some ip =>
      .ok (library.newService serviceType config.instanceName hostname (some ip) port
        config.clusterId)
    | none =>
      if ['.', 'l', 'o', 'c', 'a', 'l'].isSuffixOf host then
        .ok (library.newService serviceType config.instanceName (String.ofList host ++ ".") none
          port config.clusterId)
      else
        .error (providerError "mDNS announcements require an IP address or .local hostname" false)
  match service with
  | .error error => .error (providerError ("invalid mDNS service: " ++ error) false)
  | .ok fullname => .ok fullname

/-- The endpoint of an address that may be dialed. -/
def dialableMdnsAddress (address : IpAddr v6) (port : Nat) : Option String :=
  let excluded := match address with
    | .v4 ip => ip.isUnspecified || ip.isMulticast
    | .v6 ip => v6.isUnspecified ip || v6.isMulticast ip || v6.isUnicastLinkLocal ip
  if port = 0 || excluded then none else some (String.ofList (SocketAddr.print address port))

/-- The smallest endpoints, at most `maxCandidates` of them. -/
def boundedMdnsEndpoints (addresses : List (IpAddr v6)) (port maxCandidates : Nat) : List String :=
  (addresses.foldl (fun (endpoints : OrdSet String) address =>
    match dialableMdnsAddress address port with
    | none => endpoints
    | some endpoint => takeIn maxCandidates endpoints endpoint) ∅).toList

end Services

end Mdns

/-! ## Own announcements -/

structure CurrentAnnouncement where
  key : String
  endpoint : String
deriving DecidableEq, Repr

/-- The registered keys, and all names and endpoints of the generation. -/
structure OwnedAnnouncements where
  current : Option CurrentAnnouncement
  keys : OrdSet String
  names : OrdSet String
  endpoints : OrdSet String
  generation : Nat

namespace OwnedAnnouncements

open Mdns

def default : OwnedAnnouncements := ⟨none, ∅, ∅, ∅, 0⟩

variable {v6 : Ipv6Text} (library : MdnsLibrary v6) (owned : OwnedAnnouncements)

def accept (fullname endpoint : String) : OwnedAnnouncements :=
  let key := library.toLowercase fullname
  { current := some ⟨key, endpoint⟩
    keys := owned.keys.insert key
    names := owned.names.insert key
    endpoints := owned.endpoints.insert endpoint
    generation := owned.generation + 1 }

/-- `matches`: an own name, or an endpoint of ours. -/
def matchesOwned (fullname : String) (endpoints : List String) : Bool :=
  owned.names.contains (library.toLowercase fullname) ||
    endpoints.any fun endpoint => owned.endpoints.contains endpoint

/-- The names after a rename; `none` if it is none of ours. -/
def nameChange (isSrv : Bool) (original newName : String) :
    Except DiscoveryError (Option OwnedAnnouncements) :=
  if !isSrv || !owned.names.contains (library.toLowercase original) then .ok none
  else
    let name := library.toLowercase newName
    if !owned.names.contains name && decide (owned.names.size ≥ maxOwnHistory) then
      .error (providerError "mDNS own-name history limit reached" true)
    else .ok (some { owned with names := owned.names.insert name })

/-- The first part of `replace_announcement_with_shutdown`: the new service is registered,
and the key of the previous one is to be withdrawn. -/
def replaceAnnouncement (config : MdnsDiscoveryConfig) (endpoint : String)
    (registered : Except DiscoveryError Unit) :
    Except DiscoveryError (OwnedAnnouncements × Option String) :=
  if owned.names.size ≥ maxOwnHistory ∨ owned.endpoints.size ≥ maxOwnHistory ∨
      owned.keys.size > 1 then
    .error (providerError "mDNS announcement history limit reached" true)
  else
    -- A new key, so that the old service is intact until it is withdrawn.
    let instanceName := if owned.current.isSome then
      "nx-" ++ library.hash config.instanceName ++ "-" ++ toString owned.generation
      else config.instanceName
    match buildService library { config with instanceName }
        (clusterServiceType library config.clusterId) endpoint with
    | .error error => .error error
    | .ok fullname =>
      if owned.names.contains (library.toLowercase fullname) then
        .error (providerError "mDNS replacement key is already owned" true)
      else
        match registered with
        | .error error => .error error
        | .ok _ =>
          .ok (owned.accept library fullname endpoint,
            owned.current.map CurrentAnnouncement.key)

/-- The second part: a withdrawal that is not confirmed leaves both keys. -/
def withdrawn (previous : String) : Except DiscoveryError Unit → OwnedAnnouncements
  | .ok _ => { owned with keys := owned.keys.erase previous }
  | .error _ => owned

end OwnedAnnouncements

/-! ## The instances -/

structure InstanceView where
  endpoints : List String
  observedAt : Nat
deriving DecidableEq, Repr

structure MdnsTable where
  instances : OrdMap String InstanceView
  order : List String

namespace MdnsTable

variable (table : MdnsTable)

def removeInstance (fullname : String) : MdnsTable :=
  if table.instances.contains fullname then
    { instances := table.instances.erase fullname
      order := table.order.filter fun known => known != fullname }
  else table

/-- Endpoints in use by others count even if they are the same. -/
def storeInstance (config : MdnsDiscoveryConfig) (fullname : String) (endpoints : List String)
    (now : Nat) : MdnsTable :=
  if !table.instances.contains fullname && decide (table.instances.size ≥ config.maxInstances) then
    table
  else
    let used := OrdMap.total (fun view => view.endpoints.length)
      (table.instances.filter fun name _ => name != fullname)
    let endpoints := endpoints.take (config.maxCandidates - used)
    if endpoints.isEmpty then table.removeInstance fullname
    else
      { instances := table.instances.insert fullname ⟨endpoints, now⟩
        order := if table.instances.contains fullname then table.order
          else table.order ++ [fullname] }

def removeOwned {v6 : Ipv6Text} (library : MdnsLibrary v6) (owned : OwnedAnnouncements) :
    MdnsTable :=
  let instances := table.instances.filter fun name view =>
    !owned.matchesOwned library name view.endpoints
  { instances, order := table.order.filter fun name => instances.contains name }

/-- `flatten_instances`. -/
def flatten (maxCandidates : Nat) : List String :=
  firstDistinct maxCandidates
    ((table.order.filterMap fun name => table.instances[name]?).flatMap InstanceView.endpoints)

/-- What `publish_instances` lists: every peer with its latest observation. -/
def published (maxCandidates : Nat) : List (String × Nat) :=
  (table.flatten maxCandidates).filterMap fun peer =>
    let listing := (OrdMap.valuesAsc table.instances).filter fun view =>
      view.endpoints.contains peer
    (listing.map InstanceView.observedAt).max?.map fun observedAt => (peer, observedAt)

end MdnsTable

/-! ## The loop -/

/-- The loop waits for events, or for the withdrawal of an announcement, or has ended. -/
inductive MdnsPhase where
  | listening
  | withdrawing (previous : String)
  | ended (expectedShutdown : Bool)
deriving DecidableEq, Repr

structure MdnsLoop where
  table : MdnsTable
  owned : OwnedAnnouncements
  ownEndpoint : Option String
  world : DiscoveryWorld
  shutdownRequested : Bool
  phase : MdnsPhase

inductive MdnsEvent (v6 : Ipv6Text) where
  | announce (endpoint : String) (registered : Except DiscoveryError Unit)
  | withdrawn (result : Except DiscoveryError Unit)
  | resolved (fullname : String) (addresses : List (IpAddr v6)) (port : Nat)
      (cluster : Option String) (now : Nat)
  | removed (fullname : String)
  | nameChange (isSrv : Bool) (original newName : String)
  | searchStopped
  | failed
  | requestShutdown
  | noticeShutdown

namespace MdnsLoop

open Mdns

variable {v6 : Ipv6Text} (library : MdnsLibrary v6) (config : MdnsDiscoveryConfig)

/-- A generation restores the announcement of the last one. -/
def start (world : DiscoveryWorld) (ownEndpoint : Option String) (registered : Except String Unit) :
    Except DiscoveryError MdnsLoop := do
  let owned ←
    match ownEndpoint with
    | none => .ok OwnedAnnouncements.default
    | some endpoint =>
      match buildService library config (clusterServiceType library config.clusterId) endpoint,
          registered with
      | .error error, _ => .error error
      | .ok _, .error error =>
        .error (providerError ("cannot restore mDNS announcement: " ++ error) true)
      | .ok fullname, .ok _ => .ok (OwnedAnnouncements.default.accept library fullname endpoint)
  return ⟨⟨∅, []⟩, owned, ownEndpoint, world, false, .listening⟩

def publishInstances (loop : MdnsLoop) : MdnsLoop :=
  { loop with world := loop.world.observeAt (loop.table.published config.maxCandidates) }

/-- An instance goes, and the view is published if it was there. -/
def dropInstance (loop : MdnsLoop) (fullname : String) : MdnsLoop :=
  if loop.table.instances.contains fullname then
    publishInstances config { loop with table := loop.table.removeInstance fullname }
  else loop

/-- Own instances go, and the view is published. -/
def dropOwned (loop : MdnsLoop) : MdnsLoop :=
  publishInstances config { loop with table := loop.table.removeOwned library loop.owned }

/-- After a request for an announcement. Two keys must not become three. -/
def announced (loop : MdnsLoop) : MdnsLoop :=
  let ownEndpoint := match loop.owned.current with
    | some current => some current.endpoint
    | none => loop.ownEndpoint
  let loop := dropOwned library config { loop with ownEndpoint }
  if loop.shutdownRequested then { loop with phase := .ended true }
  else if loop.owned.keys.size > 1 then { loop with phase := .ended false }
  else { loop with phase := .listening }

/-- An instance is resolved. -/
def resolved (loop : MdnsLoop) (fullname : String) (endpoints : List String)
    (cluster : Option String) (now : Nat) : MdnsLoop :=
  -- One of ours, or of another cluster: a peer of that name is not listed any more.
  if loop.owned.matchesOwned library fullname endpoints || cluster != some config.clusterId then
    loop.dropInstance config fullname
  else
    publishInstances config
      { loop with table := loop.table.storeInstance config fullname endpoints now }

/-- An event while the loop listens. -/
def handle (loop : MdnsLoop) : MdnsEvent v6 → Option MdnsLoop
  | .announce endpoint registered =>
    if loop.shutdownRequested then some { loop with phase := .ended true }
    else
      match loop.owned.replaceAnnouncement library config endpoint registered with
      | .error _ => some (loop.announced library config)
      | .ok (owned, none) => some (announced library config { loop with owned })
      -- The old key is still registered, next to the new one.
      | .ok (owned, some previous) => some { loop with owned, phase := .withdrawing previous }
  | .resolved fullname addresses port cluster now =>
    some (loop.resolved library config fullname
      (boundedMdnsEndpoints addresses port config.maxCandidates) cluster now)
  | .removed fullname => some (loop.dropInstance config fullname)
  | .nameChange isSrv original newName =>
    match loop.owned.nameChange library isSrv original newName with
    | .error _ => some { loop with phase := .ended false }
    | .ok none => some loop
    | .ok (some owned) => some (dropOwned library config { loop with owned })
  | .searchStopped => some { loop with phase := .ended loop.shutdownRequested }
  | .failed => some { loop with phase := .ended false }
  | .noticeShutdown =>
    if loop.shutdownRequested then some { loop with phase := .ended true } else none
  | _ => none

def step (loop : MdnsLoop) (event : MdnsEvent v6) : Option MdnsLoop :=
  match event with
  | .requestShutdown => some { loop with shutdownRequested := true }
  | event =>
    match loop.phase with
    | .listening => loop.handle library config event
    | .withdrawing previous =>
      match event with
      | .withdrawn result =>
        let owned := loop.owned.withdrawn previous result
        some (announced library config { loop with owned })
      | _ => none
    | .ended _ => none

end MdnsLoop

end Numax
