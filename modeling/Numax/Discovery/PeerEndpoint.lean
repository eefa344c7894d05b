import Numax.Net.Endpoint
import Numax.Discovery.Snapshot

/-!
# Peer endpoints of the coordinator

The coordinator brings the endpoints that its sources name into a form of its own
(`sync_manager/candidates.rs`), independently of the bootstrap exchange. It first lets
the standard library read the text as a socket address. What is left is a DNS name and
a port, and the name without the dot at its end is tried as an address once more.

`SocketAddr` reads `ip:port` and `[ip]:port`, with an optional scope after an IPv6
address. Its port has no sign, in contrast to that of `u16::from_str`. `debug` is what
`{:?}` writes for a string.
-/

open Base

namespace Numax

/-- Decimal digits of a number below the bound, leading zeros included. -/
def readNumber (bound : Nat) (text : List Char) : Option Nat :=
  if text.isEmpty || text.any (fun c => !c.isDigit) then none
  else
    let value := Nat.ofDigitChars 10 text 0
    if value < bound then some value else none

namespace SocketAddr

variable (v6 : Ipv6Text)

def readScope (text : List Char) : Bool :=
  match text with
  | [] => true
  | _ :: digits => (readNumber (2 ^ 32) digits).isSome

/-- `SocketAddr::from_str`, without the scope that nobody asks for. -/
def parse (text : List Char) : Option (IpAddr v6 × Nat) :=
  match text with
  | '[' :: rest =>
    match rest.dropWhile (· != ']') with
    | _ :: ':' :: port =>
      let inner := rest.takeWhile (· != ']')
      if readScope (inner.dropWhile (· != '%')) then
        match v6.parse (inner.takeWhile (· != '%')), readNumber (2 ^ 16) port with
        | some ip, some port => some (.v6 ip, port)
        | _, _ => none
      else none
    | _ => none
  | _ =>
    match text.dropWhile (· != ':') with
    | _ :: port =>
      match Ipv4.parse (text.takeWhile (· != ':')), readNumber (2 ^ 16) port with
      | some ip, some port => some (.v4 ip, port)
      | _, _ => none
    | [] => none

variable {v6}

/-- `SocketAddr::new(ip, port).to_string()`: an IPv6 address is put in brackets. -/
def print (ip : IpAddr v6) (port : Nat) : List Char :=
  match ip with
  | .v4 ip => ip.print ++ ':' :: Nat.toDigits 10 port
  | .v6 ip => '[' :: (v6.print ip ++ ']' :: ':' :: Nat.toDigits 10 port)

end SocketAddr

namespace Coordinator

def configurationError (message : String) : DiscoveryError :=
  .invalidConfiguration "coordinator" message

def validDnsName (host : List Char) : Bool :=
  !host.isEmpty && decide (String.utf8Len host ≤ 253) && !host.contains ':' &&
    (host.splitOn '.').all validLabel

variable (v6 : Ipv6Text) (debug : List Char → String)

def zeroPort : DiscoveryError := configurationError "peer endpoint port must be greater than zero"

def parseHostPort (endpoint : List Char) (allowZeroPort : Bool) :
    Except DiscoveryError (List Char × Nat) :=
  if trim endpoint ≠ endpoint ∨ endpoint = [] then
    .error (configurationError ("invalid peer endpoint: " ++ debug endpoint))
  else
    match SocketAddr.parse v6 endpoint with
    | some (ip, port) =>
      if !allowZeroPort ∧ port = 0 then .error zeroPort else .ok (ip.print, port)
    | none =>
      match rsplitColon endpoint with
      | none =>
        .error (configurationError
          ("peer endpoint must include a port: " ++ String.ofList endpoint))
      | some (host, port) =>
        let host := stripDot host
        if !validDnsName host then
          .error (configurationError ("invalid peer endpoint host: " ++ debug host))
        else
          match parseU16 port with
          | none => .error (configurationError ("invalid peer endpoint port: " ++ debug port))
          | some port =>
            if !allowZeroPort ∧ port = 0 then .error zeroPort
            else .ok (host.map Char.toLower, port)

def canonicalizeHostPort (host : List Char) (port : Nat) : Except DiscoveryError String :=
  if port = 0 then .error (configurationError "advertised endpoint resolved to port zero")
  else
    match IpAddr.parse v6 host with
    | some ip =>
      if ip.undialable then
        .error (configurationError "peer endpoint must use a dialable unicast IP address")
      else .ok (String.ofList (SocketAddr.print ip port))
    | none => .ok (String.ofList (host.map Char.toLower ++ ':' :: Nat.toDigits 10 port))

def canonicalizeEndpoint (endpoint : String) : Except DiscoveryError String :=
  match parseHostPort v6 debug endpoint.toList false with
  | .error error => .error error
  | .ok (host, port) => canonicalizeHostPort v6 host port

end Coordinator

end Numax
