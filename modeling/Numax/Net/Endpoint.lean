import Numax.Net.Message
import Numax.Base.Ipv4

/-!
# Advertised endpoints

The `host:port` texts of `nx-net/src/bootstrap.rs` and their canonical form: an
address as the standard library prints it, or a DNS name in lower case without the
dot at its end; IPv6 addresses in brackets; the port without leading zeros.

The text form of IPv6 addresses is the standard library's (`Ipv6Text`). IPv4
addresses are `Base.Ipv4`.
-/

open Base

namespace Numax

/-- The IPv6 part of `std::net`: an address is parsed back from what is printed, and
its text, of hexadecimal digits, colons and dots, has a colon. -/
structure Ipv6Text where
  Addr : Type
  parse : List Char → Option Addr
  print : Addr → List Char
  isUnspecified : Addr → Bool
  isMulticast : Addr → Bool
  isUnicastLinkLocal : Addr → Bool
  parse_print : ∀ ip, parse (print ip) = some ip
  colon_of_parse : ∀ {text ip}, parse text = some ip → ':' ∈ text
  mem_print : ∀ {ip c}, c ∈ print ip → c.isAlphanum = true ∨ c = ':' ∨ c = '.'
  length_print_le : ∀ ip, (print ip).length ≤ 39

inductive IpAddr (v6 : Ipv6Text) where
  | v4 (ip : Ipv4)
  | v6 (ip : v6.Addr)

namespace IpAddr

variable {v6 : Ipv6Text}

def parse (v6 : Ipv6Text) (text : List Char) : Option (IpAddr v6) :=
  match Ipv4.parse text with
  | some ip => some (.v4 ip)
  | none => (v6.parse text).map .v6

def print : IpAddr v6 → List Char
  | .v4 ip => ip.print
  | .v6 ip => v6.print ip

/-- Neither unspecified nor multicast, IPv4 broadcast or IPv6 link-local addresses can be
dialed. -/
def undialable : IpAddr v6 → Bool
  | .v4 ip => ip.isUnspecified || ip.isMulticast || ip.isBroadcast
  | .v6 ip => v6.isUnspecified ip || v6.isMulticast ip || v6.isUnicastLinkLocal ip

/-- Link-local addresses of both families; the source asks for the second one only. -/
def isLinkLocal : IpAddr v6 → Bool
  | .v4 ip => ip.isLinkLocal
  | .v6 ip => v6.isUnicastLinkLocal ip

end IpAddr

/-! ## Text -/

/-- The `White_Space` property. -/
def isWhitespace (c : Char) : Bool :=
  let n := c.toNat
  decide (0x09 ≤ n ∧ n ≤ 0x0d) || n == 0x20 || n == 0x85 || n == 0xa0 || n == 0x1680 ||
    decide (0x2000 ≤ n ∧ n ≤ 0x200a) || n == 0x2028 || n == 0x2029 || n == 0x202f ||
    n == 0x205f || n == 0x3000

def trim (text : List Char) : List Char :=
  ((text.dropWhile isWhitespace).reverse.dropWhile isWhitespace).reverse

/-- `u16::from_str`: decimal digits, after an optional plus sign. -/
def parseU16 (text : List Char) : Option Nat :=
  let digits :=
    match text with
    | '+' :: rest => rest
    | digits => digits
  if digits.isEmpty || digits.any (fun c => !c.isDigit) then none
  else
    let value := Nat.ofDigitChars 10 digits 0
    if value < 2 ^ 16 then some value else none

/-- `strip_suffix('.')`, or the text itself. -/
def stripDot (host : List Char) : List Char :=
  if host.getLast? = some '.' then host.dropLast else host

/-- `rsplit_once(':')`. -/
def rsplitColon (text : List Char) : Option (List Char × List Char) :=
  match text.reverse.dropWhile (· != ':') with
  | [] => none
  | _ :: host => some (host.reverse, (text.reverse.takeWhile (· != ':')).reverse)

/-! ## Endpoints -/

def maxEndpointLen : Nat := 512

def splitEndpoint (endpoint : List Char) : Except NetError (List Char × Nat) :=
  let parts : Except NetError (List Char × List Char) :=
    match endpoint with
    | '[' :: rest =>
      match rest.dropWhile (· != ']') with
      | [] => .error (.invalidMessage "invalid bracketed advertised endpoint")
      | _ :: ':' :: port => .ok (rest.takeWhile (· != ']'), port)
      | _ => .error (.invalidMessage "advertised endpoint must include a port")
    | _ =>
      match rsplitColon endpoint with
      | none => .error (.invalidMessage "advertised endpoint must be host:port")
      | some (host, port) =>
        if ':' ∈ host then
          .error (.invalidMessage "IPv6 advertised endpoints must use brackets")
        else .ok (host, port)
  match parts with
  | .error error => .error error
  | .ok (host, port) =>
    match parseU16 port with
    | none => .error (.invalidMessage "advertised endpoint port must be a valid u16")
    | some port => .ok (host, port)

def validLabel (label : List Char) : Bool :=
  !label.isEmpty && decide (String.utf8Len label ≤ 63) &&
    label.all (fun c => c.isAlphanum || c == '-') &&
    label.head?.any Char.isAlphanum && label.getLast?.any Char.isAlphanum

def validDnsName (host : List Char) : Bool :=
  let host := stripDot host
  !host.isEmpty && decide (String.utf8Len host ≤ 253) && (host.splitOn '.').all validLabel

section Canonical

variable (v6 : Ipv6Text)

def canonicalHost (host : List Char) : Except NetError (List Char) :=
  match IpAddr.parse v6 host with
  | some ip =>
    if ip.undialable then
      .error (.invalidMessage "advertised endpoint must use a dialable unicast IP address")
    else .ok ip.print
  | none =>
    if !validDnsName host then
      .error (.invalidMessage
        "advertised endpoint host must be a valid DNS name or IP address")
    else .ok ((stripDot host).map Char.toLower)

def formatEndpoint (host : List Char) (port : Nat) : List Char :=
  if ':' ∈ host then '[' :: (host ++ ']' :: ':' :: Nat.toDigits 10 port)
  else host ++ ':' :: Nat.toDigits 10 port

/-- Non-empty, trimmed and at most 512 bytes. -/
def wellSized (endpoint : String) : Bool :=
  !endpoint.isEmpty && decide (endpoint.utf8ByteSize ≤ maxEndpointLen) &&
    trim endpoint.toList == endpoint.toList

def canonicalizeAdvertisedEndpoint (endpoint : String) : Except NetError String :=
  if !wellSized endpoint then
    .error (.invalidMessage ("advertised endpoint must be non-empty, trimmed, and at most " ++
      toString maxEndpointLen ++ " bytes"))
  else
    match splitEndpoint endpoint.toList with
    | .error error => .error error
    | .ok (host, port) =>
      if port = 0 then
        .error (.invalidMessage "advertised endpoint must not use port zero")
      else
        match canonicalHost v6 host with
        | .error error => .error error
        | .ok host => .ok (String.ofList (formatEndpoint host port))

def validateAdvertisedEndpoint (endpoint : String) : Except NetError Unit :=
  (canonicalizeAdvertisedEndpoint v6 endpoint).map fun _ => ()

end Canonical

end Numax
