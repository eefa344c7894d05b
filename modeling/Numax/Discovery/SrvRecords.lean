import Numax.Discovery.PeerEndpoint
import Numax.Base.FirstDistinct

/-!
# SRV records

What `nx-core/src/discovery/dns_srv.rs` makes of the records of an answer: they are
sorted, the dialable ones become endpoints in the form of the coordinator, and the first
distinct ones are kept.

The DNS library is a parameter. Of its names the code uses the text and whether the name
is the root.
-/

open Base Std

namespace Numax

/-- The names of the DNS library. The text of a name decides whether it is the root. -/
structure DnsNames where
  Name : Type
  toUtf8 : Name → String
  isRoot : Name → Bool
  isRoot_eq : ∀ {a b : Name}, toUtf8 a = toUtf8 b → isRoot a = isRoot b

structure SrvRecord (dns : DnsNames) where
  priority : UInt16
  weight : UInt16
  port : UInt16
  target : dns.Name

namespace SrvRecord

variable {dns : DnsNames}

def targetText (record : SrvRecord dns) : String := dns.toUtf8 record.target

/-- What the records are sorted by. -/
structure Key where
  priority : UInt16
  target : String
  port : UInt16
  weight : UInt16
deriving DecidableEq, Repr

/-- The fields are compared one after the other. -/
def Key.order : Key → Key → Ordering :=
  compareLex (compareOn priority) (compareLex (compareOn target)
    (compareLex (compareOn port) (compareOn weight)))

def Key.le (a b : Key) : Bool := (order a b).isLE

def key (record : SrvRecord dns) : Key where
  priority := record.priority
  target := record.targetText
  port := record.port
  weight := record.weight

/-- `trim_end_matches('.')`. -/
def trimDots (text : List Char) : List Char := (text.reverse.dropWhile (· == '.')).reverse

/-- The text `target:port`. -/
def hostPort (record : SrvRecord dns) : String :=
  String.ofList (trimDots record.targetText.toList) ++ ":" ++ toString record.port.toNat

/-- The endpoint of a record that can be dialed. -/
def endpoint (v6 : Ipv6Text) (debug : List Char → String) (record : SrvRecord dns) :
    Option String :=
  if record.port ≠ 0 ∧ dns.isRoot record.target = false then
    (Coordinator.canonicalizeEndpoint v6 debug record.hostPort).toOption
  else none

end SrvRecord

def recordsToPeers {dns : DnsNames} (v6 : Ipv6Text) (debug : List Char → String)
    (records : List (SrvRecord dns)) (maxCandidates : Nat) : List String :=
  let sorted := records.mergeSort fun a b => SrvRecord.Key.le a.key b.key
  firstDistinct maxCandidates (sorted.filterMap (SrvRecord.endpoint v6 debug))

end Numax
