import Numax.Base.Utf8Order
import Numax.Discovery.Mdns
import Numax.Theorems.BootstrapSeed

/-!
# The endpoints of an mDNS instance

An instance may announce any number of addresses, in any order and again and again. Of
their endpoints the provider keeps the smallest, without ever holding more than one too
many: `bounded_mdns_endpoints` is `keepSmallest` on the dialable endpoints
(`boundedMdnsEndpoints_eq`).
-/

open Base Std

namespace Numax

namespace Mdns

variable {v6 : Ipv6Text}

/-- The endpoints of the addresses that may be dialed, as they come. -/
def dialableEndpoints (addresses : List (IpAddr v6)) (port : Nat) : List String :=
  addresses.filterMap fun address => dialableMdnsAddress address port

theorem mem_dialableEndpoints {addresses : List (IpAddr v6)} {port : Nat} {endpoint : String} :
    endpoint ∈ dialableEndpoints addresses port ↔
      ∃ address ∈ addresses, dialableMdnsAddress address port = some endpoint :=
  List.mem_filterMap

/-- The loop of the source, without the addresses it skips. -/
theorem boundedMdnsEndpoints_eq (addresses : List (IpAddr v6)) (port maxCandidates : Nat) :
    boundedMdnsEndpoints addresses port maxCandidates =
      (keepSmallest maxCandidates (dialableEndpoints addresses port)).toList := by
  unfold boundedMdnsEndpoints keepSmallest dialableEndpoints
  rw [List.foldl_filterMap]
  refine congrArg (fun step : OrdSet String → IpAddr v6 → OrdSet String =>
    (addresses.foldl step ∅).toList) ?_
  funext endpoints address
  cases dialableMdnsAddress address port <;> rfl

/-- For any addresses, port and limit: the result is the front part, up to the limit, of
all dialable endpoints in the order of their bytes; other addresses with the same members
give the same result; and whenever an endpoint comes in, at most as many as the limit are
held before it, and one more with it. -/
theorem boundedMdnsEndpoints_smallest (addresses : List (IpAddr v6)) (port maxCandidates : Nat) :
    (∃ all : List String, all.Pairwise (fun a b => asBytes a < asBytes b) ∧
      (∀ endpoint, endpoint ∈ all ↔
        ∃ address ∈ addresses, dialableMdnsAddress address port = some endpoint) ∧
      boundedMdnsEndpoints addresses port maxCandidates = all.take maxCandidates) ∧
    (∀ addresses' : List (IpAddr v6), (∀ address, address ∈ addresses' ↔ address ∈ addresses) →
      boundedMdnsEndpoints addresses' port maxCandidates =
        boundedMdnsEndpoints addresses port maxCandidates) ∧
    ∀ (before after : List (IpAddr v6)) (address : IpAddr v6) (endpoint : String),
      addresses = before ++ address :: after →
      dialableMdnsAddress address port = some endpoint →
      ∃ held : OrdSet String, held.toList = boundedMdnsEndpoints before port maxCandidates ∧
        boundedMdnsEndpoints (before ++ [address]) port maxCandidates =
          (takeIn maxCandidates held endpoint).toList ∧
        held.size ≤ maxCandidates ∧ (held.insert endpoint).size ≤ maxCandidates + 1 := by
  refine ⟨?_, fun addresses' hsame => ?_, fun before after address endpoint _ hdialable => ?_⟩
  · refine ⟨(ExtTreeSet.ofList (dialableEndpoints addresses port) compare).toList, ?_, ?_, ?_⟩
    · refine ExtTreeSet.ordered_toList.imp fun {a b} hlt => ?_
      rw [asBytes_lt_iff]
      exact compare_lt_iff_lt.mp hlt
    · intro endpoint
      rw [ExtTreeSet.mem_toList, ExtTreeSet.mem_ofList, List.contains_iff_mem,
        mem_dialableEndpoints]
    · rw [boundedMdnsEndpoints_eq, toList_keepSmallest]
  · rw [boundedMdnsEndpoints_eq, boundedMdnsEndpoints_eq]
    refine congrArg ExtTreeSet.toList (keepSmallest_congr maxCandidates fun endpoint => ?_)
    simp only [mem_dialableEndpoints, hsame]
  · have hheld := smallest_keepSmallest maxCandidates (dialableEndpoints before port)
    refine ⟨keepSmallest maxCandidates (dialableEndpoints before port),
      (boundedMdnsEndpoints_eq before port maxCandidates).symm, ?_, hheld.bounded,
      ExtTreeSet.size_insert_le.trans (Nat.succ_le_succ hheld.bounded)⟩
    rw [boundedMdnsEndpoints_eq, dialableEndpoints, List.filterMap_append, keepSmallest,
      List.foldl_append, List.filterMap_cons, hdialable]
    rfl

/-- Two addresses of an instance and one that nobody can dial. -/
def threeAddresses : List (IpAddr loopbackV6) :=
  ["10.0.0.2", "0.0.0.0", "10.0.0.1"].filterMap fun text => IpAddr.parse loopbackV6 text.toList

theorem boundedMdnsEndpoints_smallest_repeated :
    boundedMdnsEndpoints threeAddresses 8 1 = ["10.0.0.1:8"] ∧
      boundedMdnsEndpoints (threeAddresses ++ threeAddresses.reverse) 8 1 =
        boundedMdnsEndpoints threeAddresses 8 1 := by
  refine ⟨?_, (boundedMdnsEndpoints_smallest threeAddresses 8 1).2.1 _ (by simp)⟩
  -- the greatest item of a tree does not evaluate, the front part of its listing does
  rw [boundedMdnsEndpoints_eq, toList_keepSmallest]
  decide +kernel

end Mdns

end Numax
