import Numax.Discovery.SrvRecords
import Numax.Theorems.EndpointAgreement

/-!
# The candidates of an SRV answer

Records with the same sort key name the same endpoint, so the order of the records of an
answer has no influence on the candidates. They are the first endpoints in the order of
their smallest record.
-/

open Base Std

namespace Numax

namespace SrvRecord

/-! ## Sort keys -/

namespace Key

variable {a b c : Key}

instance : TransCmp order :=
  inferInstanceAs (TransCmp (compareLex (compareOn priority) (compareLex (compareOn target)
    (compareLex (compareOn port) (compareOn weight)))))

theorem order_eq_iff : order a b = .eq ↔ a = b := by
  cases a
  cases b
  simp only [order, compareLex, compareOn, Ordering.then_eq_eq, LawfulEqOrd.compare_eq_iff_eq,
    mk.injEq]

theorem le_trans (a b c : Key) (hab : le a b = true) (hbc : le b c = true) : le a c = true :=
  TransCmp.isLE_trans hab hbc

theorem le_total (a b : Key) : (le a b || le b a) = true := by
  rw [le, le, @OrientedCmp.eq_swap _ order _ b a]
  cases order a b <;> rfl

theorem le_antisymm (a b : Key) (hab : le a b = true) (hba : le b a = true) : a = b :=
  order_eq_iff.mp (OrientedCmp.isLE_antisymm hab hba)

theorem order_lt_of_le (h : le a b = true) (hne : a ≠ b) : order a b = .lt := by
  cases horder : order a b with
  | lt => rfl
  | eq => exact absurd (order_eq_iff.mp horder) hne
  | gt => simp [le, horder] at h

end Key

variable {dns : DnsNames} {v6 : Ipv6Text} {debug : List Char → String}

/-- The endpoint of a record is a matter of its sort key. -/
theorem endpoint_eq_of_key_eq (a b : SrvRecord dns) (h : a.key = b.key) :
    a.endpoint v6 debug = b.endpoint v6 debug := by
  have htext : a.targetText = b.targetText := congrArg Key.target h
  have hport : a.port = b.port := congrArg Key.port h
  have hroot : dns.isRoot a.target = dns.isRoot b.target := dns.isRoot_eq htext
  rw [endpoint, endpoint, hostPort, hostPort, htext, hport, hroot]

theorem endpoint_eq_some {record : SrvRecord dns} {peer : String} :
    record.endpoint v6 debug = some peer ↔ record.port ≠ 0 ∧ dns.isRoot record.target = false ∧
      Coordinator.canonicalizeEndpoint v6 debug record.hostPort = .ok peer := by
  unfold endpoint
  split
  · rename_i h
    cases Coordinator.canonicalizeEndpoint v6 debug record.hostPort <;> simp [Except.toOption, h]
  · rename_i h
    exact ⟨nofun, fun hrecord => absurd ⟨hrecord.1, hrecord.2.1⟩ h⟩

/-- The smallest record of `peer` is sorted before the smallest record of `other`. -/
def Precedes (v6 : Ipv6Text) (debug : List Char → String) (records : List (SrvRecord dns))
    (peer other : String) : Prop :=
  ∃ record ∈ records, record.endpoint v6 debug = some peer ∧
    ∀ record' ∈ records, record'.endpoint v6 debug = some other →
      Key.order record.key record'.key = .lt

end SrvRecord

/-! ## The candidates -/

section Candidates

variable {dns : DnsNames} (v6 : Ipv6Text) (debug : List Char → String)

open SrvRecord

/-- All endpoints of an answer, in the order of their smallest record. -/
def rankedPeers (records : List (SrvRecord dns)) : List String :=
  ((records.mergeSort fun a b => Key.le a.key b.key).filterMap (endpoint v6 debug)).eraseDups

theorem recordsToPeers_eq_take (records : List (SrvRecord dns)) (maxCandidates : Nat) :
    recordsToPeers v6 debug records maxCandidates =
      (rankedPeers v6 debug records).take maxCandidates :=
  firstDistinct_eq _ _

theorem rankedPeers_of_perm {records records' : List (SrvRecord dns)} (h : records.Perm records') :
    rankedPeers v6 debug records = rankedPeers v6 debug records' :=
  congrArg List.eraseDups (filterMap_sortByKey_of_perm Key.le_trans Key.le_total Key.le_antisymm
    endpoint_eq_of_key_eq h)

theorem mem_rankedPeers {records : List (SrvRecord dns)} {peer : String} :
    peer ∈ rankedPeers v6 debug records ↔
      ∃ record ∈ records, record.endpoint v6 debug = some peer := by
  simp only [rankedPeers, List.mem_eraseDups, List.mem_filterMap, List.mem_mergeSort]

theorem pairwise_rankedPeers (records : List (SrvRecord dns)) :
    (rankedPeers v6 debug records).Pairwise (Precedes v6 debug records) := by
  have hsorted : (records.mergeSort fun a b => Key.le a.key b.key).Pairwise fun a b =>
      Key.le a.key b.key = true := pairwise_sortByKey Key.le_trans Key.le_total records
  have hranked := pairwise_eraseDups_filterMap (f := endpoint v6 debug) hsorted
  refine List.Pairwise.imp₂ ?_ hranked (nodup_eraseDups _)
  rintro peer other ⟨record, hmem, hpeer, hfirst⟩ hne
  refine ⟨record, List.mem_mergeSort.mp hmem, hpeer, ?_⟩
  intro record' hmem' hother
  refine Key.order_lt_of_le (hfirst record' (List.mem_mergeSort.mpr hmem') hother) ?_
  -- Equal keys would make the two endpoints equal.
  intro hkey
  have hsame : record.endpoint v6 debug = record'.endpoint v6 debug :=
    endpoint_eq_of_key_eq record record' hkey
  rw [hpeer, hother] at hsame
  exact hne (Option.some.inj hsame)

/-- The candidates of an answer do not depend on the order of its records. They are at
most `maxCandidates` distinct canonical endpoints of dialable records, and they are the
first ones of all endpoints in the order of their smallest record. -/
theorem recordsToPeers_ranked (records : List (SrvRecord dns)) (maxCandidates : Nat) :
    (∀ records', records.Perm records' →
      recordsToPeers v6 debug records' maxCandidates =
        recordsToPeers v6 debug records maxCandidates) ∧
    (recordsToPeers v6 debug records maxCandidates).length ≤ maxCandidates ∧
    (recordsToPeers v6 debug records maxCandidates).Nodup ∧
    (∀ peer ∈ recordsToPeers v6 debug records maxCandidates,
      Coordinator.canonicalizeEndpoint v6 debug peer = .ok peer ∧
      ∃ record ∈ records, record.port ≠ 0 ∧ dns.isRoot record.target = false ∧
        Coordinator.canonicalizeEndpoint v6 debug record.hostPort = .ok peer) ∧
    ∃ ranked : List String, ranked.Nodup ∧
      (∀ peer, peer ∈ ranked ↔ ∃ record ∈ records, record.endpoint v6 debug = some peer) ∧
      ranked.Pairwise (Precedes v6 debug records) ∧
      recordsToPeers v6 debug records maxCandidates = ranked.take maxCandidates := by
  have htake := recordsToPeers_eq_take v6 debug records maxCandidates
  refine ⟨?_, ?_, ?_, ?_, rankedPeers v6 debug records, nodup_eraseDups _,
    fun peer => mem_rankedPeers v6 debug, pairwise_rankedPeers v6 debug records, htake⟩
  · intro records' hperm
    rw [htake, recordsToPeers_eq_take, rankedPeers_of_perm v6 debug hperm]
  · rw [htake]
    exact List.length_take_le _ _
  · rw [htake]
    exact (nodup_eraseDups _).take
  · intro peer hpeer
    rw [htake] at hpeer
    obtain ⟨record, hmem, hrecord⟩ := (mem_rankedPeers v6 debug).mp (List.mem_of_mem_take hpeer)
    obtain ⟨hport, hroot, hcanonical⟩ := endpoint_eq_some.mp hrecord
    refine ⟨?_, record, hmem, hport, hroot, hcanonical⟩
    obtain ⟨host, port, hhost, hpos, hlt, rfl⟩ := Coordinator.canonicalizeEndpoint_ok hcanonical
    exact Coordinator.canonicalizeEndpoint_canonical hpos hlt hhost

end Candidates

/-- Names as their text. -/
def textNames : DnsNames where
  Name := String
  toUtf8 := id
  isRoot := (· == ".")
  isRoot_eq h := congrArg (· == ".") h

def sortedAnswer : List (SrvRecord textNames) :=
  [⟨1, 0, 0, "c.example."⟩, ⟨5, 1, 9000, "A.example."⟩, ⟨5, 2, 9000, "a.example."⟩,
    ⟨10, 0, 9000, "b.example."⟩]

/-- The same two candidates for both orders of an answer. -/
theorem recordsToPeers_ranked_reversed :
    recordsToPeers loopbackV6 String.ofList sortedAnswer.reverse 2 =
      ["a.example:9000", "b.example:9000"] := by
  rw [(recordsToPeers_ranked loopbackV6 String.ofList sortedAnswer 2).1 _
    sortedAnswer.reverse_perm.symm, recordsToPeers, List.mergeSort_of_pairwise (by decide +kernel)]
  decide +kernel

end Numax
