import Numax.Base.OrdMap
import Numax.Base.Window
import Numax.Sync.Op

/-!
# Bounded seen set and operation log

The deduplication window and the operation log of `types.rs` and
`replication.rs`. Both are sliding windows over the sequence of accepted
operations:

* evictions of the seen set are planned before the insertion, from the old
  order and, if need be, from the inserted ids (`planSeenEvictions_eq`), and
  `apply_seen_insertions` then keeps the last `limit` ids
  (`applySeenInsertions_order`);
* evictions of the log are planned from the old log only, while the in-memory
  log is pruned after the insertion (`pruneOpLogAndReturnEvicted_fst`).
-/

open Base Std

namespace Numax

def normalizeOpLogLimit (limit : Nat) : Nat := max limit 1

def normalizeSeenOpsLimit (limit : Nat) : Nat := max limit 1

/-! ## Seen operation ids -/

structure SeenOps where
  ids : OrdSet String := ∅
  order : List String := []
  limit : Nat
deriving DecidableEq

inductive SeenOpsInsert where
  | alreadySeen
  | inserted (evicted : List String)
deriving DecidableEq, Repr

namespace SeenOps

def new (limit : Nat) : SeenOps := { limit := normalizeSeenOpsLimit limit }

/-- `while order.len() > limit { pop_front }`. -/
def evictLoop (limit : Nat) (ids : OrdSet String) :
    (order : List String) → (evicted : List String) → OrdSet String × List String × List String
  | [], evicted => (ids, [], evicted)
  | front :: rest, evicted =>
    if (front :: rest).length > limit then
      evictLoop limit (ids.erase front) rest (evicted ++ [front])
    else (ids, front :: rest, evicted)

/-- Remember one id and evict the oldest ones beyond the limit. -/
def insert (seen : SeenOps) (opId : String) : SeenOps × SeenOpsInsert :=
  if seen.ids.contains opId then (seen, .alreadySeen)
  else
    let (ids, order, evicted) :=
      evictLoop seen.limit (seen.ids.insert opId) (seen.order ++ [opId]) []
    ({ seen with ids, order }, .inserted evicted)

/-- The id set is the set of the order. -/
def Consistent (seen : SeenOps) : Prop := ∀ id, id ∈ seen.ids ↔ id ∈ seen.order

end SeenOps

/-- The ids that insertion of `insertedIds` pushes out of the window. -/
def planSeenEvictions (seen : SeenOps) (insertedIds : List String) : List String :=
  let totalLen := seen.order.length + insertedIds.length
  let removeCount := totalLen - seen.limit
  if removeCount = 0 then []
  else
    let evicted := seen.order.take removeCount
    if removeCount > seen.order.length then
      evicted ++ insertedIds.take (removeCount - seen.order.length)
    else evicted

/-- Append the inserted ids, then drop one id at the front per eviction. -/
def applySeenInsertions (seen : SeenOps) (insertedIds evicted : List String) : SeenOps :=
  let seen := insertedIds.foldl (fun seen opId =>
    { seen with ids := seen.ids.insert opId, order := seen.order ++ [opId] }) seen
  evicted.foldl (fun seen opId =>
    { seen with ids := seen.ids.erase opId, order := seen.order.tail }) seen

theorem planSeenEvictions_eq (seen : SeenOps) (insertedIds : List String) :
    planSeenEvictions seen insertedIds =
      (seen.order ++ insertedIds).take
        (seen.order.length + insertedIds.length - seen.limit) := by
  simp only [planSeenEvictions]
  split
  · next h => simp [h]
  · split
    · rw [List.take_append, List.take_of_length_le (l := seen.order) (by omega)]
    · rw [List.take_append, show _ - seen.order.length = 0 by omega, List.take_zero,
        List.append_nil]

/-- A batch that inserts nothing evicts nothing. -/
theorem planSeenEvictions_nil {seen : SeenOps} (h : seen.order.length ≤ seen.limit) :
    planSeenEvictions seen [] = [] := by
  rw [planSeenEvictions_eq, List.length_nil, Nat.add_zero, Nat.sub_eq_zero_of_le h,
    List.take_zero]

/-- The two loops of `applySeenInsertions`, one field at a time. -/
theorem applySeenInsertions_eq (seen : SeenOps) (insertedIds evicted : List String) :
    applySeenInsertions seen insertedIds evicted =
      { ids := evicted.foldl (fun ids opId => ids.erase opId)
          (insertedIds.foldl (fun ids opId => ids.insert opId) seen.ids)
        order := (seen.order ++ insertedIds).drop evicted.length
        limit := seen.limit } := by
  have hinsert : ∀ (ids : List String) (seen : SeenOps),
      ids.foldl (fun seen opId =>
        { seen with ids := seen.ids.insert opId, order := seen.order ++ [opId] }) seen =
      { ids := ids.foldl (fun ids opId => ids.insert opId) seen.ids
        order := seen.order ++ ids
        limit := seen.limit } := by
    intro ids
    induction ids with
    | nil => intro seen; simp
    | cons id rest ih => intro seen; simp [ih]
  have hevict : ∀ (ids : List String) (seen : SeenOps),
      ids.foldl (fun seen opId =>
        { seen with ids := seen.ids.erase opId, order := seen.order.tail }) seen =
      { ids := ids.foldl (fun ids opId => ids.erase opId) seen.ids
        order := seen.order.drop ids.length
        limit := seen.limit } := by
    intro ids
    induction ids with
    | nil => intro seen; simp
    | cons id rest ih => intro seen; simp [ih]
  simp only [applySeenInsertions, hinsert, hevict]

/-- After the planned evictions the order is the window of the extended order. -/
theorem applySeenInsertions_order (seen : SeenOps) (insertedIds : List String) :
    (applySeenInsertions seen insertedIds (planSeenEvictions seen insertedIds)).order =
      (seen.order ++ insertedIds).rtake seen.limit := by
  rw [applySeenInsertions_eq, planSeenEvictions_eq, List.rtake]
  simp only [List.length_take, List.length_append]
  congr 1
  omega

theorem mem_foldl_insert (ids : OrdSet String) (xs : List String) (a : String) :
    a ∈ xs.foldl (fun ids x => ids.insert x) ids ↔ a ∈ ids ∨ a ∈ xs := by
  induction xs generalizing ids with
  | nil => simp
  | cons x xs ih =>
    rw [List.foldl_cons, ih, ExtTreeSet.mem_insert, Std.compare_eq_iff_eq, List.mem_cons]
    tauto

theorem mem_foldl_erase (ids : OrdSet String) (xs : List String) (a : String) :
    a ∈ xs.foldl (fun ids x => ids.erase x) ids ↔ a ∈ ids ∧ a ∉ xs := by
  induction xs generalizing ids with
  | nil => simp
  | cons x xs ih =>
    rw [List.foldl_cons, ih, ExtTreeSet.mem_erase, ne_eq, Std.compare_eq_iff_eq, List.mem_cons]
    tauto

/-- With no id repeated, the id set stays the set of the order. -/
theorem applySeenInsertions_consistent {seen : SeenOps} {insertedIds : List String}
    (hseen : seen.Consistent) (hnodup : (seen.order ++ insertedIds).Nodup) :
    (applySeenInsertions seen insertedIds (planSeenEvictions seen insertedIds)).Consistent := by
  intro id
  rw [applySeenInsertions_eq]
  simp only [mem_foldl_erase, mem_foldl_insert, hseen id, planSeenEvictions_eq]
  generalize seen.order.length + insertedIds.length - seen.limit = n
  rw [← List.mem_append, List.length_take]
  -- the evicted ids are a front segment, so the others are the remaining segment
  have hsplit := List.take_append_drop n (seen.order ++ insertedIds)
  have hdisjoint : List.Disjoint ((seen.order ++ insertedIds).take n)
      ((seen.order ++ insertedIds).drop n) := by
    rw [← hsplit] at hnodup
    exact List.disjoint_of_nodup_append hnodup
  have hdrop : (seen.order ++ insertedIds).drop (min n (seen.order ++ insertedIds).length) =
      (seen.order ++ insertedIds).drop n := by
    rcases Nat.le_total n (seen.order ++ insertedIds).length with h | h
    · rw [min_eq_left h]
    · rw [min_eq_right h, List.drop_length, List.drop_of_length_le h]
  rw [hdrop]
  constructor
  · rintro ⟨hmem, hnot⟩
    rw [← hsplit, List.mem_append] at hmem
    exact hmem.resolve_left hnot
  · intro hmem
    exact ⟨List.mem_of_mem_drop hmem, fun h => hdisjoint h hmem⟩

/-! ## Operation log -/

/-- Planned from the old log alone, before the new operations are appended. -/
def planOpLogEvictions (log : List Op) (insertedCount limit : Nat) : List Op :=
  let limit := normalizeOpLogLimit limit
  let totalLen := log.length + insertedCount
  let removeCount := totalLen - limit
  log.take removeCount

/-- Cut the log at the front to the limit and return what was cut. -/
def pruneOpLogAndReturnEvicted (log : List Op) (limit : Nat) : List Op × List Op :=
  let limit := normalizeOpLogLimit limit
  if log.length > limit then
    let removeCount := log.length - limit
    (log.drop removeCount, log.take removeCount)
  else (log, [])

/-- The log after a known operation; the whole log if it is unknown. -/
def opLogSince (log : List Op) (sinceOpId : Option String) : List Op :=
  match sinceOpId with
  | some opId =>
    match log.findIdx? (fun op => op.id == opId) with
    | some index => log.drop (index + 1)
    | none => log
  | none => log

theorem pruneOpLogAndReturnEvicted_fst (log : List Op) (limit : Nat) :
    (pruneOpLogAndReturnEvicted log limit).1 = log.rtake (normalizeOpLogLimit limit) := by
  simp only [pruneOpLogAndReturnEvicted]
  split
  · rfl
  · next h => exact (rtake_of_length_le (Nat.le_of_not_gt h)).symm

end Numax
