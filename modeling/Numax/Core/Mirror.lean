import Numax.Core.Batch
import Numax.Core.Records

/-!
# The store mirrors the node

Everything a node has accepted so far, `acc`, determines its windows and their
records: the seen ids are the last `seenOps.limit` operations, the log the last
`opLogLimit`, and each operation is numbered by its position in `acc`
(`Tracks`). The store mirrors the node if it holds exactly the records of these
windows and of the registries (`Mirrors`).

One deviation is part of the picture. The records a batch deletes from the
durable log are planned from the old log, so a batch with more operations than
the log holds leaves records behind that the log in memory does not have. These
left-over records are older than the log, and there are none unless the log is
full (`Leftover`).
-/

open Base Std

namespace Numax

open Store

/-! ## Plans -/

/-- The plans of a batch number its operations consecutively. -/
theorem planLoop_numbers (lastIndex : Nat) (seenEvicted : List String) (opLogEvicted : List Op)
    (inserted : List Op) (index : Nat) (nextSeen nextLog : UInt64)
    (hseen : nextSeen.toNat + inserted.length ≤ u64Max)
    (hlog : nextLog.toNat + inserted.length ≤ u64Max) :
    (planLoop lastIndex seenEvicted opLogEvicted inserted index nextSeen nextLog).1.map
        (fun plan => (plan.op, plan.seenSequence.toNat)) = inserted.zipIdx nextSeen.toNat ∧
      (planLoop lastIndex seenEvicted opLogEvicted inserted index nextSeen nextLog).1.map
        (fun plan => (plan.op, plan.opLogSequence.toNat)) = inserted.zipIdx nextLog.toNat ∧
      (planLoop lastIndex seenEvicted opLogEvicted inserted index nextSeen nextLog).2.1.toNat =
        nextSeen.toNat + inserted.length ∧
      (planLoop lastIndex seenEvicted opLogEvicted inserted index nextSeen nextLog).2.2.toNat =
        nextLog.toNat + inserted.length := by
  induction inserted generalizing index nextSeen nextLog with
  | nil => exact ⟨rfl, rfl, rfl, rfl⟩
  | cons op rest ih =>
    have hone : (1 : UInt64).toNat = 1 := rfl
    rw [List.length_cons] at hseen hlog
    have hsucc : ∀ n : UInt64, n.toNat + (rest.length + 1) ≤ u64Max →
        (satAdd n 1).toNat = n.toNat + 1 := by
      intro n hn
      rw [satAdd_toNat, hone]
      omega
    obtain ⟨h₁, h₂, h₃, h₄⟩ := ih (index + 1) (satAdd nextSeen 1) (satAdd nextLog 1)
      (by rw [hsucc _ hseen]; omega) (by rw [hsucc _ hlog]; omega)
    rw [hsucc _ hseen] at h₁ h₃
    rw [hsucc _ hlog] at h₂ h₄
    refine ⟨?_, ?_, ?_, ?_⟩
    · rw [planLoop, List.zipIdx_cons, List.map_cons, h₁]
    · rw [planLoop, List.zipIdx_cons, List.map_cons, h₂]
    · rw [planLoop, h₃, List.length_cons]
      omega
    · rw [planLoop, h₄, List.length_cons]
      omega

/-- The evictions of a batch ride on its last plan. -/
theorem planLoop_deletes (lastIndex : Nat) (seenEvicted : List String) (opLogEvicted : List Op)
    (inserted : List Op) (index : Nat) (nextSeen nextLog : UInt64) (hne : inserted ≠ [])
    (hlast : index + inserted.length = lastIndex + 1) :
    planDeletes (planLoop lastIndex seenEvicted opLogEvicted inserted index nextSeen nextLog).1 =
      collectSeenDeleteKeys seenEvicted ++ collectOpLogDeleteKeys opLogEvicted := by
  induction inserted generalizing index nextSeen nextLog with
  | nil => exact absurd rfl hne
  | cons op rest ih =>
    rw [List.length_cons] at hlast
    simp only [planLoop, planDeletes, List.flatMap_cons]
    cases rest with
    | nil =>
      have hindex : index = lastIndex := by simpa using hlast
      simp [hindex, planLoop]
    | cons next rest =>
      have hindex : index ≠ lastIndex := by
        rw [List.length_cons] at hlast
        omega
      have h := ih (index + 1) (satAdd nextSeen 1) (satAdd nextLog 1) (by simp)
        (by rw [← hlast]; omega)
      rw [planDeletes] at h
      rw [h]
      simp [hindex, collectSeenDeleteKeys, collectOpLogDeleteKeys]

/-- What a batch deletes, also when it accepts nothing. -/
theorem Windowed.planDeletes_eq {s : SyncState} (h : Windowed s) (inserted : List Op) :
    planDeletes (planBatch s inserted).1 =
      collectSeenDeleteKeys (planSeenEvictions s.seenOps (inserted.map Op.id)) ++
        collectOpLogDeleteKeys (planOpLogEvictions s.opLog inserted.length s.opLogLimit) := by
  by_cases hne : inserted = []
  · subst hne
    have hlog : planOpLogEvictions s.opLog 0 s.opLogLimit = [] := by
      rw [planOpLogEvictions, normalizeOpLogLimit_of_pos h.logLimit_pos, Nat.add_zero,
        Nat.sub_eq_zero_of_le h.length_opLog_le, List.take_zero]
    rw [List.map_nil, planSeenEvictions_nil h.valid.length_le, List.length_nil, hlog]
    rfl
  · refine planLoop_deletes _ _ _ inserted 0 _ _ hne ?_
    have hpos := List.length_pos_iff.mpr hne
    omega

/-- The plans of a batch are for its operations, in order. -/
theorem planLoop_ops (lastIndex : Nat) (seenEvicted : List String) (opLogEvicted : List Op)
    (inserted : List Op) (index : Nat) (nextSeen nextLog : UInt64) :
    (planLoop lastIndex seenEvicted opLogEvicted inserted index nextSeen nextLog).1.map
      OpPersistencePlan.op = inserted := by
  induction inserted generalizing index nextSeen nextLog with
  | nil => rfl
  | cons op rest ih => rw [planLoop, List.map_cons, ih]

theorem planBatch_ops (s : SyncState) (inserted : List Op) :
    (planBatch s inserted).1.map OpPersistencePlan.op = inserted := planLoop_ops _ _ _ _ _ _ _

theorem planIds_planBatch (s : SyncState) (inserted : List Op) :
    planIds (planBatch s inserted).1 = inserted.map Op.id := by
  conv_rhs => rw [← planBatch_ops s inserted, List.map_map]
  rfl

/-! ## Bookkeeping in memory -/

/-- The node's windows are those of what it has accepted. -/
structure Tracks (acc : List Op) (s : SyncState) : Prop where
  valid : s.seenOps.Valid
  order : s.seenOps.order = (acc.map Op.id).rtake s.seenOps.limit
  log : s.opLog = acc.rtake s.opLogLimit
  nextSeen : s.seenOpsNextSequence.toNat = acc.length
  nextLog : s.opLogNextSequence.toNat = acc.length
  logLimit_pos : 1 ≤ s.opLogLimit
  logLimit_le : s.opLogLimit ≤ s.seenOps.limit

theorem Tracks.windowed {acc : List Op} {s : SyncState} (h : Tracks acc s) : Windowed s where
  valid := h.valid
  log_ids := by rw [h.log, h.order, map_rtake, rtake_rtake_of_le h.logLimit_le]
  logLimit_pos := h.logLimit_pos
  logLimit_le := h.logLimit_le

theorem Tracks.frame {acc : List Op} {s : SyncState} (h : Tracks acc s) (registries : Registries)
    (opQueue : OpQueue) : Tracks acc { s with registries, opQueue } :=
  ⟨h.valid, h.order, h.log, h.nextSeen, h.nextLog, h.logLimit_pos, h.logLimit_le⟩

/-- Accepting a batch moves both windows. -/
theorem Tracks.commit {acc : List Op} {s : SyncState} (h : Tracks acc s) (ops : List Op)
    (hmax : acc.length + (freshOps s.seenOps ops).length ≤ u64Max) :
    Tracks (acc ++ freshOps s.seenOps ops) (commitBatch s (freshOps s.seenOps ops)) := by
  have hnumbers := planLoop_numbers ((freshOps s.seenOps ops).length - 1)
    (planSeenEvictions s.seenOps ((freshOps s.seenOps ops).map Op.id))
    (planOpLogEvictions s.opLog (freshOps s.seenOps ops).length s.opLogLimit)
    (freshOps s.seenOps ops) 0 s.seenOpsNextSequence s.opLogNextSequence
    (by rw [h.nextSeen]; exact hmax) (by rw [h.nextLog]; exact hmax)
  refine
    { valid := commitBatch_valid h.valid ops
      order := ?_
      log := ?_
      nextSeen := ?_
      nextLog := ?_
      logLimit_pos := h.logLimit_pos
      logLimit_le := by rw [commitBatch_limit]; exact h.logLimit_le }
  · rw [commitBatch_order, commitBatch_limit, h.order, rtake_append_rtake, List.map_append]
  · rw [commitBatch_opLog, normalizeOpLogLimit_of_pos h.logLimit_pos, h.log, rtake_append_rtake]
    rfl
  · rw [List.length_append, ← h.nextSeen]
    exact hnumbers.2.2.1
  · rw [List.length_append, ← h.nextLog]
    exact hnumbers.2.2.2

/-! ## The durable log -/

/-- The numbered operations of the log in memory. -/
def logWindow (acc : List Op) (limit : Nat) : List (Op × Nat) := acc.zipIdx.rtake limit

/-- Records of the durable log that the log in memory has already dropped. -/
structure Leftover (acc : List Op) (limit : Nat) (left : List (Op × Nat)) : Prop where
  increasing : (left ++ logWindow acc limit).Pairwise fun a b => a.2 < b.2
  nodup : ((left ++ logWindow acc limit).map fun p => p.1.id).Nodup
  bound : ∀ p ∈ left, p.2 < acc.length
  full : left ≠ [] → limit ≤ acc.length

/-- What a batch leaves of the old log window, followed by its own operations. -/
def keptWindow (acc inserted : List Op) (limit : Nat) : List (Op × Nat) :=
  (logWindow acc limit).drop ((logWindow acc limit).length + inserted.length - limit)
    ++ inserted.zipIdx acc.length

/-- The left-over records after a batch: a record whose operation is accepted
again is overwritten, and a batch beyond the limit leaves its oldest
operations. -/
def nextLeftover (acc inserted : List Op) (limit : Nat) (left : List (Op × Nat)) :
    List (Op × Nat) :=
  left.filter (fun p => p.1.id ∉ inserted.map Op.id)
    ++ (keptWindow acc inserted limit).take ((keptWindow acc inserted limit).length - limit)

theorem keptWindow_rtake (acc inserted : List Op) (limit : Nat) :
    (keptWindow acc inserted limit).rtake limit = logWindow (acc ++ inserted) limit := by
  have h := rtake_drop_append (logWindow acc limit) (inserted.zipIdx acc.length) limit
  rw [List.length_zipIdx] at h
  rw [keptWindow, h, logWindow, logWindow, zipIdx_append_rtake]

/-- The durable log after a batch. -/
theorem nextLeftover_append (acc inserted : List Op) (limit : Nat) (left : List (Op × Nat)) :
    nextLeftover acc inserted limit left ++ logWindow (acc ++ inserted) limit =
      left.filter (fun p => p.1.id ∉ inserted.map Op.id) ++ keptWindow acc inserted limit := by
  rw [nextLeftover, List.append_assoc, ← keptWindow_rtake, List.rtake, List.take_append_drop]

theorem map_id_logWindow (acc : List Op) (limit : Nat) :
    (logWindow acc limit).map (fun p => p.1.id) = (acc.rtake limit).map Op.id := by
  rw [← map_fst_rtake_zipIdx, List.map_map]
  rfl

theorem map_id_zipIdx (ops : List Op) (n : Nat) :
    (ops.zipIdx n).map (fun p => p.1.id) = ops.map Op.id := by
  have h : (fun p : Op × Nat => p.1.id) = Op.id ∘ Prod.fst := rfl
  rw [h, ← List.map_map, List.zipIdx_map_fst]

theorem snd_lt_of_mem_logWindow {acc : List Op} {limit : Nat} {p : Op × Nat}
    (h : p ∈ logWindow acc limit) : p.2 < acc.length := by
  have hlt := List.snd_lt_add_of_mem_zipIdx ((rtake_suffix _ _).subset h)
  omega

variable {inserted : List Op}

/-- All records a batch could leave in the durable log have different ids. -/
theorem Leftover.nodup_extended {acc : List Op} {limit : Nat} {left : List (Op × Nat)}
    (h : Leftover acc limit left) (hnodup : (inserted.map Op.id).Nodup)
    (hnew : ∀ op ∈ inserted, op.id ∉ (acc.rtake limit).map Op.id) :
    ((left.filter (fun p => p.1.id ∉ inserted.map Op.id) ++ logWindow acc limit
      ++ inserted.zipIdx acc.length).map fun p => p.1.id).Nodup := by
  rw [List.map_append]
  refine List.nodup_append.mpr ⟨?_, ?_, ?_⟩
  · exact ((List.filter_sublist.append_right _).map _).nodup h.nodup
  · rw [map_id_zipIdx]
    exact hnodup
  · rintro a ha b hb rfl
    rw [map_id_zipIdx] at hb
    rw [List.map_append] at ha
    rcases List.mem_append.mp ha with ha | ha
    · obtain ⟨p, hp, rfl⟩ := List.mem_map.mp ha
      exact (by simpa using (List.mem_filter.mp hp).2 : p.1.id ∉ inserted.map Op.id) hb
    · rw [map_id_logWindow] at ha
      obtain ⟨op, hop, rfl⟩ := List.mem_map.mp hb
      exact hnew op hop ha

/-- A batch keeps the left-over records older than the log. -/
theorem Leftover.next {acc : List Op} {limit : Nat} {left : List (Op × Nat)}
    (h : Leftover acc limit left) {inserted : List Op} (hnodup : (inserted.map Op.id).Nodup)
    (hnew : ∀ op ∈ inserted, op.id ∉ (acc.rtake limit).map Op.id) :
    Leftover (acc ++ inserted) limit (nextLeftover acc inserted limit left) := by
  have hsub : (left.filter (fun p => p.1.id ∉ inserted.map Op.id)
      ++ keptWindow acc inserted limit).Sublist
      (left.filter (fun p => p.1.id ∉ inserted.map Op.id) ++ logWindow acc limit
        ++ inserted.zipIdx acc.length) := by
    rw [List.append_assoc]
    exact ((List.drop_sublist _ _).append_right _).append_left _
  refine ⟨?_, ?_, ?_, ?_⟩
  · rw [nextLeftover_append]
    refine List.Pairwise.sublist hsub (List.pairwise_append.mpr ⟨?_, zipIdx_pairwise _ _, ?_⟩)
    · exact h.increasing.sublist (List.filter_sublist.append_right _)
    · intro a ha b hb
      have hbound : a.2 < acc.length := by
        rcases List.mem_append.mp ha with ha | ha
        · exact h.bound a (List.mem_of_mem_filter ha)
        · exact snd_lt_of_mem_logWindow ha
      exact Nat.lt_of_lt_of_le hbound (List.le_snd_of_mem_zipIdx hb)
  · rw [nextLeftover_append]
    exact (hsub.map _).nodup (h.nodup_extended hnodup hnew)
  · intro p hp
    rw [List.length_append]
    rcases List.mem_append.mp hp with hp | hp
    · have hold := h.bound p (List.mem_of_mem_filter hp)
      omega
    · rcases List.mem_append.mp (List.mem_of_mem_take hp) with hp | hp
      · have hold := snd_lt_of_mem_logWindow (List.mem_of_mem_drop hp)
        omega
      · have hnext := List.snd_lt_add_of_mem_zipIdx hp
        omega
  · intro hne
    rw [List.length_append]
    by_cases hleft : left = []
    · -- then the batch itself overflows the window
      have hlen : limit < (keptWindow acc inserted limit).length := by
        by_contra hle
        apply hne
        rw [nextLeftover, hleft, Nat.sub_eq_zero_of_le (Nat.le_of_not_lt hle)]
        simp
      have hle : (keptWindow acc inserted limit).length ≤ acc.length + inserted.length := by
        simp only [keptWindow, logWindow, List.length_append, List.length_drop,
          List.length_zipIdx, length_rtake]
        omega
      omega
    · have hfull := h.full hleft
      omega

/-! ## Tables of numbered operations -/

/-- A table holds exactly the records of the given operations. -/
def HoldsRows (store : Store) (t : StoreTable) (value : Op × Nat → Bytes)
    (rows : List (Op × Nat)) : Prop :=
  ∀ id v, store.record t id = some v ↔ ∃ p ∈ rows, p.1.id = id ∧ v = value p

namespace HoldsRows

variable {store store' : Store} {t : StoreTable} {value : Op × Nat → Bytes}
  {rows rows' : List (Op × Nat)}

theorem congr (h : HoldsRows store t value rows) (hrows : ∀ p, p ∈ rows ↔ p ∈ rows') :
    HoldsRows store t value rows' := by
  intro id v
  rw [h id v]
  simp only [hrows]

/-- Setting records replaces those with the same id. -/
theorem set (h : HoldsRows store t value rows) {inserted : List (Op × Nat)}
    (hset : ∀ p ∈ inserted, store'.record t p.1.id = some (value p))
    (hkeep : ∀ id, id ∉ inserted.map (fun p => p.1.id) → store'.record t id = store.record t id) :
    HoldsRows store' t value
      (rows.filter (fun p => p.1.id ∉ inserted.map fun q => q.1.id) ++ inserted) := by
  intro id v
  by_cases hid : id ∈ inserted.map fun p => p.1.id
  · obtain ⟨q, hq, rfl⟩ := List.mem_map.mp hid
    constructor
    · intro hv
      rw [hset q hq] at hv
      exact ⟨q, List.mem_append_right _ hq, rfl, (Option.some.inj hv).symm⟩
    · rintro ⟨p, hp, hpid, rfl⟩
      rcases List.mem_append.mp hp with hp | hp
      · have hnot := (List.mem_filter.mp hp).2
        rw [hpid] at hnot
        exact absurd hid (by simpa using hnot)
      · rw [← hpid, hset p hp]
  · rw [hkeep id hid, h id v]
    constructor
    · rintro ⟨p, hp, rfl, rfl⟩
      exact ⟨p, List.mem_append_left _ (List.mem_filter.mpr ⟨hp, by simpa using hid⟩), rfl, rfl⟩
    · rintro ⟨p, hp, rfl, rfl⟩
      rcases List.mem_append.mp hp with hp | hp
      · exact ⟨p, List.mem_of_mem_filter hp, rfl, rfl⟩
      · exact absurd (List.mem_map_of_mem hp) hid

/-- Deleting records by id. -/
theorem delete (h : HoldsRows store t value rows) {gone : List String}
    (hgone : ∀ id, store'.record t id = if id ∈ gone then none else store.record t id) :
    HoldsRows store' t value (rows.filter fun p => p.1.id ∉ gone) := by
  intro id v
  rw [hgone id]
  by_cases hid : id ∈ gone
  · rw [if_pos hid]
    constructor
    · nofun
    · rintro ⟨p, hp, rfl, -⟩
      exact absurd hid (by simpa using (List.mem_filter.mp hp).2)
  · rw [if_neg hid, h id v]
    constructor
    · rintro ⟨p, hp, rfl, rfl⟩
      exact ⟨p, List.mem_filter.mpr ⟨hp, by simpa using hid⟩, rfl, rfl⟩
    · rintro ⟨p, hp, rfl, rfl⟩
      exact ⟨p, List.mem_of_mem_filter hp, rfl, rfl⟩

end HoldsRows

/-- The seen record of a numbered operation. -/
def seenValue (p : Op × Nat) : Bytes := beBytes 8 p.2

/-- The log record of a numbered operation. -/
def logValue (serde : Serde) (p : Op × Nat) : Bytes := beBytes 8 p.2 ++ serde.op.toBytes p.1

/-- The store holds the records of the registries, of the seen ids and of the
log with the given left-over records, and no others in the runtime's tables. -/
structure Mirrors (serde : Serde) (acc : List Op) (left : List (Op × Nat)) (s : SyncState)
    (store : Store) : Prop where
  tidy : store.Tidy
  entry : ∀ (k : CrdtKind) (ns : CrdtStoreNamespace) (key : String),
    store.record (k.table ns) key = ((s.registries.get k)[key]?).map (stateValue serde k ns)
  seen : HoldsRows store .seenOps seenValue (acc.zipIdx.rtake s.seenOps.limit)
  log : HoldsRows store .opLog (logValue serde) (left ++ logWindow acc s.opLogLimit)

/-- The store after the batch of an accepted set of operations. -/
def batchStore (serde : Serde) (store : Store) (updates : Registries)
    (plans : List OpPersistencePlan) : Store :=
  OrdMap.eraseAll
    (OrdMap.insertAll (OrdMap.insertAll store (updateSets serde updates)) (planSets serde plans))
    (planDeletes plans)

section Batch

variable {serde : Serde} {acc : List Op} {left : List (Op × Nat)} {s : SyncState} {store : Store}

/-- The plans of a batch, as numbered operations. -/
theorem Tracks.planBatch_numbers (h : Tracks acc s) (hmax : acc.length + inserted.length ≤ u64Max) :
    (planBatch s inserted).1.map (fun plan => (plan.op, plan.seenSequence.toNat)) =
        inserted.zipIdx acc.length ∧
      (planBatch s inserted).1.map (fun plan => (plan.op, plan.opLogSequence.toNat)) =
        inserted.zipIdx acc.length := by
  have hnumbers := planLoop_numbers (inserted.length - 1)
    (planSeenEvictions s.seenOps (inserted.map Op.id))
    (planOpLogEvictions s.opLog inserted.length s.opLogLimit) inserted 0
    s.seenOpsNextSequence s.opLogNextSequence (by rw [h.nextSeen]; exact hmax)
    (by rw [h.nextLog]; exact hmax)
  rw [h.nextSeen, h.nextLog] at hnumbers
  exact ⟨hnumbers.1, hnumbers.2.1⟩

theorem record_batchStore (updates : Registries) (plans : List OpPersistencePlan) (t : StoreTable)
    (key : String) :
    record (batchStore serde store updates plans) t key =
      if tableKey t key ∈ planDeletes plans then none
      else record (OrdMap.insertAll (OrdMap.insertAll store (updateSets serde updates))
        (planSets serde plans)) t key :=
  record_eraseAll _ _ _ _

theorem mem_collectSeenDeleteKeys {evicted : List String} {t : StoreTable} {id : String} :
    tableKey t id ∈ collectSeenDeleteKeys evicted ↔ t = .seenOps ∧ id ∈ evicted := by
  simp only [collectSeenDeleteKeys, seenOpStoreKey, List.mem_map, tableKey_eq_iff]
  grind

theorem mem_collectOpLogDeleteKeys {evicted : List Op} {t : StoreTable} {id : String} :
    tableKey t id ∈ collectOpLogDeleteKeys evicted ↔ t = .opLog ∧ id ∈ evicted.map Op.id := by
  simp only [collectOpLogDeleteKeys, opLogStoreKey, List.mem_map, tableKey_eq_iff]
  grind

/-- A batch deletes the seen records of the evicted ids. -/
theorem Windowed.record_seenOps (h : Windowed s) (inserted : List Op) (updates : Registries)
    (id : String) :
    record (batchStore serde store updates (planBatch s inserted).1) .seenOps id =
      if id ∈ planSeenEvictions s.seenOps (inserted.map Op.id) then none
      else record (OrdMap.insertAll (OrdMap.insertAll store (updateSets serde updates))
        (planSets serde (planBatch s inserted).1)) .seenOps id := by
  rw [record_batchStore, h.planDeletes_eq inserted]
  simp only [List.mem_append, mem_collectSeenDeleteKeys, mem_collectOpLogDeleteKeys,
    reduceCtorEq, false_and, or_false, true_and]

/-- A batch deletes the log records of the evicted operations. -/
theorem Windowed.record_opLog (h : Windowed s) (inserted : List Op) (updates : Registries)
    (id : String) :
    record (batchStore serde store updates (planBatch s inserted).1) .opLog id =
      if id ∈ (planOpLogEvictions s.opLog inserted.length s.opLogLimit).map Op.id then none
      else record (OrdMap.insertAll (OrdMap.insertAll store (updateSets serde updates))
        (planSets serde (planBatch s inserted).1)) .opLog id := by
  rw [record_batchStore, h.planDeletes_eq inserted]
  simp only [List.mem_append, mem_collectSeenDeleteKeys, mem_collectOpLogDeleteKeys,
    reduceCtorEq, false_and, false_or, true_and]

/-- Setting the records of a batch in one of its two tables. -/
theorem HoldsRows.planSets {t : StoreTable} {value : Op × Nat → Bytes} {rows : List (Op × Nat)}
    (h : HoldsRows store t value rows) (htable : ∀ k ns, CrdtKind.table k ns ≠ t)
    (updates : Registries) {plans : List OpPersistencePlan} {number : OpPersistencePlan → Nat}
    {n : Nat} (hnumbers : plans.map (fun plan => (plan.op, number plan)) = inserted.zipIdx n)
    (hnodup : (inserted.map Op.id).Nodup) (hids : planIds plans = inserted.map Op.id)
    (hvalue : ∀ plan ∈ plans, (planIds plans).Nodup → ∀ s : Store,
      record (OrdMap.insertAll s (Numax.planSets serde plans)) t plan.op.id =
        some (value (plan.op, number plan))) :
    HoldsRows
      (OrdMap.insertAll (OrdMap.insertAll store (updateSets serde updates))
        (Numax.planSets serde plans)) t value
      (rows.filter (fun p => p.1.id ∉ inserted.map Op.id) ++ inserted.zipIdx n) := by
  have hrows := map_id_zipIdx inserted n
  rw [← hrows]
  refine h.set ?_ ?_
  · intro p hp
    rw [← hnumbers] at hp
    obtain ⟨plan, hplan, rfl⟩ := List.mem_map.mp hp
    exact hvalue plan hplan (hids ▸ hnodup) _
  · intro id hid
    rw [hrows, ← hids] at hid
    rw [record_planSets_of_not_mem serde plans _ t hid,
      record_updateSets_of_ne serde store updates htable]

theorem table_ne_seenOps (k : CrdtKind) (ns : CrdtStoreNamespace) :
    CrdtKind.table k ns ≠ .seenOps := by
  cases k <;> cases ns <;> decide

theorem table_ne_opLog (k : CrdtKind) (ns : CrdtStoreNamespace) :
    CrdtKind.table k ns ≠ .opLog := by
  cases k <;> cases ns <;> decide

/-- The seen table after a batch. -/
theorem Mirrors.seen_batch (h : Mirrors serde acc left s store) (ht : Tracks acc s)
    (ops : List Op) (updates : Registries)
    (hmax : acc.length + (freshOps s.seenOps ops).length ≤ u64Max) :
    HoldsRows (batchStore serde store updates (planBatch s (freshOps s.seenOps ops)).1) .seenOps
      seenValue ((acc ++ freshOps s.seenOps ops).zipIdx.rtake s.seenOps.limit) := by
  generalize hins : freshOps s.seenOps ops = inserted at hmax ⊢
  have hnodup : (inserted.map Op.id).Nodup := hins ▸ freshOps_nodup s.seenOps ops
  obtain ⟨hnumbers, -⟩ := ht.planBatch_numbers hmax
  have hids := planIds_planBatch s inserted
  have hset := h.seen.planSets table_ne_seenOps updates hnumbers hnodup hids
    (fun plan hplan hnodup s => (record_planSets_of_mem serde _ hnodup s hplan).1)
  -- the ids of the window and of the batch are all different
  have hwindow : (acc.zipIdx.rtake s.seenOps.limit).map (fun p => p.1.id) = s.seenOps.order := by
    rw [ht.order, ← map_rtake]
    exact map_id_logWindow acc s.seenOps.limit
  have hextended : ((acc.zipIdx.rtake s.seenOps.limit ++ inserted.zipIdx acc.length).map
      fun p => p.1.id) = s.seenOps.order ++ inserted.map Op.id := by
    rw [List.map_append, hwindow, map_id_zipIdx]
  have hdistinct : (s.seenOps.order ++ inserted.map Op.id).Nodup := hins ▸ ht.valid.nodup_append ops
  have hfilter : (acc.zipIdx.rtake s.seenOps.limit).filter
      (fun p => p.1.id ∉ inserted.map Op.id) = acc.zipIdx.rtake s.seenOps.limit := by
    rw [List.filter_eq_self]
    intro p hp
    have hmem : p.1.id ∈ s.seenOps.order := hwindow ▸ List.mem_map_of_mem hp
    simpa using fun hin => (List.nodup_append.mp hdistinct).2.2 _ hmem _ hin rfl
  refine (hset.delete (ht.windowed.record_seenOps inserted updates)).congr fun p => ?_
  rw [hfilter, zipIdx_append_rtake, mem_rtake_iff (hextended ▸ hdistinct), List.mem_filter,
    hextended, planSeenEvictions_eq, List.length_append, List.length_zipIdx, List.length_map,
    ← hwindow, List.length_map]
  simp

theorem Tracks.not_mem_log (ht : Tracks acc s) (ops : List Op) :
    ∀ op ∈ freshOps s.seenOps ops, op.id ∉ (acc.rtake s.opLogLimit).map Op.id := by
  rw [← ht.log]
  exact ht.windowed.not_mem_opLog ops

/-- The evicted operations are those at the front of the log window. -/
theorem Tracks.evicted_ids (ht : Tracks acc s) (inserted : List Op) :
    (planOpLogEvictions s.opLog inserted.length s.opLogLimit).map Op.id =
      ((logWindow acc s.opLogLimit).take
        ((logWindow acc s.opLogLimit).length + inserted.length - s.opLogLimit)).map
        (fun p => p.1.id) := by
  have hlen : (logWindow acc s.opLogLimit).length = (acc.rtake s.opLogLimit).length := by
    rw [← map_fst_rtake_zipIdx, List.length_map]
    rfl
  rw [List.map_take, map_id_logWindow, planOpLogEvictions,
    normalizeOpLogLimit_of_pos ht.logLimit_pos, ht.log, hlen, List.map_take]

/-- The log table after a batch. -/
theorem Mirrors.log_batch (h : Mirrors serde acc left s store) (ht : Tracks acc s)
    (hleft : Leftover acc s.opLogLimit left) (ops : List Op) (updates : Registries)
    (hmax : acc.length + (freshOps s.seenOps ops).length ≤ u64Max) :
    HoldsRows (batchStore serde store updates (planBatch s (freshOps s.seenOps ops)).1) .opLog
      (logValue serde)
      (nextLeftover acc (freshOps s.seenOps ops) s.opLogLimit left ++
        logWindow (acc ++ freshOps s.seenOps ops) s.opLogLimit) := by
  have hnodup := freshOps_nodup s.seenOps ops
  have hnew := ht.not_mem_log ops
  generalize freshOps s.seenOps ops = inserted at hmax hnodup hnew ⊢
  obtain ⟨hnumbers, hnumbersLog⟩ := ht.planBatch_numbers hmax
  have hids := planIds_planBatch s inserted
  have hset := h.log.planSets table_ne_opLog updates hnumbersLog hnodup hids
    (fun plan hplan hnodup s => (record_planSets_of_mem serde _ hnodup s hplan).2)
  have hevicted := ht.evicted_ids inserted
  have hdistinct := hleft.nodup_extended hnodup hnew
  rw [List.map_append, List.map_append] at hdistinct
  obtain ⟨holder, -, hnewer⟩ := List.nodup_append.mp hdistinct
  obtain ⟨-, hwindow, hapart⟩ := List.nodup_append.mp holder
  -- nothing in the window has the id of a new operation
  have hfilter : (logWindow acc s.opLogLimit).filter (fun p => p.1.id ∉ inserted.map Op.id) =
      logWindow acc s.opLogLimit := by
    rw [List.filter_eq_self]
    intro p hp
    have hmem : p.1.id ∈ (acc.rtake s.opLogLimit).map Op.id :=
      map_id_logWindow acc s.opLogLimit ▸ List.mem_map_of_mem hp
    refine decide_eq_true fun hin => ?_
    obtain ⟨op, hop, hid⟩ := List.mem_map.mp hin
    exact hnew op hop (hid ▸ hmem)
  have hnotGone : ∀ {id}, id ∉ (logWindow acc s.opLogLimit).map (fun p => p.1.id) →
      id ∉ (planOpLogEvictions s.opLog inserted.length s.opLogLimit).map Op.id := by
    intro id hid hmem
    rw [hevicted, List.map_take] at hmem
    exact hid (List.mem_of_mem_take hmem)
  rw [nextLeftover_append]
  refine (hset.delete (ht.windowed.record_opLog inserted updates)).congr fun p => ?_
  rw [List.mem_filter, List.mem_append, List.filter_append, hfilter, List.mem_append,
    List.mem_append, keptWindow, List.mem_append, or_assoc]
  -- a row is left over, in the part of the window that stays, or new
  constructor
  · rintro ⟨hp | hp | hp, hkept⟩
    · exact .inl hp
    · refine .inr (.inl ((mem_drop_iff hwindow _ p).mpr ⟨hp, ?_⟩))
      rw [← hevicted]
      simpa using hkept
    · exact .inr (.inr hp)
  · rintro (hp | hp | hp)
    · refine ⟨.inl hp, ?_⟩
      have hid : p.1.id ∉ (logWindow acc s.opLogLimit).map (fun p => p.1.id) :=
        fun hmem => hapart _ (List.mem_map_of_mem hp) _ hmem rfl
      exact decide_eq_true (hnotGone hid)
    · obtain ⟨hmem, hkept⟩ := (mem_drop_iff hwindow _ p).mp hp
      rw [← hevicted] at hkept
      exact ⟨.inr (.inl hmem), decide_eq_true hkept⟩
    · refine ⟨.inr (.inr hp), ?_⟩
      have hid : p.1.id ∉ (logWindow acc s.opLogLimit).map (fun p => p.1.id) :=
        fun hmem => hnewer _ (List.mem_append_right _ hmem) _ (List.mem_map_of_mem hp) rfl
      exact decide_eq_true (hnotGone hid)

/-- A batch keeps the store a mirror of the node. -/
theorem Mirrors.batch (h : Mirrors serde acc left s store) (ht : Tracks acc s)
    (hleft : Leftover acc s.opLogLimit left) (ops : List Op) (updates : Registries)
    (hmax : acc.length + (freshOps s.seenOps ops).length ≤ u64Max) :
    Mirrors serde (acc ++ freshOps s.seenOps ops)
      (nextLeftover acc (freshOps s.seenOps ops) s.opLogLimit left)
      { commitBatch s (freshOps s.seenOps ops) with
        registries := publishUpdates s.registries updates }
      (batchStore serde store updates (planBatch s (freshOps s.seenOps ops)).1) where
  tidy := (tidy_planSets serde _ (by
    rw [updateSets_eq]
    exact tidy_kindRecords serde updates _ h.tidy)).eraseAll _
  entry := by
    intro k ns key
    have hkeep : tableKey (k.table ns) key ∉ planDeletes
        (planBatch s (freshOps s.seenOps ops)).1 := by
      rw [ht.windowed.planDeletes_eq, List.mem_append, mem_collectSeenDeleteKeys,
        mem_collectOpLogDeleteKeys]
      rintro (⟨h, -⟩ | ⟨h, -⟩)
      · exact table_ne_seenOps k ns h
      · exact table_ne_opLog k ns h
    rw [record_batchStore, if_neg hkeep,
      record_planSets_of_ne serde _ _ (table_ne_seenOps k ns) (table_ne_opLog k ns),
      record_updateSets, h.entry]
    change _ = (((publishUpdates s.registries updates).get k)[key]?).map _
    rw [get_publishUpdates, OrdMap.get_insertAll_toList]
    cases (updates.get k)[key]? <;> rfl
  seen := by
    have hseen := h.seen_batch ht ops updates hmax
    rw [← commitBatch_limit s (freshOps s.seenOps ops)] at hseen
    exact hseen
  log := h.log_batch ht hleft ops updates hmax

/-- Writing one entry keeps the store a mirror. -/
theorem Mirrors.write (h : Mirrors serde acc left s store) (op : Op) (queue : OpQueue) :
    Mirrors serde acc left { s with registries := applyOp s.registries op, opQueue := queue }
      (OrdMap.insertAll store
        (stateRecords serde op.kind.crdtKind op.kind.key (op.newEntry s.registries))) where
  tidy := tidy_stateRecords serde h.tidy _ _ _
  entry := by
    intro k ns key
    simp only [← insert_newEntry]
    by_cases hk : op.kind.crdtKind = k
    · subst hk
      rw [record_stateRecords, h.entry, get_insert_self, OrdMap.get_insert]
      by_cases hkey : op.kind.key = key
      · rw [if_pos hkey, if_pos hkey]
        rfl
      · rw [if_neg hkey, if_neg hkey]
    · rw [record_stateRecords_of_ne serde store _ _ _
          (fun ns' htable => hk (CrdtKind.table_inj htable).1), h.entry, Registries.insert,
        Registries.get_set_of_ne _ _ hk]
  seen := by
    intro id v
    rw [record_stateRecords_of_ne serde store _ _ _ (table_ne_seenOps _)]
    exact h.seen id v
  log := by
    intro id v
    rw [record_stateRecords_of_ne serde store _ _ _ (table_ne_opLog _)]
    exact h.log id v

end Batch

end Numax
