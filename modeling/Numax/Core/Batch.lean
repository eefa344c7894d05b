import Numax.Core.Apply

/-!
# What a batch of operations does

The two ways operations are accepted, `remember_ops` and `apply_remote_ops`, do
the same to the acceptance metadata and differ in the registries only.
`rememberOps_cases` and `applyRemoteOps_cases` say everything they can do; the
lemmas before them describe the accepted operations of a batch (`freshOps`) and
the bookkeeping of its acceptance (`commitBatch`).
-/

open Base Std

namespace Numax

/-! ## Accepted operations -/

theorem isDuplicate_iff (seen : SeenOps) (inserted : List Op) (op : Op) :
    isDuplicate seen inserted op = true ↔ op.id ∈ seen.ids ∨ op.id ∈ inserted.map Op.id := by
  simp only [isDuplicate, Bool.or_eq_true, ExtTreeSet.contains_iff_mem, List.any_eq_true,
    beq_iff_eq, List.mem_map]

variable {seen : SeenOps} {ops : List Op}

/-- Accepted operations come from the batch and are not seen yet. -/
theorem mem_freshOps {op : Op} (h : op ∈ freshOps seen ops) :
    op ∈ ops ∧ op.id ∉ seen.ids := by
  suffices hfold : ∀ (ops inserted : List Op), op ∈ ops.foldl (acceptStep seen) inserted →
      op ∈ inserted ∨ (op ∈ ops ∧ op.id ∉ seen.ids) by
    exact (hfold ops [] h).resolve_left (by simp)
  intro ops
  induction ops with
  | nil => intro inserted h; exact .inl h
  | cons next rest ih =>
    intro inserted h
    rcases ih _ h with hmem | ⟨hmem, hnew⟩
    · unfold acceptStep at hmem
      split at hmem
      · exact .inl hmem
      · next hdup =>
          rcases List.mem_append.mp hmem with hmem | hmem
          · exact .inl hmem
          · cases List.mem_singleton.mp hmem
            rw [isDuplicate_iff, not_or] at hdup
            exact .inr ⟨List.mem_cons_self, hdup.1⟩
    · exact .inr ⟨List.mem_cons_of_mem _ hmem, hnew⟩

/-- Every id of the batch is seen already or accepted. -/
theorem mem_map_id_freshOps {id : String} :
    id ∈ (freshOps seen ops).map Op.id ↔ id ∈ ops.map Op.id ∧ id ∉ seen.ids := by
  constructor
  · intro h
    obtain ⟨op, hop, rfl⟩ := List.mem_map.mp h
    exact ⟨List.mem_map_of_mem (mem_freshOps hop).1, (mem_freshOps hop).2⟩
  · suffices hfold : ∀ (ops inserted : List Op),
        (id ∈ inserted.map Op.id ∨ (id ∈ ops.map Op.id ∧ id ∉ seen.ids)) →
          id ∈ (ops.foldl (acceptStep seen) inserted).map Op.id by
      exact fun h => hfold ops [] (.inr h)
    intro ops
    induction ops with
    | nil => intro inserted h; simpa using h
    | cons next rest ih =>
      intro inserted h
      apply ih
      unfold acceptStep
      split
      · next hdup =>
          rw [isDuplicate_iff] at hdup
          rcases h with h | ⟨hmem, hnew⟩
          · exact .inl h
          · rcases List.mem_cons.mp hmem with rfl | hrest
            · exact .inl (hdup.resolve_left hnew)
            · exact .inr ⟨hrest, hnew⟩
      · rw [List.map_append, List.mem_append, List.map_singleton, List.mem_singleton]
        rcases h with h | ⟨hmem, hnew⟩
        · exact .inl (.inl h)
        · rcases List.mem_cons.mp hmem with rfl | hrest
          · exact .inl (.inr rfl)
          · exact .inr ⟨hrest, hnew⟩

/-- No id is accepted twice in a batch. -/
theorem freshOps_nodup (seen : SeenOps) (ops : List Op) :
    ((freshOps seen ops).map Op.id).Nodup := by
  suffices hfold : ∀ (ops inserted : List Op), (inserted.map Op.id).Nodup →
      ((ops.foldl (acceptStep seen) inserted).map Op.id).Nodup by
    exact hfold ops [] List.nodup_nil
  intro ops
  induction ops with
  | nil => intro inserted h; exact h
  | cons next rest ih =>
    intro inserted h
    apply ih
    unfold acceptStep
    split
    · exact h
    · next hdup =>
        rw [isDuplicate_iff, not_or] at hdup
        rw [List.map_append, List.map_singleton]
        exact List.nodup_append.mpr ⟨h, List.nodup_singleton _, by
          rintro a ha b hb rfl
          cases List.mem_singleton.mp hb
          exact hdup.2 ha⟩

/-- A batch of distinct unseen operations is accepted whole. -/
theorem freshOps_eq_self (hnew : ∀ op ∈ ops, op.id ∉ seen.ids) (hnodup : (ops.map Op.id).Nodup) :
    freshOps seen ops = ops := by
  suffices hfold : ∀ (ops inserted : List Op), (∀ op ∈ ops, op.id ∉ seen.ids) →
      ((inserted ++ ops).map Op.id).Nodup →
      ops.foldl (acceptStep seen) inserted = inserted ++ ops by
    exact hfold ops [] hnew hnodup
  intro ops
  induction ops with
  | nil => intro inserted _ _; exact (List.append_nil _).symm
  | cons next rest ih =>
    intro inserted hnew hnodup
    have hdup : ¬ isDuplicate seen inserted next = true := by
      rw [isDuplicate_iff, not_or]
      refine ⟨hnew next List.mem_cons_self, ?_⟩
      rw [List.map_append, List.map_cons] at hnodup
      exact fun hmem => (List.nodup_append.mp hnodup).2.2 _ hmem _ List.mem_cons_self rfl
    rw [List.foldl_cons, acceptStep, if_neg hdup,
      ih (inserted ++ [next]) (fun op h => hnew op (List.mem_cons_of_mem _ h))
        (by simpa using hnodup),
      List.append_assoc]
    rfl

/-! ## Bookkeeping -/

/-- The deduplication window is a duplicate-free list within its limit, and
its id set is the set of that list. -/
structure SeenOps.Valid (seen : SeenOps) : Prop where
  consistent : seen.Consistent
  nodup : seen.order.Nodup
  length_le : seen.order.length ≤ seen.limit

theorem SeenOps.Valid.nodup_append (h : seen.Valid) (ops : List Op) :
    (seen.order ++ (freshOps seen ops).map Op.id).Nodup := by
  refine List.nodup_append.mpr ⟨h.nodup, freshOps_nodup seen ops, ?_⟩
  rintro a ha b hb rfl
  obtain ⟨op, hop, rfl⟩ := List.mem_map.mp hb
  exact (mem_freshOps hop).2 ((h.consistent op.id).mpr ha)

theorem commitBatch_seenOps (s : SyncState) (inserted : List Op) :
    (commitBatch s inserted).seenOps =
      applySeenInsertions s.seenOps (inserted.map Op.id)
        (planSeenEvictions s.seenOps (inserted.map Op.id)) := rfl

theorem commitBatch_order (s : SyncState) (inserted : List Op) :
    (commitBatch s inserted).seenOps.order =
      (s.seenOps.order ++ inserted.map Op.id).rtake s.seenOps.limit := by
  rw [commitBatch_seenOps, applySeenInsertions_order]

theorem commitBatch_order_of_not_evicted {s : SyncState} {inserted : List Op}
    (h : planSeenEvictions s.seenOps (inserted.map Op.id) = []) :
    (commitBatch s inserted).seenOps.order = s.seenOps.order ++ inserted.map Op.id := by
  rw [commitBatch_seenOps, applySeenInsertions_eq, h]
  rfl

@[simp] theorem commitBatch_limit (s : SyncState) (inserted : List Op) :
    (commitBatch s inserted).seenOps.limit = s.seenOps.limit := by
  rw [commitBatch_seenOps, applySeenInsertions_eq]

theorem commitBatch_opLog (s : SyncState) (inserted : List Op) :
    (commitBatch s inserted).opLog =
      (s.opLog ++ inserted).rtake (normalizeOpLogLimit s.opLogLimit) :=
  pruneOpLogAndReturnEvicted_fst _ _

/-- Accepting a batch keeps the deduplication window valid. -/
theorem commitBatch_valid {s : SyncState} (h : s.seenOps.Valid) (ops : List Op) :
    (commitBatch s (freshOps s.seenOps ops)).seenOps.Valid where
  consistent := by
    rw [commitBatch_seenOps]
    exact applySeenInsertions_consistent h.consistent (h.nodup_append ops)
  nodup := by
    rw [commitBatch_order]
    exact (rtake_suffix _ _).sublist.nodup (h.nodup_append ops)
  length_le := by
    rw [commitBatch_order, commitBatch_limit, length_rtake]
    exact min_le_left _ _

theorem normalizeOpLogLimit_of_pos {limit : Nat} (h : 1 ≤ limit) :
    normalizeOpLogLimit limit = limit := max_eq_left h

/-- The log is the recent part of the deduplication window. -/
structure Windowed (s : SyncState) : Prop where
  valid : s.seenOps.Valid
  log_ids : s.opLog.map Op.id = s.seenOps.order.rtake s.opLogLimit
  logLimit_pos : 1 ≤ s.opLogLimit
  logLimit_le : s.opLogLimit ≤ s.seenOps.limit

namespace Windowed

variable {s : SyncState}

theorem length_opLog_le (h : Windowed s) : s.opLog.length ≤ s.opLogLimit := by
  rw [← List.length_map Op.id, h.log_ids, length_rtake]
  exact min_le_left _ _

theorem opLog_nodup (h : Windowed s) : (s.opLog.map Op.id).Nodup := by
  rw [h.log_ids]
  exact (rtake_suffix _ _).sublist.nodup h.valid.nodup

/-- Accepted operations are new to the log: it holds part of what is seen. -/
theorem not_mem_opLog (h : Windowed s) (ops : List Op) :
    ∀ op ∈ freshOps s.seenOps ops, op.id ∉ s.opLog.map Op.id := by
  intro op hop hmem
  rw [h.log_ids] at hmem
  have hseen : op.id ∈ s.seenOps.order := (rtake_suffix _ _).subset hmem
  exact (mem_freshOps hop).2 ((h.valid.consistent op.id).mpr hseen)

/-- The log before a batch and the operations it accepts have ids of their own. -/
theorem nodup_append (h : Windowed s) (ops : List Op) :
    (s.opLog.map Op.id ++ (freshOps s.seenOps ops).map Op.id).Nodup := by
  refine List.nodup_append.mpr ⟨h.opLog_nodup, freshOps_nodup _ _, ?_⟩
  rintro a ha b hb rfl
  obtain ⟨op, hop, rfl⟩ := List.mem_map.mp hb
  exact h.not_mem_opLog ops op hop ha

/-- Registries and queue are no part of the windows. -/
theorem frame (h : Windowed s) (registries : Registries) (opQueue : OpQueue) :
    Windowed { s with registries, opQueue } :=
  ⟨h.valid, h.log_ids, h.logLimit_pos, h.logLimit_le⟩

/-- Accepting a batch moves both windows. -/
theorem commit (h : Windowed s) (ops : List Op) :
    Windowed (commitBatch s (freshOps s.seenOps ops)) where
  valid := commitBatch_valid h.valid ops
  log_ids := by
    rw [commitBatch_opLog, normalizeOpLogLimit_of_pos h.logLimit_pos, commitBatch_order, map_rtake,
      List.map_append, h.log_ids, rtake_append_rtake]
    exact (rtake_rtake_of_le h.logLimit_le).symm
  logLimit_pos := h.logLimit_pos
  logLimit_le := by
    rw [commitBatch_limit]
    exact h.logLimit_le

end Windowed

/-! ## The two batches -/

/-- A store without a fault takes every batch. -/
theorem rememberOps_of_no_fault (serde : Serde) (n : Node) (ops : List Op) :
    (rememberOps serde none n ops).2 = .ok () := by
  have hstore : ∀ plans, ∃ store, persistLocalOpsBatch serde none n.store plans = .ok store := by
    intro plans
    unfold persistLocalOpsBatch
    split <;> exact ⟨_, rfl⟩
  obtain ⟨store, hstore⟩ := hstore (planBatch n.sync (freshOps n.sync.seenOps ops)).1
  simp only [rememberOps, hstore]

theorem applyRemoteOps_of_no_fault (serde : Serde) (n : Node) (ops : List Op) :
    (applyRemoteOps serde none n ops).2 = .ok () := by
  have hstore : ∀ plans updates,
      ∃ store, persistRemoteOpsBatch serde none n.store plans updates = .ok store := by
    intro plans updates
    unfold persistRemoteOpsBatch
    split <;> exact ⟨_, rfl⟩
  unfold applyRemoteOps
  split
  · rfl
  · obtain ⟨store, hstore⟩ := hstore
      (planBatch n.sync (remoteLoop n.sync.seenOps n.sync.registries ops).1).1
      (remoteLoop n.sync.seenOps n.sync.registries ops).2
    simp only [hstore]

/-- Everything `rememberOps` can do. -/
theorem rememberOps_cases (serde : Serde) (fault : Option StoreError) (n : Node) (ops : List Op) :
    (∃ e, rememberOps serde fault n ops = (n, .error e)) ∨
    ∃ store, persistLocalOpsBatch serde fault n.store
        (planBatch n.sync (freshOps n.sync.seenOps ops)).1 = .ok store ∧
      rememberOps serde fault n ops =
        ({ sync := commitBatch n.sync (freshOps n.sync.seenOps ops), store }, .ok ()) := by
  simp only [rememberOps]
  cases hstore : persistLocalOpsBatch serde fault n.store
      (planBatch n.sync (freshOps n.sync.seenOps ops)).1 with
  | error e => exact .inl ⟨e, rfl⟩
  | ok store => exact .inr ⟨store, rfl, rfl⟩

/-- Everything `applyRemoteOps` can do. -/
theorem applyRemoteOps_cases (serde : Serde) (fault : Option StoreError) (n : Node)
    (ops : List Op) :
    (ops = [] ∧ applyRemoteOps serde fault n ops = (n, .ok ())) ∨
    (∃ e, applyRemoteOps serde fault n ops = (n, .error e)) ∨
    ∃ store, persistRemoteOpsBatch serde fault n.store
        (planBatch n.sync (freshOps n.sync.seenOps ops)).1
        (remoteLoop n.sync.seenOps n.sync.registries ops).2 = .ok store ∧
      applyRemoteOps serde fault n ops =
        ({ sync :=
            { commitBatch n.sync (freshOps n.sync.seenOps ops) with
              registries := (freshOps n.sync.seenOps ops).foldl applyOp n.sync.registries }
           store }, .ok ()) := by
  cases ops with
  | nil => exact .inl ⟨rfl, rfl⟩
  | cons op rest =>
    right
    obtain ⟨hfresh, hpublish⟩ :=
      remoteLoop_spec n.sync.seenOps n.sync.registries (op :: rest)
    rw [← hfresh, applyRemoteOps, if_neg (by simp)]
    simp only
    cases hstore : persistRemoteOpsBatch serde fault n.store
        (planBatch n.sync (remoteLoop n.sync.seenOps n.sync.registries (op :: rest)).1).1
        (remoteLoop n.sync.seenOps n.sync.registries (op :: rest)).2 with
    | error e => exact .inl ⟨e, rfl⟩
    | ok store =>
      refine .inr ⟨store, rfl, ?_⟩
      rw [hpublish, hfresh]

end Numax
