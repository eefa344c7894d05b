import Numax.Host.Run
import Numax.Core.JsonForm

/-!
# The durable log and the log in memory

The records under the op-log prefix are those of the log in memory as long as
no batch brings more new operations than the log may hold, and no longer: the
records a batch deletes are planned from the old log alone, while the log in
memory is pruned after the batch has been appended. The evictions of the
deduplication window, next to it in the source, do count the batch's own
operations.
-/

open Base Std

namespace Numax

open Store

/-- The ids of a batch that are not in the deduplication window, each once. -/
def unseenIds (seen : SeenOps) (ops : List Op) : List String :=
  ((ops.map Op.id).filter fun id => !seen.ids.contains id).dedup

theorem length_freshOps (seen : SeenOps) (ops : List Op) :
    (freshOps seen ops).length = (unseenIds seen ops).length := by
  rw [← List.length_map Op.id]
  apply List.Perm.length_eq
  refine (List.perm_ext_iff_of_nodup (freshOps_nodup seen ops) (List.nodup_dedup _)).mpr ?_
  intro id
  rw [mem_map_id_freshOps, List.mem_dedup, List.mem_filter, Bool.not_eq_true',
    ← Bool.not_eq_true, ExtTreeSet.contains_iff_mem]

namespace Node

/-- The stored op-log records are those of the log in memory, and no more than
its limit. -/
structure LogMirrored (n : Node) : Prop where
  keys : ∀ key : Bytes, key ∈ n.store ∧ startsWith key (asBytes opLogStorePrefix) = true ↔
    ∃ op ∈ n.sync.opLog, key = opLogStoreKey op.id
  count : (n.store.withPrefix (asBytes opLogStorePrefix)).length ≤ n.sync.opLogLimit

/-- A batch the store accepts has no more new operations than the log may hold. -/
def WithinLog (n : Node) : Event → Prop
  | .remember none ops => (unseenIds n.sync.seenOps ops).length ≤ n.sync.opLogLimit
  | .applyRemote none ops => (unseenIds n.sync.seenOps ops).length ≤ n.sync.opLogLimit
  | _ => True

/-! ## One event -/

section Step

variable {serde : Serde} {n : Node}

theorem freshOps_eq_nil_of_plans {s : SyncState} {inserted : List Op}
    (h : (planBatch s inserted).1 = []) : inserted = [] := by
  have hids := planIds_planBatch s inserted
  rw [h] at hids
  exact List.map_eq_nil_iff.mp hids.symm

/-- A store that refuses batches lets no operation in. -/
theorem accepts_of_fault (error : StoreError) (ops : List Op) :
    n.accepts serde (.remember (some error) ops) = [] ∧
      n.accepts serde (.applyRemote (some error) ops) = [] := by
  refine ⟨?_, ?_⟩
  · simp only [accepts]
    obtain ⟨e, heq⟩ | ⟨store, hstore, heq⟩ := rememberOps_cases serde (some error) n ops
    · rw [heq]
      rfl
    · unfold persistLocalOpsBatch at hstore
      split at hstore
      · next hempty =>
          rw [freshOps_eq_nil_of_plans (List.isEmpty_iff.mp hempty)]
          exact ite_self _
      · cases hstore
  · simp only [accepts]
    obtain ⟨rfl, -⟩ | ⟨e, heq⟩ | ⟨store, hstore, heq⟩ :=
      applyRemoteOps_cases serde (some error) n ops
    · exact ite_self _
    · rw [heq]
      rfl
    · unfold persistRemoteOpsBatch at hstore
      split at hstore
      · next hempty =>
          rw [freshOps_eq_nil_of_plans (List.isEmpty_iff.mp hempty)]
          exact ite_self _
      · cases hstore

/-- A store that takes batches lets everything new in. -/
theorem accepts_of_no_fault (ops : List Op) :
    n.accepts serde (.remember none ops) = freshOps n.sync.seenOps ops ∧
      n.accepts serde (.applyRemote none ops) = freshOps n.sync.seenOps ops := by
  refine ⟨if_pos ?_, if_pos ?_⟩
  · rw [rememberOps_of_no_fault]
    rfl
  · rw [applyRemoteOps_of_no_fault]
    rfl

theorem withinLog_iff (event : Event) :
    n.WithinLog event ↔ (n.accepts serde event).length ≤ n.sync.opLogLimit := by
  cases event with
  | call memory env c => simp [WithinLog, accepts]
  | recv => simp [WithinLog, accepts]
  | remember fault ops =>
    cases fault with
    | none => rw [WithinLog, (accepts_of_no_fault ops).1, length_freshOps]
    | some error => simp [WithinLog, (accepts_of_fault error ops).1]
  | applyRemote fault ops =>
    cases fault with
    | none => rw [WithinLog, (accepts_of_no_fault ops).2, length_freshOps]
    | some error => simp [WithinLog, (accepts_of_fault error ops).2]

/-- The ids of the durable log are those of the log in memory. -/
def IdsMirrored (n : Node) : Prop :=
  ∀ id, (n.store.record .opLog id).isSome = true ↔ id ∈ n.sync.opLog.map Op.id

/-- What holds of the log in every run. -/
structure LogKept (n : Node) : Prop where
  tidy : n.store.Tidy
  windowed : Windowed n.sync

theorem LogKept.logMirrored_iff (h : LogKept n) : n.LogMirrored ↔ n.IdsMirrored := by
  have hmem : ∀ key, (n.store.record .opLog key).isSome = true ↔ opLogStoreKey key ∈ n.store :=
    fun key => ExtTreeMap.mem_iff_isSome_getElem?.symm
  constructor
  · intro hlog id
    rw [hmem, List.mem_map]
    constructor
    · intro hid
      obtain ⟨op, hop, heq⟩ :=
        (hlog.keys _).mp ⟨hid, (startsWith_tableKey_iff .opLog .opLog id).mpr rfl⟩
      exact ⟨op, hop, (tableKey_eq_iff.mp heq).2.symm⟩
    · rintro ⟨op, hop, rfl⟩
      exact ((hlog.keys _).mpr ⟨op, hop, rfl⟩).1
  · intro hids
    refine ⟨fun key => ⟨?_, ?_⟩, ?_⟩
    · rintro ⟨hkey, hpre⟩
      obtain ⟨id, rfl⟩ := h.tidy key hkey .opLog hpre
      obtain ⟨op, hop, rfl⟩ := List.mem_map.mp ((hids id).mp ((hmem id).mpr hkey))
      exact ⟨op, hop, rfl⟩
    · rintro ⟨op, hop, rfl⟩
      exact ⟨(hmem _).mp ((hids _).mpr (List.mem_map_of_mem hop)),
        (startsWith_tableKey_iff .opLog .opLog op.id).mpr rfl⟩
    · obtain ⟨rows, hscan, hnodup, hrows⟩ := h.tidy.withPrefix_eq .opLog
      have hsub : rows.map Prod.fst ⊆ n.sync.opLog.map Op.id := by
        intro id hid
        obtain ⟨⟨key, v⟩, hrow, rfl⟩ := List.mem_map.mp hid
        apply (hids key).mp
        rw [(hrows key v).mp hrow]
        rfl
      have hlen := (hnodup.subperm hsub).length_le
      rw [List.length_map, List.length_map] at hlen
      change (n.store.withPrefix (asBytes StoreTable.opLog.dataPrefix)).length ≤ _
      rw [hscan, List.length_map]
      exact hlen.trans h.windowed.length_opLog_le

/-- What a batch leaves in the log table. -/
theorem LogKept.record_batchStore (h : LogKept n) (ops : List Op) (updates : Registries)
    (id : String) :
    (record (batchStore serde n.store updates
        (planBatch n.sync (freshOps n.sync.seenOps ops)).1) .opLog id).isSome = true ↔
      ((n.store.record .opLog id).isSome = true ∨ id ∈ (freshOps n.sync.seenOps ops).map Op.id) ∧
        id ∉ (planOpLogEvictions n.sync.opLog (freshOps n.sync.seenOps ops).length
          n.sync.opLogLimit).map Op.id := by
  have hids := planIds_planBatch n.sync (freshOps n.sync.seenOps ops)
  have hnodup := freshOps_nodup n.sync.seenOps ops
  generalize freshOps n.sync.seenOps ops = inserted at hids hnodup ⊢
  have hset : (record (OrdMap.insertAll (OrdMap.insertAll n.store (updateSets serde updates))
      (planSets serde (planBatch n.sync inserted).1)) .opLog id).isSome = true ↔
        (n.store.record .opLog id).isSome = true ∨ id ∈ inserted.map Op.id := by
    by_cases hid : id ∈ inserted.map Op.id
    · rw [← hids] at hid hnodup
      obtain ⟨plan, hplan, rfl⟩ := List.mem_map.mp hid
      rw [(record_planSets_of_mem serde _ hnodup _ hplan).2]
      simp only [Option.isSome_some, true_iff]
      exact .inr (hids ▸ hid)
    · rw [record_planSets_of_not_mem serde _ _ _ (hids ▸ hid),
        record_updateSets_of_ne serde n.store updates table_ne_opLog]
      simp [hid]
  rw [h.windowed.record_opLog inserted updates, ← hset]
  by_cases hgone :
      id ∈ (planOpLogEvictions n.sync.opLog inserted.length n.sync.opLogLimit).map Op.id
  · simp [hgone]
  · simp [hgone]

/-- One event keeps the log a window, and a mirrored log mirrored exactly if it
accepts no more than the log may hold. -/
theorem LogKept.step (h : LogKept n) {new : List Op} {m : Node}
    (hstep : HandleOutcome serde n new m) :
    LogKept m ∧ (n.IdsMirrored → (m.IdsMirrored ↔ new.length ≤ n.sync.opLogLimit)) := by
  cases hstep with
  | queue opQueue =>
    exact ⟨⟨h.tidy, h.windowed.frame n.sync.registries opQueue⟩,
      fun hids => ⟨fun _ => Nat.zero_le _, fun _ => hids⟩⟩
  | write op opQueue =>
    refine ⟨⟨tidy_stateRecords serde h.tidy _ _ _, h.windowed.frame _ opQueue⟩,
      fun hids => ⟨fun _ => Nat.zero_le _, fun _ id => ?_⟩⟩
    rw [record_stateRecords_of_ne serde n.store _ _ _ (table_ne_opLog _)]
    exact hids id
  | batch ops updates =>
    refine ⟨⟨?_, (h.windowed.commit ops).frame _ _⟩, ?_⟩
    · refine (tidy_planSets serde _ ?_).eraseAll _
      rw [updateSets_eq]
      exact tidy_kindRecords serde updates _ h.tidy
    · intro hids
      have hwindow := evicted_eq_rtake_iff (n := n.sync.opLogLimit)
        (h.windowed.nodup_append ops)
      rw [List.length_map, List.length_map] at hwindow
      rw [← hwindow]
      refine forall_congr' fun id => ?_
      have hpos := normalizeOpLogLimit_of_pos h.windowed.logLimit_pos
      rw [h.record_batchStore, hids id, planOpLogEvictions, hpos, List.map_take]
      change (_ ↔ id ∈ (commitBatch n.sync (freshOps n.sync.seenOps ops)).opLog.map Op.id) ↔ _
      rw [commitBatch_opLog, hpos, map_rtake, List.map_append]

theorem run_append (before : List Event) (event : Event) :
    n.run serde (before ++ [event]) = (n.run serde before).handle serde event := by
  rw [run, List.foldl_append]
  rfl

theorem LogKept.run (events : List Event) (h : LogKept n) : LogKept (n.run serde events) := by
  induction events generalizing n with
  | nil => exact h
  | cons event rest ih => exact ih (h.step (handle_outcome event)).1

/-- Along a run, the log is mirrored at every moment exactly if every event is
within the log. -/
theorem LogKept.run_iff (events : List Event) (h : LogKept n) (hids : n.IdsMirrored) :
    (∀ before, before <+: events → (n.run serde before).LogMirrored) ↔
      ∀ before event, before ++ [event] <+: events → (n.run serde before).WithinLog event := by
  constructor
  · intro hall before event hpre
    have hkept : LogKept (n.run serde before) := h.run before
    have hbefore := hkept.logMirrored_iff.mp (hall before ((List.prefix_append _ _).trans hpre))
    have hafter := hall _ hpre
    obtain ⟨hkept', hiff⟩ := hkept.step (@handle_outcome serde _ event)
    rw [run_append, hkept'.logMirrored_iff, hiff hbefore] at hafter
    exact (withinLog_iff event).mpr hafter
  · intro hall before hpre
    have hkept : LogKept (n.run serde before) := h.run before
    rw [hkept.logMirrored_iff]
    -- along the prefix, from its start
    induction before using List.reverseRecOn with
    | nil => exact hids
    | append_singleton before event ih =>
      have hbefore : LogKept (n.run serde before) := h.run before
      have hmirrored := ih ((List.prefix_append _ _).trans hpre) hbefore
      obtain ⟨-, hiff⟩ := hbefore.step (@handle_outcome serde _ event)
      rw [run_append]
      exact (hiff hmirrored).mpr ((withinLog_iff event).mp (hall before event hpre))

end Step

/-- For a node that starts without records, whatever happens: the durable log is
that of the memory after every event if and only if no batch brings more unseen
operations than the log may hold. -/
theorem logMirrored_run_iff (serde : Serde) {n : Node} (hinit : n.Initial)
    (hpos : 1 ≤ n.sync.opLogLimit) (hle : n.sync.opLogLimit ≤ n.sync.seenOps.limit)
    (events : List Event) :
    (∀ before, before <+: events → (n.run serde before).LogMirrored) ↔
      ∀ before event, before ++ [event] <+: events → (n.run serde before).WithinLog event := by
  have hstart : Durable serde [] [] n := hinit.durable hpos hle
  refine LogKept.run_iff events ⟨hstart.mirrors.tidy, hstart.tracks.windowed⟩ ?_
  intro id
  rw [hinit.opLog]
  cases hrecord : n.store.record .opLog id with
  | none => simp
  | some v => simpa [logWindow, List.rtake] using (hstart.mirrors.log id v).mp hrecord

/-- Two operations of a peer, as one batch. -/
def peerBatch : Event :=
  .applyRemote none [.gcounterIncrement "a" "peer" "k" 3, .gcounterIncrement "b" "peer" "k" 4]

/-- A log of two takes the batch. -/
theorem logMirrored_run_pair :
    ((start "node" 8 2 2).run jsonSerde [peerBatch]).sync.opLog.map Op.id = ["a", "b"] ∧
      ((start "node" 8 2 2).run jsonSerde [peerBatch]).LogMirrored := by
  refine ⟨by decide +kernel,
    (logMirrored_run_iff jsonSerde (start_initial "node" 8 2 2) (by decide) (by decide)
      [peerBatch]).mpr ?_ [peerBatch] List.prefix_rfl⟩
  intro before event hpre
  have hlen := hpre.length_le
  rw [List.length_append, List.length_singleton, List.length_singleton] at hlen
  have hbefore : before = [] := List.eq_nil_of_length_eq_zero (by omega)
  subst hbefore
  cases List.prefix_iff_eq_take.mp hpre
  change (unseenIds _ _).length ≤ 2
  decide +kernel

/-- A log of one keeps the record of an operation it does not hold. -/
theorem oversizedBatch_not_logMirrored :
    (applyRemoteOps jsonSerde none (start "node" 8 1 1)
        [.gcounterIncrement "a" "peer" "k" 3, .gcounterIncrement "b" "peer" "k" 4]).2 = .ok () ∧
      ((start "node" 8 1 1).run jsonSerde [peerBatch]).sync.opLog.map Op.id = ["b"] ∧
      ¬ ((start "node" 8 1 1).run jsonSerde [peerBatch]).LogMirrored := by
  have hlog : ((start "node" 8 1 1).run jsonSerde [peerBatch]).sync.opLog.map Op.id = ["b"] := by
    decide +kernel
  refine ⟨rfl, hlog, fun h => ?_⟩
  have hstored : opLogStoreKey "a" ∈ ((start "node" 8 1 1).run jsonSerde [peerBatch]).store := by
    rw [← ExtTreeMap.contains_iff_mem]
    decide +kernel
  obtain ⟨op, hop, hkey⟩ :=
    (h.keys _).mp ⟨hstored, (startsWith_tableKey_iff .opLog .opLog "a").mpr rfl⟩
  have hid : "a" ∈ ((start "node" 8 1 1).run jsonSerde [peerBatch]).sync.opLog.map Op.id :=
    List.mem_map.mpr ⟨op, hop, (tableKey_eq_iff.mp hkey).2.symm⟩
  rw [hlog] at hid
  exact absurd hid (by decide)

end Node

end Numax
