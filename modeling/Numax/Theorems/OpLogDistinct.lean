import Numax.Core.SyncConfig
import Numax.Theorems.Application
import Numax.Theorems.OpLogMirror
import Numax.Theorems.DedupWindow

/-!
# No operation twice in the log

The log holds what was accepted, and what was accepted is recognised as long as its id is
in the deduplication window. If the log reaches back no further than the window, its
operations have distinct ids and each has its record in the store (`LogKept.stored_step`).

Nothing relates the two limits when a node is configured. If the log reaches back further,
an operation can leave the window, stay in the log and be accepted again. It is then in the
log twice, or its new record is deleted in the batch that writes it, with the eviction of
the old one (`loggedAgain_not_sound`).
-/

open Base Std

namespace Numax

open Store

namespace Node

/-- The ids of the log are distinct, and every operation of it is stored under its key. -/
structure LogSound (serde : Serde) (n : Node) : Prop where
  distinct : (n.sync.opLog.map Op.id).Nodup
  stored : ∀ op ∈ n.sync.opLog, ∃ sequence,
    n.store[opLogStoreKey op.id]? = some (encodeDurableOpLogValue serde sequence op)

/-! ## A log within the window -/

section Within

variable {serde : Serde} {n : Node}

/-- What stays in the log is not evicted. -/
theorem LogKept.not_evicted (h : LogKept n) (ops : List Op) {op : Op}
    (hop : op ∈ (commitBatch n.sync (freshOps n.sync.seenOps ops)).opLog) :
    op.id ∉ (planOpLogEvictions n.sync.opLog (freshOps n.sync.seenOps ops).length
      n.sync.opLogLimit).map Op.id := by
  have hnodup := h.windowed.nodup_append ops
  rw [← List.map_append] at hnodup
  rw [commitBatch_opLog, List.rtake] at hop
  -- evicted is a front segment of the log, and what stays comes behind it
  rw [planOpLogEvictions, ← List.length_append]
  intro hevicted
  generalize freshOps n.sync.seenOps ops = inserted at hnodup hop hevicted
  generalize (n.sync.opLog ++ inserted).length - normalizeOpLogLimit n.sync.opLogLimit = k
    at hop hevicted
  rw [← List.take_append_drop k (n.sync.opLog ++ inserted), List.map_append] at hnodup
  have hfront : op.id ∈ ((n.sync.opLog ++ inserted).take k).map Op.id := by
    obtain ⟨gone, hgone, hid⟩ := List.mem_map.mp hevicted
    refine List.mem_map.mpr ⟨gone, ?_, hid⟩
    rw [List.take_append]
    exact List.mem_append_left _ hgone
  exact (List.nodup_append.mp hnodup).2.2 _ hfront _ (List.mem_map_of_mem hop) rfl

/-- One event keeps every operation of the log stored. -/
theorem LogKept.stored_step (h : LogKept n) {new : List Op} {m : Node}
    (hstep : HandleOutcome serde n new m)
    (hstored : ∀ op ∈ n.sync.opLog, ∃ sequence,
      n.store.record .opLog op.id = some (encodeDurableOpLogValue serde sequence op)) :
    ∀ op ∈ m.sync.opLog, ∃ sequence,
      m.store.record .opLog op.id = some (encodeDurableOpLogValue serde sequence op) := by
  cases hstep with
  | queue opQueue => exact hstored
  | write op opQueue =>
    intro op' hop'
    rw [record_stateRecords_of_ne serde n.store _ _ _ (table_ne_opLog _)]
    exact hstored op' hop'
  | batch ops updates =>
    intro op hop
    rw [h.windowed.record_opLog _ updates, if_neg (h.not_evicted ops hop)]
    have hids := planIds_planBatch n.sync (freshOps n.sync.seenOps ops)
    have hnodup := freshOps_nodup n.sync.seenOps ops
    rw [← hids] at hnodup
    have hmem : op ∈ n.sync.opLog ++ freshOps n.sync.seenOps ops := by
      have hlog := commitBatch_opLog n.sync (freshOps n.sync.seenOps ops)
      exact (rtake_suffix _ _).subset (hlog ▸ hop)
    rcases List.mem_append.mp hmem with hold | hfresh
    · have hid : op.id ∉ planIds (planBatch n.sync (freshOps n.sync.seenOps ops)).1 := by
        rw [hids]
        intro hid
        obtain ⟨other, hother, heq⟩ := List.mem_map.mp hid
        exact h.windowed.not_mem_opLog ops other hother (heq ▸ List.mem_map_of_mem hold)
      rw [record_planSets_of_not_mem serde _ _ _ hid,
        record_updateSets_of_ne serde n.store updates table_ne_opLog]
      exact hstored op hold
    · obtain ⟨plan, hplan, heq⟩ : ∃ plan ∈ (planBatch n.sync
          (freshOps n.sync.seenOps ops)).1, plan.op = op := by
        rw [← planBatch_ops n.sync (freshOps n.sync.seenOps ops)] at hfresh
        exact List.mem_map.mp hfresh
      refine ⟨plan.opLogSequence, ?_⟩
      rw [← heq, (record_planSets_of_mem serde _ hnodup _ hplan).2]

theorem LogKept.stored_run (events : List Event) (h : LogKept n)
    (hstored : ∀ op ∈ n.sync.opLog, ∃ sequence,
      n.store.record .opLog op.id = some (encodeDurableOpLogValue serde sequence op)) :
    (n.run serde events).LogSound serde := by
  induction events generalizing n with
  | nil => exact ⟨h.windowed.opLog_nodup, hstored⟩
  | cons event rest ih =>
    exact ih (h.step (handle_outcome event)).1 (h.stored_step (handle_outcome event) hstored)

end Within

/-! ## A log beyond the window -/

section Beyond

variable (serde : Serde)

/-- An increment with the given id. -/
def increment (id : String) : Op := .gcounterIncrement id "peer" "k" 1

/-- As many operations as it takes to fill a window: `b`, `bb`, `bbb` and so on. -/
def fillers (count : Nat) : List Op :=
  (List.range count).map fun i => increment (String.ofList (List.replicate (i + 1) 'b'))

theorem length_fillers (count : Nat) : (fillers count).length = count := by
  rw [fillers, List.length_map, List.length_range]

theorem fillers_nodup (count : Nat) : ((increment "a" :: fillers count).map Op.id).Nodup := by
  have hids : (fillers count).map Op.id =
      (List.range count).map fun i => String.ofList (List.replicate (i + 1) 'b') := by
    rw [fillers, List.map_map]
    rfl
  rw [List.map_cons, hids, List.nodup_cons]
  constructor
  · intro hmem
    obtain ⟨i, -, hi⟩ := List.mem_map.mp hmem
    have hlist : List.replicate (i + 1) 'b' = ['a'] := String.ofList_injective hi
    cases List.eq_of_mem_replicate (hlist ▸ List.mem_singleton_self 'a')
  · refine List.Nodup.map (fun i j hij => ?_) List.nodup_range
    have hlength := congrArg List.length (String.ofList_injective hij)
    simpa using hlength

/-- Nothing accepted so far. -/
structure Blank (s : SyncState) : Prop where
  valid : s.seenOps.Valid
  ids : s.seenOps.ids = ∅
  opLog : s.opLog = []

/-- The state after an operation and as many others as the window holds. -/
def filled (s : SyncState) : SyncState :=
  (s.accept [increment "a"]).accept (fillers s.seenOps.limit)

theorem Blank.unseen {s : SyncState} (h : Blank s) :
    ∀ op ∈ [increment "a"], op.id ∉ s.seenOps.ids := by
  intro op _
  rw [h.ids]
  exact ExtTreeSet.not_mem_empty

theorem Blank.unseen_fillers {s : SyncState} (h : Blank s) :
    ∀ op ∈ fillers s.seenOps.limit, op.id ∉ (s.accept [increment "a"]).seenOps.ids := by
  intro op hop hseen
  rcases SyncState.mem_accept_ids hseen with hseen | hseen
  · rw [h.ids] at hseen
    exact absurd hseen ExtTreeSet.not_mem_empty
  · have hfirst := (List.nodup_cons.mp (fillers_nodup s.seenOps.limit)).1
    rw [← List.mem_singleton.mp hseen] at hfirst
    exact hfirst (List.mem_map_of_mem hop)

/-- Its log begins with the operation, its window has forgotten it. -/
theorem Blank.filled {s : SyncState} (h : Blank s) (hlimit : s.seenOps.limit < s.opLogLimit) :
    (filled s).opLog = increment "a" :: fillers s.seenOps.limit ∧
      "a" ∉ (filled s).seenOps.ids ∧ (filled s).opLogLimit = s.opLogLimit := by
  obtain ⟨hfirst, hrest⟩ := List.nodup_cons.mp (fillers_nodup s.seenOps.limit)
  have hlength := length_fillers s.seenOps.limit
  have horder : s.seenOps.order = [] := by
    refine List.eq_nil_iff_forall_not_mem.mpr fun id hid => ?_
    have hmem := (h.valid.consistent id).mpr hid
    rw [h.ids] at hmem
    exact absurd hmem ExtTreeSet.not_mem_empty
  have hagree := s.accept_append [increment "a"] (fillers s.seenOps.limit)
  have hvalid : (Node.filled s).seenOps.Valid :=
    SyncState.accept_valid (SyncState.accept_valid h.valid h.unseen (List.nodup_singleton _))
      h.unseen_fillers hrest
  have hall : s.accept ([increment "a"] ++ fillers s.seenOps.limit) =
      { commitBatch s (increment "a" :: fillers s.seenOps.limit) with
        registries := (increment "a" :: fillers s.seenOps.limit).foldl applyOp s.registries } := rfl
  refine ⟨?_, ?_, ?_⟩
  · rw [Node.filled, hagree.opLog, hall]
    change (commitBatch s _).opLog = _
    rw [commitBatch_opLog, h.opLog, normalizeOpLogLimit_of_pos (by omega), List.nil_append,
      rtake_of_length_le (by rw [List.length_cons]; omega)]
  · rw [hvalid.consistent, Node.filled, hagree.order, hall]
    change "a" ∉ (commitBatch s _).seenOps.order
    rw [commitBatch_order, horder, List.nil_append, List.map_cons, ← List.singleton_append,
      rtake_append_of_le_length (by rw [List.length_map]; omega)]
    exact fun hmem => hfirst ((rtake_suffix _ _).subset hmem)
  · rw [Node.filled, SyncState.accept_opLogLimit, SyncState.accept_opLogLimit]

/-- A batch deletes the record of every operation it evicts from the log, after it has
written its own. -/
theorem evicted_not_stored {n : Node} {ops : List Op} (hne : ops ≠ [])
    (hnew : ∀ op ∈ ops, op.id ∉ n.sync.seenOps.ids) (hnodup : (ops.map Op.id).Nodup) {op : Op}
    (hevicted : op ∈ planOpLogEvictions n.sync.opLog ops.length n.sync.opLogLimit) :
    (applyRemoteOps serde none n ops).1.store[opLogStoreKey op.id]? = none := by
  have hok := applyRemoteOps_of_no_fault serde n ops
  obtain ⟨hnil, -⟩ | ⟨e, heq⟩ | ⟨store, hstore, heq⟩ := applyRemoteOps_cases serde none n ops
  · exact absurd hnil hne
  · rw [heq] at hok
    cases hok
  rw [heq]
  rw [freshOps_eq_self hnew hnodup] at hstore
  have hplans : (planBatch n.sync ops).1 ≠ [] := fun hplans => hne (freshOps_eq_nil_of_plans hplans)
  rw [persistRemoteOpsBatch_eq_ok hplans hstore]
  change record (batchStore serde n.store _ (planBatch n.sync ops).1) .opLog op.id = none
  have hdeletes : planDeletes (planBatch n.sync ops).1 = _ :=
    planLoop_deletes _ _ _ ops 0 _ _ hne (by have := List.length_pos_iff.mpr hne; omega)
  rw [Numax.record_batchStore, if_pos]
  rw [hdeletes, List.mem_append, mem_collectOpLogDeleteKeys]
  exact .inr ⟨rfl, List.mem_map_of_mem hevicted⟩

/-- An operation, as many others as the window holds, and the operation again. -/
def againEvents (count : Nat) : List Event :=
  [.applyRemote none [increment "a"], .applyRemote none (fillers count),
    .applyRemote none [increment "a"]]

/-- Accepted again, it is in the log twice or has lost its record. -/
theorem loggedAgain_not_sound {n : Node} (h : Blank n.sync)
    (hlimit : n.sync.seenOps.limit < n.sync.opLogLimit) :
    ¬ (n.run serde (againEvents n.sync.seenOps.limit)).LogSound serde := by
  obtain ⟨hlog, hforgotten, hlogLimit⟩ := h.filled hlimit
  have hlength := length_fillers n.sync.seenOps.limit
  have hnodup := fillers_nodup n.sync.seenOps.limit
  obtain ⟨-, hfirst⟩ := applyRemoteOps_fresh serde n h.unseen (List.nodup_singleton _)
  obtain ⟨-, hsecond⟩ := applyRemoteOps_fresh serde (applyRemoteOps serde none n [increment "a"]).1
    (by rw [hfirst]; exact h.unseen_fillers) (List.nodup_cons.mp hnodup).2
  generalize hm : (applyRemoteOps serde none (applyRemoteOps serde none n [increment "a"]).1
    (fillers n.sync.seenOps.limit)).1 = m at hsecond
  have hrun : n.run serde (againEvents n.sync.seenOps.limit) =
      (applyRemoteOps serde none m [increment "a"]).1 := by
    rw [← hm]
    rfl
  have hsync : m.sync = filled n.sync := by rw [hsecond, hfirst, filled]
  have hnew : ∀ op ∈ [increment "a"], op.id ∉ m.sync.seenOps.ids := by
    intro op hop
    rw [List.mem_singleton.mp hop, hsync]
    exact hforgotten
  obtain ⟨-, hthird⟩ := applyRemoteOps_fresh serde m hnew (List.nodup_singleton _)
  have hafter : (applyRemoteOps serde none m [increment "a"]).1.sync.opLog =
      (increment "a" :: fillers n.sync.seenOps.limit ++ [increment "a"]).rtake
        n.sync.opLogLimit := by
    rw [hthird]
    change (commitBatch m.sync _).opLog = _
    rw [commitBatch_opLog, hsync, hlog, hlogLimit, normalizeOpLogLimit_of_pos (by omega)]
  rw [hrun]
  rintro ⟨hdistinct, hstored⟩
  rw [hafter] at hdistinct hstored
  rcases Nat.lt_or_ge (n.sync.seenOps.limit + 1) n.sync.opLogLimit with hroom | hfull
  · -- room for both
    rw [rtake_of_length_le (by rw [List.length_append, List.length_cons, hlength]; exact hroom),
      List.map_append, List.map_cons] at hdistinct
    exact (List.nodup_append.mp hdistinct).2.2 _ List.mem_cons_self _ List.mem_cons_self rfl
  · -- the old one is evicted in the batch that writes the new one
    have hlimit' : n.sync.opLogLimit = n.sync.seenOps.limit + 1 := by omega
    have hevicted : increment "a" ∈ planOpLogEvictions m.sync.opLog [increment "a"].length
        m.sync.opLogLimit := by
      rw [hsync, hlog, hlogLimit, planOpLogEvictions, normalizeOpLogLimit_of_pos (by omega),
        List.length_cons, hlength, List.length_singleton, hlimit', Nat.add_sub_cancel_left]
      exact List.mem_cons_self
    obtain ⟨sequence, hrecord⟩ := hstored (increment "a") (by
      rw [rtake_append_of_length_le (by rw [List.length_singleton]; omega)]
      exact List.mem_append_right _ List.mem_cons_self)
    rw [evicted_not_stored serde (List.cons_ne_nil _ _) hnew (List.nodup_singleton _)
      hevicted] at hrecord
    cases hrecord

end Beyond

theorem start_blank (config : SyncConfig) (nodeId : NodeId) : Blank (config.start nodeId).sync :=
  ⟨(SeenOps.new_remembers _).valid, rfl, rfl⟩

end Node

/-- Every run of a node keeps the operations of its log distinct and stored, if and only if
the log is configured to reach back no further than the deduplication window. -/
theorem opLog_sound_iff (serde : Serde) (config : SyncConfig) (nodeId : NodeId) :
    (∀ events, ((config.start nodeId).run serde events).LogSound serde) ↔
      normalizeOpLogLimit config.opLogLimit ≤ normalizeSeenOpsLimit config.seenOpsLimit := by
  have hlog : (config.start nodeId).sync.opLogLimit = normalizeOpLogLimit config.opLogLimit := rfl
  have hseen : (config.start nodeId).sync.seenOps.limit =
      normalizeSeenOpsLimit config.seenOpsLimit := by
    change max (max config.seenOpsLimit 1) 1 = max config.seenOpsLimit 1
    omega
  rw [← hlog, ← hseen]
  constructor
  · intro hall
    by_contra hlimit
    exact Node.loggedAgain_not_sound serde (Node.start_blank config nodeId)
      (Nat.lt_of_not_le hlimit) (hall _)
  · intro hle events
    have hdurable : Node.Durable serde [] [] (config.start nodeId) :=
      (Node.start_initial ..).durable (Nat.le_max_right _ _) hle
    exact Node.LogKept.stored_run events ⟨hdurable.mirrors.tidy, hdurable.tracks.windowed⟩
      (fun _ hop => nomatch hop)

/-- A window of one id and a log of three pass the check, and the third batch brings the
first operation into the log again. -/
theorem forgottenOp_logged_twice :
    let config := { SyncConfig.defaults with opLogLimit := 3, seenOpsLimit := 1 }
    config.validate ⟨2 ^ 63, 2 ^ 61 - 1⟩ 0 = .ok () ∧
      ((config.start "node").run jsonSerde (Node.againEvents 1)).sync.opLog.map Op.id =
        ["a", "b", "a"] := by
  decide +kernel

end Numax
