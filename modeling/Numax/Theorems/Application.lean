import Numax.Host.Event
import Numax.Core.JsonForm

/-!
# One effect, however an operation is applied

An operation has one effect on the registries (`applyOp`). A host call has the effect of
the operation it queues, and so has the remote path of the peers that receive it: the
different methods of the two paths come to the same entry, also where a write loses
against the entry that is there or a slot is saturated.

A batch of remote operations works on an overlay and evicts once, at its end. Its result
is that of its operations one after the other, so it does not matter how a sequence of
operations is cut into batches.
-/

open Base Std

namespace Numax

/-! ## Local and remote -/

/-- What the remote path makes of an operation alone. -/
theorem publishUpdates_single (registries : Registries) (op : Op) :
    publishUpdates registries (applyRemoteOpToCrdtUpdates op registries {}) =
      applyOp registries op := by
  rw [publishUpdates_applyRemoteOp, publishUpdates_empty]

/-- A successful call that queues an operation has its effect. -/
theorem CallOutcome.applyOp_of_queued {serde : Serde} {env : CallEnv} {h : HostState}
    {lost : Op → Prop} {issues : Option Op → Int → Prop} {result : HostState × Int}
    (houtcome : CallOutcome serde env h lost issues result)
    {sync sync' : SyncState} {op : Op} (henabled : h.sync = some sync)
    (hsuccess : 0 ≤ result.2) (hafter : result.1.sync = some sync')
    (hqueued : sync'.opQueue.ops = sync.opQueue.ops ++ [op]) :
    sync'.registries = applyOp sync.registries op := by
  cases houtcome with
  | rejected negative => exact absurd hsuccess (Int.not_le.mpr negative)
  | unchanged =>
    cases henabled.symm.trans hafter
    exact absurd (congrArg List.length hqueued) (by simp)
  | committed enabled issued persisted nonneg =>
    cases henabled.symm.trans enabled
    cases hafter
    cases List.append_cancel_left hqueued
    rfl
  | queuedOnly enabled issued same =>
    cases henabled.symm.trans enabled
    cases hafter
    cases List.append_cancel_left hqueued
    exact same.symm
  | unreported enabled issued persisted unwritable => exact absurd hsuccess (by simp [errInternal])

/-- A mutating call that succeeds and queues an operation leaves the entry that the remote
path makes of this operation, and all other entries as they were. -/
theorem localCall_eq_remote (serde : Serde) (env : CallEnv) (h : HostState) (call : CrdtCall)
    {sync sync' : SyncState} {op : Op} (henabled : h.sync = some sync)
    (hsuccess : 0 ≤ (crdtCall serde env h call).2)
    (hafter : (crdtCall serde env h call).1.sync = some sync')
    (hqueued : sync'.opQueue.ops = sync.opQueue.ops ++ [op]) :
    let remote := publishUpdates sync.registries
      (applyRemoteOpToCrdtUpdates op sync.registries {})
    (sync'.registries.get op.kind.crdtKind)[op.kind.key]? =
        (remote.get op.kind.crdtKind)[op.kind.key]? ∧
      sync'.registries = remote := by
  have hregistries : sync'.registries =
      publishUpdates sync.registries (applyRemoteOpToCrdtUpdates op sync.registries {}) := by
    rw [publishUpdates_single]
    exact (crdtCall_outcome serde env h call).applyOp_of_queued henabled hsuccess hafter hqueued
  exact ⟨by rw [hregistries], hregistries⟩

/-- A guest with the key `k` in memory, on a node whose register of `k` was written at the
end of time. -/
def lateHost : HostState where
  memory := some { bytes := asBytes "k" ++ [7] }
  store := ∅
  sync := some
    { nodeId := "node"
      registries := { lwwRegisters :=
        (∅ : OrdMap String LwwRegister).insert "k" ⟨[1], 18446744073709551615, "zone"⟩ }
      opQueue := { capacity := 4 }
      seenOps := SeenOps.new 8
      opLogLimit := 8 }

/-- The write loses there and is queued; the remote path leaves the register as well. -/
theorem localCall_eq_remote_losing :
    ∃ sync sync', lateHost.sync = some sync ∧
      (crdtCall jsonSerde ⟨some 5, "op", none⟩ lateHost (.lwwSet 0 1 1 1)).1.sync = some sync' ∧
      sync'.opQueue.ops = [.lwwRegisterSet "op" "node" "k" [7] 18446744073709551615] ∧
      sync'.registries = publishUpdates sync.registries (applyRemoteOpToCrdtUpdates
        (.lwwRegisterSet "op" "node" "k" [7] 18446744073709551615) sync.registries {}) := by
  have hops : (crdtCall jsonSerde ⟨some 5, "op", none⟩ lateHost (.lwwSet 0 1 1 1)).1.sync.map
      (fun sync => sync.opQueue.ops) =
        some [.lwwRegisterSet "op" "node" "k" [7] 18446744073709551615] := by decide +kernel
  obtain ⟨sync', hafter, hqueued⟩ := Option.map_eq_some_iff.mp hops
  exact ⟨_, sync', rfl, hafter, hqueued, (localCall_eq_remote jsonSerde ⟨some 5, "op", none⟩
    lateHost (.lwwSet 0 1 1 1) rfl (by decide +kernel) hafter hqueued).2⟩

/-! ## Batches -/

/-- The bookkeeping of accepted operations and their effects; without operations nothing
happens, and nothing is evicted. -/
def SyncState.accept (s : SyncState) (ops : List Op) : SyncState :=
  if ops.isEmpty then s
  else { commitBatch s ops with registries := ops.foldl applyOp s.registries }

/-- The sequences count the accepted operations, as far as they reach. -/
theorem planLoop_next (lastIndex : Nat) (seenEvicted : List String) (opLogEvicted : List Op)
    (inserted : List Op) (index : Nat) (nextSeen nextLog : UInt64) :
    (planLoop lastIndex seenEvicted opLogEvicted inserted index nextSeen nextLog).2 =
      ((satAdd · 1)^[inserted.length] nextSeen, (satAdd · 1)^[inserted.length] nextLog) := by
  induction inserted generalizing index nextSeen nextLog with
  | nil => rfl
  | cons op rest ih =>
    rw [List.length_cons, Function.iterate_succ_apply, Function.iterate_succ_apply,
      ← ih (index + 1)]
    rfl

theorem commitBatch_next (s : SyncState) (inserted : List Op) :
    (commitBatch s inserted).seenOpsNextSequence =
        (satAdd · 1)^[inserted.length] s.seenOpsNextSequence ∧
      (commitBatch s inserted).opLogNextSequence =
        (satAdd · 1)^[inserted.length] s.opLogNextSequence := by
  have hnext := planLoop_next (inserted.length - 1)
    (planSeenEvictions s.seenOps (inserted.map Op.id))
    (planOpLogEvictions s.opLog inserted.length s.opLogLimit)
    inserted 0 s.seenOpsNextSequence s.opLogNextSequence
  exact ⟨congrArg Prod.fst hnext, congrArg Prod.snd hnext⟩

/-- What has to agree for batching to be transparent: the registries, the order of the seen ids,
the log and the next sequences. -/
structure SyncState.Agree (s t : SyncState) : Prop where
  registries : s.registries = t.registries
  order : s.seenOps.order = t.seenOps.order
  opLog : s.opLog = t.opLog
  seenOpsNextSequence : s.seenOpsNextSequence = t.seenOpsNextSequence
  opLogNextSequence : s.opLogNextSequence = t.opLogNextSequence

theorem SyncState.Agree.refl (s : SyncState) : s.Agree s := ⟨rfl, rfl, rfl, rfl, rfl⟩

theorem SyncState.Agree.trans {s t u : SyncState} (hst : s.Agree t) (htu : t.Agree u) : s.Agree u :=
  ⟨hst.registries.trans htu.registries, hst.order.trans htu.order, hst.opLog.trans htu.opLog,
    hst.seenOpsNextSequence.trans htu.seenOpsNextSequence,
    hst.opLogNextSequence.trans htu.opLogNextSequence⟩

/-- Two batches in a row come to one. -/
theorem SyncState.accept_append (s : SyncState) (xs ys : List Op) :
    ((s.accept xs).accept ys).Agree (s.accept (xs ++ ys)) := by
  cases xs with
  | nil => exact .refl _
  | cons x xs =>
  cases ys with
  | nil =>
    rw [List.append_nil]
    exact .refl _
  | cons y ys =>
    generalize hxs : x :: xs = front
    generalize hys : y :: ys = back
    have hfront : front.isEmpty = false := by rw [← hxs]; rfl
    have hback : back.isEmpty = false := by rw [← hys]; rfl
    have hboth : (front ++ back).isEmpty = false := by rw [← hxs]; rfl
    simp only [accept, hfront, hback, hboth, Bool.false_eq_true, if_false]
    refine ⟨?_, ?_, ?_, ?_, ?_⟩
    · exact (List.foldl_append ..).symm
    · rw [commitBatch_order, commitBatch_order]
      simp only [commitBatch_limit, commitBatch_order]
      rw [rtake_append_rtake, List.map_append, List.append_assoc]
    · rw [commitBatch_opLog, commitBatch_opLog]
      simp only [commitBatch_opLog]
      exact (rtake_append_rtake ..).trans (by rw [List.append_assoc])
    · rw [(commitBatch_next _ _).1, (commitBatch_next _ _).1]
      simp only [(commitBatch_next _ _).1]
      rw [← Function.iterate_add_apply, List.length_append, Nat.add_comm]
    · rw [(commitBatch_next _ _).2, (commitBatch_next _ _).2]
      simp only [(commitBatch_next _ _).2]
      rw [← Function.iterate_add_apply, List.length_append, Nat.add_comm]

/-- A batch of unseen operations with ids of their own is accepted as a whole. -/
theorem applyRemoteOps_fresh (serde : Serde) (n : Node) {ops : List Op}
    (hnew : ∀ op ∈ ops, op.id ∉ n.sync.seenOps.ids) (hnodup : (ops.map Op.id).Nodup) :
    (applyRemoteOps serde none n ops).2 = .ok () ∧
      (applyRemoteOps serde none n ops).1.sync = n.sync.accept ops := by
  have hok := applyRemoteOps_of_no_fault serde n ops
  refine ⟨hok, ?_⟩
  cases ops with
  | nil => rfl
  | cons op rest =>
    obtain ⟨hnil, -⟩ | ⟨e, heq⟩ | ⟨store, -, heq⟩ :=
      applyRemoteOps_cases serde none n (op :: rest)
    · cases hnil
    · rw [heq] at hok
      cases hok
    · rw [heq, freshOps_eq_self hnew hnodup]
      rfl

/-- Batches one after the other, up to the first that fails. -/
def applyBatches (serde : Serde) (n : Node) : List (List Op) → Node × Except StoreError Unit
  | [] => (n, .ok ())
  | batch :: rest =>
    match applyRemoteOps serde none n batch with
    | (n, .error error) => (n, .error error)
    | (n, .ok ()) => applyBatches serde n rest

/-- Accepted ids are the only new ones. -/
theorem SyncState.mem_accept_ids {s : SyncState} {ops : List Op} {id : String}
    (h : id ∈ (s.accept ops).seenOps.ids) : id ∈ s.seenOps.ids ∨ id ∈ ops.map Op.id := by
  unfold accept at h
  split at h
  · exact .inl h
  · have hids : id ∈ (commitBatch s ops).seenOps.ids := h
    rw [commitBatch_seenOps, applySeenInsertions_eq] at hids
    exact (mem_foldl_insert _ _ _).mp ((mem_foldl_erase _ _ _).mp hids).1

theorem SyncState.accept_valid {s : SyncState} (h : s.seenOps.Valid) {ops : List Op}
    (hnew : ∀ op ∈ ops, op.id ∉ s.seenOps.ids) (hnodup : (ops.map Op.id).Nodup) :
    (s.accept ops).seenOps.Valid := by
  unfold accept
  split
  · exact h
  · have hcommit := commitBatch_valid h ops
    rw [freshOps_eq_self hnew hnodup] at hcommit
    exact hcommit

theorem SyncState.accept_opLogLimit (s : SyncState) (ops : List Op) :
    (s.accept ops).opLogLimit = s.opLogLimit := by
  unfold accept
  split <;> rfl

theorem applyBatches_accept (serde : Serde) (batches : List (List Op)) (n : Node)
    (hnodup : (batches.flatten.map Op.id).Nodup)
    (hnew : ∀ op ∈ batches.flatten, op.id ∉ n.sync.seenOps.ids) :
    (applyBatches serde n batches).2 = .ok () ∧
      (applyBatches serde n batches).1.sync.Agree (n.sync.accept batches.flatten) := by
  induction batches generalizing n with
  | nil => exact ⟨rfl, .refl _⟩
  | cons batch rest ih =>
    rw [List.flatten_cons, List.map_append] at hnodup
    obtain ⟨hbatch, hrest, hapart⟩ := List.nodup_append.mp hnodup
    rw [List.flatten_cons] at hnew ⊢
    obtain ⟨hok, hsync⟩ := applyRemoteOps_fresh serde n
      (fun op hop => hnew op (List.mem_append_left _ hop)) hbatch
    -- the first batch has not made any of the others known
    have hnew' : ∀ op ∈ rest.flatten,
        op.id ∉ (applyRemoteOps serde none n batch).1.sync.seenOps.ids := by
      intro op hop hseen
      rw [hsync] at hseen
      rcases SyncState.mem_accept_ids hseen with hseen | hbatch
      · exact hnew op (List.mem_append_right _ hop) hseen
      · exact hapart _ hbatch _ (List.mem_map_of_mem hop) rfl
    have hstep : applyBatches serde n (batch :: rest) =
        applyBatches serde (applyRemoteOps serde none n batch).1 rest := by
      rw [applyBatches]
      split
      next heq => rw [heq] at hok; cases hok
      next heq => rw [heq]
    obtain ⟨hok', hagree⟩ := ih _ hrest hnew'
    rw [hstep]
    refine ⟨hok', ?_⟩
    rw [hsync] at hagree
    exact hagree.trans (n.sync.accept_append batch rest.flatten)

/-- Operations that are new to a node, however they are cut into batches: the batches all
succeed and leave the registries, the order of the seen ids, the log and the next sequences
that one batch leaves. -/
theorem batching_transparent (serde : Serde) (n : Node) (batches : List (List Op))
    (hnodup : (batches.flatten.map Op.id).Nodup)
    (hnew : ∀ op ∈ batches.flatten, op.id ∉ n.sync.seenOps.ids) :
    (applyRemoteOps serde none n batches.flatten).2 = .ok () ∧
      (applyBatches serde n batches).2 = .ok () ∧
      (applyBatches serde n batches).1.sync.Agree
        (applyRemoteOps serde none n batches.flatten).1.sync := by
  obtain ⟨hok, hagree⟩ := applyBatches_accept serde batches n hnodup hnew
  obtain ⟨hwhole, hsync⟩ := applyRemoteOps_fresh serde n hnew hnodup
  rw [hsync]
  exact ⟨hwhole, hok, hagree⟩

/-- Three increments in two batches, at a node that keeps two ids and two operations. -/
theorem batching_transparent_evicting :
    ((applyBatches jsonSerde (.start "node" 8 2 2)
        [[.gcounterIncrement "a" "peer" "k" 3],
          [.gcounterIncrement "b" "peer" "k" 4, .gcounterIncrement "c" "peer" "k" 5]]).1.sync.Agree
      (applyRemoteOps jsonSerde none (.start "node" 8 2 2)
        [.gcounterIncrement "a" "peer" "k" 3, .gcounterIncrement "b" "peer" "k" 4,
          .gcounterIncrement "c" "peer" "k" 5]).1.sync) :=
  (batching_transparent jsonSerde (.start "node" 8 2 2)
    [[.gcounterIncrement "a" "peer" "k" 3],
      [.gcounterIncrement "b" "peer" "k" 4, .gcounterIncrement "c" "peer" "k" 5]]
    (by decide) (by decide)).2.2

end Numax
