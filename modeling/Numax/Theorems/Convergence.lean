import Numax.Host.Event
import Numax.Base.Replay
import Numax.Core.JsonForm

/-!
# Replicas converge

Any number of nodes with different ids run from empty stores: guests make
successful mutating calls, the queued operations are remembered on the node
that issued them, and batches of operations that were remembered somewhere are
applied anywhere, in any order, split and number of times. Two nodes that have
remembered all they queued, have accepted the same operations and never evicted
a seen id return the same results for all keys.

The history of a run is kept next to the nodes: for each node the operations it
queued and has not remembered yet, the ones it has accepted and the ids it has
evicted; for the whole world the operations issued so far and the ones
remembered somewhere. The invariant (`World.Inv`) says that a node that never
evicted holds exactly the effect of its accepted and pending operations, and
that issued operations may be replayed in any order.
-/

open Base Std

namespace Numax

/-! ## What readers see -/

/-- The results of the read calls for one key. -/
structure Observation where
  gcounterValue : UInt64
  pncounterValue : Int
  lwwValue : Option Bytes
  lwwMapEntries : List (String × Bytes)
  orsetElements : List String
  rgaValues : List Bytes
deriving DecidableEq, Repr

def Registries.observe (r : Registries) (key : String) : Observation where
  gcounterValue := ((r.counters[key]?).map GCounter.value).getD 0
  pncounterValue := ((r.pncounters[key]?).map PNCounter.value).getD 0
  lwwValue := (r.lwwRegisters[key]?).map LwwRegister.value
  lwwMapEntries := ((r.lwwMaps[key]?).map LwwMap.visibleEntries).getD []
  orsetElements := ((r.orsets[key]?).map ORSet.elements).getD []
  rgaValues := ((r.rgas[key]?).map Rga.values).getD []

/-! ## The world -/

/-- A node with its history. -/
structure Replica where
  node : Node
  /-- queued by a call and not yet remembered -/
  pending : List Op := []
  accepted : List Op := []
  evicted : List String := []

/-- The replica after a batch has been accepted. -/
def Replica.accept (r : Replica) (node : Node) (batch pending : List Op) : Replica :=
  let fresh := freshOps r.node.sync.seenOps batch
  { node
    pending
    accepted := r.accepted ++ fresh
    evicted := r.evicted ++ planSeenEvictions r.node.sync.seenOps (fresh.map Op.id) }

structure World (ι : Type) where
  replica : ι → Replica
  issued : List Op := []
  /-- remembered by the node that issued them -/
  remembered : List Op := []

/-- The timestamp of an operation, if it has one, is below `u64::MAX`. -/
def Op.StampBelowMax (op : Op) : Prop :=
  match op.kind with
  | .lwwRegisterSet _ _ timestampMs => timestampMs.toNat < u64Max
  | .lwwMapSet _ _ _ timestampMs => timestampMs.toNat < u64Max
  | .lwwMapRemove _ _ timestampMs => timestampMs.toNat < u64Max
  | _ => True

namespace World

variable {ι : Type} [DecidableEq ι]

/-- One step of one node. -/
inductive Step (serde : Serde) (w : World ι) : World ι → Prop
  | call (i : ι) (memory : Option GuestMemory) (env : CallEnv) (call : CrdtCall) {node : Node}
      {code : Int} {queued : List Op}
      (result : (w.replica i).node.call serde memory env call = (node, code))
      (success : 0 ≤ code)
      (queued_eq : (w.replica i).node.queuedSince node = queued)
      (fresh : ∀ op ∈ w.issued, op.id ≠ env.opId)
      (stamps : ∀ op ∈ queued, op.StampBelowMax) :
      Step serde w
        { w with
          replica := Function.update w.replica i
            { w.replica i with node, pending := (w.replica i).pending ++ queued }
          issued := w.issued ++ queued }
  | recv (i : ι) :
      Step serde w
        { w with
          replica := Function.update w.replica i
            { w.replica i with node := (w.replica i).node.recv } }
  | remember (i : ι) (fault : Option StoreError) (batch rest : List Op) {node : Node}
      (queued : (w.replica i).pending.Perm (batch ++ rest))
      (result : rememberOps serde fault (w.replica i).node batch = (node, .ok ())) :
      Step serde w
        { w with
          replica := Function.update w.replica i ((w.replica i).accept node batch rest)
          remembered := w.remembered ++ batch }
  | rememberFailed (i : ι) (fault : Option StoreError) (batch : List Op) {node : Node}
      {error : StoreError} (queued : batch ⊆ (w.replica i).pending)
      (result : rememberOps serde fault (w.replica i).node batch = (node, .error error)) :
      Step serde w
        { w with replica := Function.update w.replica i { w.replica i with node } }
  | applyRemote (i : ι) (fault : Option StoreError) (batch : List Op) {node : Node}
      (known : ∀ op ∈ batch, op ∈ w.remembered)
      (result : applyRemoteOps serde fault (w.replica i).node batch = (node, .ok ())) :
      Step serde w
        { w with
          replica := Function.update w.replica i
            ((w.replica i).accept node batch (w.replica i).pending) }
  | applyRemoteFailed (i : ι) (fault : Option StoreError) (batch : List Op) {node : Node}
      {error : StoreError}
      (result : applyRemoteOps serde fault (w.replica i).node batch = (node, .error error)) :
      Step serde w
        { w with replica := Function.update w.replica i { w.replica i with node } }

/-- Nodes with different ids, all just started. -/
structure Initial (w : World ι) : Prop where
  nodeId_inj : Function.Injective fun i => (w.replica i).node.sync.nodeId
  node : ∀ i, (w.replica i).node.Initial
  pending : ∀ i, (w.replica i).pending = []
  accepted : ∀ i, (w.replica i).accepted = []
  evicted : ∀ i, (w.replica i).evicted = []
  issued : w.issued = []
  remembered : w.remembered = []

end World

/-! ## Register timestamps only grow -/

theorem LwwRegister.merge_timestamp_le (r other : LwwRegister) :
    r.timestampMs.toNat ≤ (r.merge other).1.timestampMs.toNat ∧
      other.timestampMs.toNat ≤ (r.merge other).1.timestampMs.toNat := by
  unfold merge
  by_cases h : candidateWins other r = true
  · rw [if_pos h]
    simp only [candidateWins, gt_iff_lt, Bool.or_eq_true, decide_eq_true_eq, Bool.and_eq_true,
      beq_iff_eq, UInt64.lt_iff_toNat_lt] at h
    refine ⟨?_, le_rfl⟩
    rcases h with h | ⟨h, -⟩
    · exact Nat.le_of_lt h
    · exact Nat.le_of_eq (congrArg UInt64.toNat h.symm)
  · rw [if_neg h]
    simp only [candidateWins, gt_iff_lt, Bool.or_eq_true, decide_eq_true_eq, not_or,
      UInt64.lt_iff_toNat_lt] at h
    exact ⟨le_rfl, Nat.le_of_not_lt h.1⟩

variable {op : Op} {key : String}

/-- A register write leaves at least its timestamp in the register. -/
theorem applyOp_register_self (r : Registries) {value : Bytes} {timestampMs : UInt64}
    (hop : op.kind = .lwwRegisterSet key value timestampMs) :
    ∃ reg, (applyOp r op).lwwRegisters[key]? = some reg ∧
      timestampMs.toNat ≤ reg.timestampMs.toNat := by
  obtain ⟨id, origin, kind⟩ := op
  cases hop
  refine ⟨_, applyOp_entry r _, ?_⟩
  change timestampMs.toNat ≤ (OpKind.effect origin (.lwwRegisterSet key value timestampMs)
    r.lwwRegisters[key]? : LwwRegister).timestampMs.toNat
  cases r.lwwRegisters[key]? with
  | none => exact le_rfl
  | some reg => exact (LwwRegister.merge_timestamp_le reg ⟨value, timestampMs, origin⟩).2

/-- No operation lowers the timestamp of a register. -/
theorem applyOp_register_le {r : Registries} (op : Op) {reg : LwwRegister}
    (h : r.lwwRegisters[key]? = some reg) :
    ∃ reg', (applyOp r op).lwwRegisters[key]? = some reg' ∧
      reg.timestampMs.toNat ≤ reg'.timestampMs.toNat := by
  obtain ⟨id, origin, kind⟩ := op
  cases kind with
  | lwwRegisterSet k value timestampMs =>
    by_cases hkey : k = key
    · subst hkey
      refine ⟨_, applyOp_entry r _, ?_⟩
      change reg.timestampMs.toNat ≤ (OpKind.effect origin (.lwwRegisterSet k value timestampMs)
        r.lwwRegisters[k]? : LwwRegister).timestampMs.toNat
      rw [h]
      exact (LwwRegister.merge_timestamp_le reg ⟨value, timestampMs, origin⟩).1
    · refine ⟨reg, ?_, le_rfl⟩
      change (r.lwwRegisters.alter k _)[key]? = some reg
      rw [OrdMap.get_alter, if_neg hkey, h]
  | _ => exact ⟨reg, h, le_rfl⟩

theorem foldl_applyOp_register_le (ops : List Op) {r : Registries} {reg : LwwRegister}
    (h : r.lwwRegisters[key]? = some reg) :
    ∃ reg', (ops.foldl applyOp r).lwwRegisters[key]? = some reg' ∧
      reg.timestampMs.toNat ≤ reg'.timestampMs.toNat := by
  induction ops generalizing r reg with
  | nil => exact ⟨reg, h, le_rfl⟩
  | cons op rest ih =>
    obtain ⟨mid, hmid, hle⟩ := applyOp_register_le op h
    obtain ⟨last, hlast, hle'⟩ := ih hmid
    exact ⟨last, hlast, hle.trans hle'⟩

/-! ## The invariant -/

/-- What holds of the operations issued in a run. -/
structure IssuedInv (issued : List Op) : Prop where
  ids_nodup : (issued.map Op.id).Nodup
  element_id : ∀ op ∈ issued, ∀ {key id parent value},
    op.kind = .rgaInsert key id parent value → id = op.id
  stamps_ne : ∀ a ∈ issued, ∀ b ∈ issued, a.id ≠ b.id → a.origin = b.origin →
    ∀ {key va ta vb tb}, a.kind = .lwwRegisterSet key va ta →
      b.kind = .lwwRegisterSet key vb tb → ta ≠ tb

/-- Issued operations with different ids commute. -/
theorem IssuedInv.compatible {issued : List Op} (h : IssuedInv issued) {a b : Op}
    (ha : a ∈ issued) (hb : b ∈ issued) (hne : a.id ≠ b.id) : a.Compatible b := by
  obtain ⟨ida, origina, kinda⟩ := a
  obtain ⟨idb, originb, kindb⟩ := b
  cases kinda with
  | lwwRegisterSet k v t =>
    cases kindb with
    | lwwRegisterSet l w u =>
      rintro rfl rfl horigin
      exact absurd rfl (h.stamps_ne _ ha _ hb hne horigin rfl rfl)
    | _ => trivial
  | rgaInsert k i p v =>
    cases kindb with
    | rgaInsert l j q w =>
      rintro rfl rfl
      exact hne ((h.element_id _ ha rfl).symm.trans (h.element_id _ hb rfl))
    | _ => trivial
  | _ => trivial

theorem IssuedInv.replayable {issued : List Op} (h : IssuedInv issued) :
    Replayable Op.id applyOp issued where
  unique := fun _ hx _ hy hid => List.inj_on_of_nodup_map h.ids_nodup hx hy hid
  comm := fun x hx y hy hne r => applyOp_comm r x y (h.compatible hx hy hne)

/-- What holds of a node and its history. -/
structure ReplicaInv (issued remembered : List Op) (r : Replica) : Prop where
  seen : r.node.sync.seenOps.Valid
  pending_issued : r.pending ⊆ issued
  pending_origin : ∀ op ∈ r.pending, op.origin = r.node.sync.nodeId
  pending_nodup : (r.pending.map Op.id).Nodup
  pending_new : ∀ op ∈ r.pending, op ∉ remembered
  accepted_remembered : r.accepted ⊆ remembered
  /-- the node's registers are at least as recent as its own writes -/
  stamped : ∀ op ∈ issued, op.origin = r.node.sync.nodeId → ∀ {key value timestampMs},
    op.kind = .lwwRegisterSet key value timestampMs →
      ∃ reg, r.node.sync.registries.lwwRegisters[key]? = some reg ∧
        timestampMs.toNat ≤ reg.timestampMs.toNat
  /-- without evictions, the window is the history and the registries its effect -/
  kept : r.evicted = [] →
    r.node.sync.seenOps.order = r.accepted.map Op.id ∧
      r.node.sync.registries = (r.accepted ++ r.pending).foldl applyOp {}

variable {node : Node} {env : CallEnv}

namespace ReplicaInv

variable {issued remembered : List Op} {r : Replica}

/-- Operations of other nodes do not disturb a replica. -/
theorem frame (h : ReplicaInv issued remembered r) {newIssued newRemembered : List Op}
    (hissued : ∀ op ∈ newIssued, op.origin ≠ r.node.sync.nodeId)
    (hremembered : ∀ op ∈ newRemembered, op.origin ≠ r.node.sync.nodeId) :
    ReplicaInv (issued ++ newIssued) (remembered ++ newRemembered) r where
  seen := h.seen
  pending_issued := fun _ hop => List.mem_append_left _ (h.pending_issued hop)
  pending_origin := h.pending_origin
  pending_nodup := h.pending_nodup
  pending_new := by
    intro op hop hmem
    rcases List.mem_append.mp hmem with hmem | hmem
    · exact h.pending_new op hop hmem
    · exact hremembered op hmem (h.pending_origin op hop)
  accepted_remembered := fun _ hop => List.mem_append_left _ (h.accepted_remembered hop)
  stamped := by
    intro op hop horigin key value timestampMs hkind
    rcases List.mem_append.mp hop with hop | hop
    · exact h.stamped op hop horigin hkind
    · exact absurd horigin (hissued op hop)
  kept := h.kept

/-- A change of the queue alone. -/
theorem of_sync (h : ReplicaInv issued remembered r) (hid : node.sync.nodeId = r.node.sync.nodeId)
    (hseen : node.sync.seenOps = r.node.sync.seenOps)
    (hregs : node.sync.registries = r.node.sync.registries) :
    ReplicaInv issued remembered { r with node } where
  seen := by rw [hseen]; exact h.seen
  pending_issued := h.pending_issued
  pending_origin := by rw [hid]; exact h.pending_origin
  pending_nodup := h.pending_nodup
  pending_new := h.pending_new
  accepted_remembered := h.accepted_remembered
  stamped := by simp only [hid, hregs]; exact h.stamped
  kept := by simp only [hseen, hregs]; exact h.kept

/-- A call that issued an operation. -/
theorem of_issue (h : ReplicaInv issued remembered r) (hsub : remembered ⊆ issued)
    (hid : node.sync.nodeId = r.node.sync.nodeId) (hseen : node.sync.seenOps = r.node.sync.seenOps)
    (hregs : node.sync.registries = applyOp r.node.sync.registries op)
    (hissued : IssuedBy env r.node.sync op) (hfresh : ∀ o ∈ issued, o.id ≠ op.id) :
    ReplicaInv (issued ++ [op]) remembered { r with node, pending := r.pending ++ [op] } where
  seen := by rw [hseen]; exact h.seen
  pending_issued := List.append_subset.mpr
    ⟨fun _ hop => List.mem_append_left _ (h.pending_issued hop),
      List.subset_append_right _ _⟩
  pending_origin := by
    intro o ho
    rw [hid]
    rcases List.mem_append.mp ho with ho | ho
    · exact h.pending_origin o ho
    · cases List.mem_singleton.mp ho
      exact hissued.origin_eq
  pending_nodup := by
    rw [List.map_append, List.map_singleton]
    refine List.nodup_append.mpr ⟨h.pending_nodup, List.nodup_singleton _, ?_⟩
    rintro a ha b hb rfl
    obtain ⟨o, ho, rfl⟩ := List.mem_map.mp ha
    exact hfresh o (h.pending_issued ho) (List.mem_singleton.mp hb)
  pending_new := by
    intro o ho hmem
    rcases List.mem_append.mp ho with ho | ho
    · exact h.pending_new o ho hmem
    · cases List.mem_singleton.mp ho
      exact hfresh _ (hsub hmem) rfl
  accepted_remembered := h.accepted_remembered
  stamped := by
    intro o ho horigin key value timestampMs hkind
    simp only [hregs]
    rcases List.mem_append.mp ho with ho | ho
    · rw [hid] at horigin
      obtain ⟨reg, hreg, hle⟩ := h.stamped o ho horigin hkind
      obtain ⟨reg', hreg', hle'⟩ := applyOp_register_le op hreg
      exact ⟨reg', hreg', hle.trans hle'⟩
    · -- its own register has taken the new timestamp
      cases List.mem_singleton.mp ho
      exact applyOp_register_self _ hkind
  kept := by
    intro hevicted
    obtain ⟨horder, hfold⟩ := h.kept hevicted
    simp only [hseen, hregs, ← List.append_assoc, List.foldl_append, List.foldl_cons,
      List.foldl_nil] at horder hfold ⊢
    exact ⟨horder, congrArg (applyOp · op) hfold⟩

end ReplicaInv

/-- A new operation keeps the issued ones replayable. -/
theorem IssuedInv.append {issued remembered : List Op} {r : Replica} (h : IssuedInv issued)
    (hr : ReplicaInv issued remembered r) (hissued : IssuedBy env r.node.sync op)
    (hfresh : ∀ o ∈ issued, o.id ≠ op.id) (hstamp : op.StampBelowMax) :
    IssuedInv (issued ++ [op]) := by
  -- an older write of the same node has a smaller timestamp
  have hlt : ∀ a ∈ issued, a.origin = op.origin → ∀ {key va ta vb tb},
      a.kind = .lwwRegisterSet key va ta → op.kind = .lwwRegisterSet key vb tb → ta ≠ tb := by
    intro a ha horigin key va ta vb tb hka hkop
    obtain ⟨reg, hreg, hle⟩ := hr.stamped a ha (horigin.trans hissued.origin_eq) hka
    have hgt := hissued.stamp_gt hkop reg hreg
    have hmax : tb.toNat < u64Max := by
      unfold Op.StampBelowMax at hstamp
      rw [hkop] at hstamp
      exact hstamp
    rw [UInt64.le_iff_toNat_le, satAdd_toNat] at hgt
    have hone : (1 : UInt64).toNat = 1 := rfl
    rintro rfl
    omega
  refine ⟨?_, ?_, ?_⟩
  · rw [List.map_append, List.map_singleton]
    refine List.nodup_append.mpr ⟨h.ids_nodup, List.nodup_singleton _, ?_⟩
    rintro a ha b hb rfl
    obtain ⟨o, ho, rfl⟩ := List.mem_map.mp ha
    exact hfresh o ho (List.mem_singleton.mp hb)
  · intro o ho key id parent value hkind
    rcases List.mem_append.mp ho with ho | ho
    · exact h.element_id o ho hkind
    · cases List.mem_singleton.mp ho
      exact hissued.element_id hkind
  · intro a ha b hb hne horigin key va ta vb tb hka hkb
    rcases List.mem_append.mp ha with ha | ha <;> rcases List.mem_append.mp hb with hb | hb
    · exact h.stamps_ne a ha b hb hne horigin hka hkb
    · cases List.mem_singleton.mp hb
      exact hlt a ha horigin hka hkb
    · cases List.mem_singleton.mp ha
      exact (hlt b hb horigin.symm hkb hka).symm
    · cases List.mem_singleton.mp ha
      cases List.mem_singleton.mp hb
      exact absurd rfl hne

namespace ReplicaInv

variable {issued remembered : List Op} {r : Replica}

/-- Pending operations are not accepted yet. -/
theorem pending_unseen (h : ReplicaInv issued remembered r) (hissued : IssuedInv issued)
    (hsub : remembered ⊆ issued) (hevicted : r.evicted = []) (hop : op ∈ r.pending) :
    op.id ∉ r.node.sync.seenOps.ids := by
  intro hmem
  rw [h.seen.consistent, (h.kept hevicted).1] at hmem
  obtain ⟨other, hother, hid⟩ := List.mem_map.mp hmem
  have hremembered := h.accepted_remembered hother
  have heq := hissued.replayable.unique other (hsub hremembered) op (h.pending_issued hop) hid
  exact h.pending_new op hop (heq ▸ hremembered)

/-- Remembering a batch of pending operations. -/
theorem of_remember (h : ReplicaInv issued remembered r) (hissued : IssuedInv issued)
    (hsub : remembered ⊆ issued) {batch rest : List Op} (hqueued : r.pending.Perm (batch ++ rest))
    (store : Store) :
    ReplicaInv issued (remembered ++ batch)
      (r.accept { sync := commitBatch r.node.sync (freshOps r.node.sync.seenOps batch), store }
        batch rest) where
  seen := commitBatch_valid h.seen batch
  pending_issued := fun _ hop =>
    h.pending_issued (hqueued.mem_iff.mpr (List.mem_append_right _ hop))
  pending_origin := fun op hop =>
    h.pending_origin op (hqueued.mem_iff.mpr (List.mem_append_right _ hop))
  pending_nodup := by
    have hnodup := (hqueued.map Op.id).nodup_iff.mp h.pending_nodup
    rw [List.map_append] at hnodup
    exact (List.nodup_append.mp hnodup).2.1
  pending_new := by
    intro op hop hmem
    have hpending := hqueued.mem_iff.mpr (List.mem_append_right batch hop)
    rcases List.mem_append.mp hmem with hmem | hmem
    · exact h.pending_new op hpending hmem
    · have hnodup := (hqueued.map Op.id).nodup_iff.mp h.pending_nodup
      rw [List.map_append] at hnodup
      exact (List.nodup_append.mp hnodup).2.2 _ (List.mem_map_of_mem hmem) _
        (List.mem_map_of_mem hop) rfl
  accepted_remembered := List.append_subset.mpr
    ⟨fun _ hop => List.mem_append_left _ (h.accepted_remembered hop),
      fun _ hop => List.mem_append_right _ (mem_freshOps hop).1⟩
  stamped := h.stamped
  kept := by
    intro hevicted
    obtain ⟨hold, hnone⟩ := List.append_eq_nil_iff.mp hevicted
    obtain ⟨horder, hfold⟩ := h.kept hold
    -- without evictions, the whole batch is new to the window
    have hbatch : freshOps r.node.sync.seenOps batch = batch := by
      apply freshOps_eq_self
      · intro op hop
        exact h.pending_unseen hissued hsub hold
          (hqueued.mem_iff.mpr (List.mem_append_left _ hop))
      · have hnodup := (hqueued.map Op.id).nodup_iff.mp h.pending_nodup
        rw [List.map_append] at hnodup
        exact (List.nodup_append.mp hnodup).1
    have hregistries : r.node.sync.registries =
        (r.accepted ++ batch ++ rest).foldl applyOp {} := by
      rw [hfold, List.append_assoc]
      apply hissued.replayable.foldl_perm
      · exact List.append_subset.mpr
          ⟨fun _ hop => hsub (h.accepted_remembered hop), h.pending_issued⟩
      · exact hqueued.append_left _
    refine ⟨?_, ?_⟩
    · change (commitBatch _ _).seenOps.order = (r.accepted ++ _).map Op.id
      rw [commitBatch_order_of_not_evicted hnone, horder, List.map_append]
    · change r.node.sync.registries = (r.accepted ++ freshOps _ batch ++ rest).foldl applyOp {}
      rw [hbatch, hregistries]

/-- Applying a batch of remembered operations. -/
theorem of_applyRemote (h : ReplicaInv issued remembered r) (hissued : IssuedInv issued)
    (hsub : remembered ⊆ issued) {batch : List Op} (hknown : ∀ op ∈ batch, op ∈ remembered)
    (store : Store) :
    ReplicaInv issued remembered
      (r.accept
        { sync :=
            { commitBatch r.node.sync (freshOps r.node.sync.seenOps batch) with
              registries := (freshOps r.node.sync.seenOps batch).foldl applyOp
                r.node.sync.registries }
          store }
        batch r.pending) where
  seen := commitBatch_valid h.seen batch
  pending_issued := h.pending_issued
  pending_origin := h.pending_origin
  pending_nodup := h.pending_nodup
  pending_new := h.pending_new
  accepted_remembered := List.append_subset.mpr
    ⟨h.accepted_remembered, fun op hop => hknown op (mem_freshOps hop).1⟩
  stamped := by
    intro op hop horigin key value timestampMs hkind
    obtain ⟨reg, hreg, hle⟩ := h.stamped op hop horigin hkind
    obtain ⟨reg', hreg', hle'⟩ := foldl_applyOp_register_le
      (freshOps r.node.sync.seenOps batch) hreg
    exact ⟨reg', hreg', hle.trans hle'⟩
  kept := by
    intro hevicted
    obtain ⟨hold, hnone⟩ := List.append_eq_nil_iff.mp hevicted
    obtain ⟨horder, hfold⟩ := h.kept hold
    refine ⟨?_, ?_⟩
    · change (commitBatch _ _).seenOps.order = (r.accepted ++ _).map Op.id
      rw [commitBatch_order_of_not_evicted hnone, horder, List.map_append]
    · change (freshOps r.node.sync.seenOps batch).foldl applyOp r.node.sync.registries =
        (r.accepted ++ freshOps r.node.sync.seenOps batch ++ r.pending).foldl applyOp {}
      rw [hfold, ← List.foldl_append]
      -- the batch may be replayed before the pending operations
      apply hissued.replayable.foldl_perm
      · refine List.append_subset.mpr ⟨List.append_subset.mpr
          ⟨fun _ hop => hsub (h.accepted_remembered hop), h.pending_issued⟩, ?_⟩
        exact fun op hop => hsub (hknown op (mem_freshOps hop).1)
      · rw [List.append_assoc, List.append_assoc]
        exact List.perm_append_comm.append_left _

/-- An empty remote batch leaves no trace. -/
theorem accept_nil (h : ReplicaInv issued remembered r) : r.accept r.node [] r.pending = r := by
  change { r with
    accepted := r.accepted ++ []
    evicted := r.evicted ++ planSeenEvictions r.node.sync.seenOps [] } = r
  rw [planSeenEvictions_nil h.seen.length_le, List.append_nil, List.append_nil]

end ReplicaInv

namespace World

variable {ι : Type}

/-- The invariant of a run. -/
structure Inv (w : World ι) : Prop where
  nodeId_inj : Function.Injective fun i => (w.replica i).node.sync.nodeId
  issued : IssuedInv w.issued
  remembered_issued : w.remembered ⊆ w.issued
  replica : ∀ i, ReplicaInv w.issued w.remembered (w.replica i)

variable {w : World ι}

theorem Initial.inv (h : w.Initial) : w.Inv where
  nodeId_inj := h.nodeId_inj
  issued := by rw [h.issued]; exact ⟨List.nodup_nil, nofun, nofun⟩
  remembered_issued := by rw [h.remembered]; exact List.nil_subset _
  replica := by
    intro i
    obtain ⟨limit, hseen⟩ := (h.node i).seenOps
    rw [h.issued, h.remembered]
    refine
      { seen := ?_
        pending_issued := by rw [h.pending i]; exact List.nil_subset _
        pending_origin := by rw [h.pending i]; nofun
        pending_nodup := by rw [h.pending i]; exact List.nodup_nil
        pending_new := by rw [h.pending i]; nofun
        accepted_remembered := by rw [h.accepted i]; exact List.nil_subset _
        stamped := nofun
        kept := ?_ }
    · rw [hseen]
      exact ⟨fun id => by simp [SeenOps.new], List.nodup_nil, Nat.zero_le _⟩
    · intro _
      rw [h.pending i, h.accepted i, hseen, (h.node i).registries]
      exact ⟨rfl, rfl⟩

/-- A node with nothing pending and nothing evicted holds the effect of what it
accepted. -/
theorem Inv.registries_eq (h : w.Inv) {i : ι} (hpending : (w.replica i).pending = [])
    (hevicted : (w.replica i).evicted = []) :
    (w.replica i).node.sync.registries = (w.replica i).accepted.foldl applyOp {} := by
  have hfold := ((h.replica i).kept hevicted).2
  rwa [hpending, List.append_nil] at hfold

variable [DecidableEq ι]

/-- One replica changes; what it issues and remembers is its own. -/
theorem Inv.update {w : World ι} (h : w.Inv) {i : ι} {r : Replica}
    {newIssued newRemembered : List Op}
    (hid : r.node.sync.nodeId = (w.replica i).node.sync.nodeId)
    (hissued : ∀ op ∈ newIssued, op.origin = (w.replica i).node.sync.nodeId)
    (hremembered : ∀ op ∈ newRemembered, op.origin = (w.replica i).node.sync.nodeId)
    (hsub : newRemembered ⊆ w.issued) (hall : IssuedInv (w.issued ++ newIssued))
    (hr : ReplicaInv (w.issued ++ newIssued) (w.remembered ++ newRemembered) r) :
    Inv
      { replica := Function.update w.replica i r
        issued := w.issued ++ newIssued
        remembered := w.remembered ++ newRemembered } where
  nodeId_inj := by
    have hsame : (fun j => (Function.update w.replica i r j).node.sync.nodeId) =
        fun j => (w.replica j).node.sync.nodeId := by
      funext j
      by_cases hj : j = i
      · subst hj
        rw [Function.update_self, hid]
      · rw [Function.update_of_ne hj]
    rw [hsame]
    exact h.nodeId_inj
  issued := hall
  remembered_issued := List.append_subset.mpr
    ⟨fun _ hop => List.mem_append_left _ (h.remembered_issued hop),
      fun _ hop => List.mem_append_left _ (hsub hop)⟩
  replica := by
    intro j
    change ReplicaInv _ _ (Function.update w.replica i r j)
    by_cases hj : j = i
    · subst hj
      rw [Function.update_self]
      exact hr
    · rw [Function.update_of_ne hj]
      -- the other replicas only see operations of node `i`
      have hother : ∀ op : Op, op.origin = (w.replica i).node.sync.nodeId →
          op.origin ≠ (w.replica j).node.sync.nodeId :=
        fun op horigin heq => hj (h.nodeId_inj (heq.symm.trans horigin))
      exact (h.replica j).frame (fun op hop => hother op (hissued op hop))
        fun op hop => hother op (hremembered op hop)

/-- One replica changes without issuing or remembering anything. -/
theorem Inv.updateQuiet (h : w.Inv) {i : ι} {r : Replica}
    (hid : r.node.sync.nodeId = (w.replica i).node.sync.nodeId)
    (hr : ReplicaInv w.issued w.remembered r) :
    Inv { w with replica := Function.update w.replica i r } := by
  have hupdate := @Inv.update ι _ w h i r [] [] hid nofun nofun
    (List.nil_subset _) (by rw [List.append_nil]; exact h.issued)
    (by rw [List.append_nil, List.append_nil]; exact hr)
  rw [List.append_nil, List.append_nil] at hupdate
  exact hupdate

/-- One replica issues an operation. -/
theorem Inv.issue (h : w.Inv) {i : ι} (hid : node.sync.nodeId = (w.replica i).node.sync.nodeId)
    (hseen : node.sync.seenOps = (w.replica i).node.sync.seenOps)
    (hregs : node.sync.registries = applyOp (w.replica i).node.sync.registries op)
    (hissued : IssuedBy env (w.replica i).node.sync op) (hfresh : ∀ o ∈ w.issued, o.id ≠ op.id)
    (hstamp : op.StampBelowMax) :
    Inv
      { w with
        replica := Function.update w.replica i
          { w.replica i with node, pending := (w.replica i).pending ++ [op] }
        issued := w.issued ++ [op] } := by
  have hr := (h.replica i).of_issue h.remembered_issued hid hseen hregs hissued hfresh
  have horigin : ∀ o ∈ [op], o.origin = (w.replica i).node.sync.nodeId := by
    intro o ho
    rw [List.mem_singleton.mp ho]
    exact hissued.origin_eq
  have hupdate := @Inv.update ι _ w h i _ [op] [] hid horigin nofun (List.nil_subset _)
    (h.issued.append (h.replica i) hissued hfresh hstamp) (by rw [List.append_nil]; exact hr)
  rw [List.append_nil] at hupdate
  exact hupdate

/-- One replica remembers part of what it has pending. -/
theorem Inv.remember {w : World ι} (h : w.Inv) {i : ι} {batch rest : List Op}
    (hqueued : (w.replica i).pending.Perm (batch ++ rest)) (store : Store) :
    Inv
      { w with
        replica := Function.update w.replica i ((w.replica i).accept
          { sync := commitBatch (w.replica i).node.sync
              (freshOps (w.replica i).node.sync.seenOps batch)
            store } batch rest)
        remembered := w.remembered ++ batch } := by
  have hmem : ∀ op ∈ batch, op ∈ (w.replica i).pending :=
    fun op hop => hqueued.mem_iff.mpr (List.mem_append_left _ hop)
  have hr := (h.replica i).of_remember h.issued h.remembered_issued hqueued store
  have hid : ((w.replica i).accept
      { sync := commitBatch (w.replica i).node.sync
          (freshOps (w.replica i).node.sync.seenOps batch)
        store } batch rest).node.sync.nodeId = (w.replica i).node.sync.nodeId := rfl
  have hupdate := @Inv.update ι _ w h i _ [] batch hid nofun
    (fun op hop => (h.replica i).pending_origin op (hmem op hop))
    (fun op hop => (h.replica i).pending_issued (hmem op hop))
    (by rw [List.append_nil]; exact h.issued) (by rw [List.append_nil]; exact hr)
  rw [List.append_nil] at hupdate
  exact hupdate

/-- Every step keeps the invariant. -/
theorem Step.inv {serde : Serde} {w' : World ι} (hstep : Step serde w w') (h : w.Inv) :
    w'.Inv := by
  cases hstep with
  | @call i memory env c node code queued result success queued_eq fresh stamps =>
    have hcall := (w.replica i).node.call_success serde memory env c
      (by rw [result]; exact success)
    rw [result, queued_eq] at hcall
    -- a call issues nothing, or one operation with its effect
    obtain ⟨hid, hseen, ⟨rfl, hregs⟩ | ⟨op, hissued, rfl, hregs⟩⟩ := hcall
    · rw [List.append_nil, List.append_nil]
      exact h.updateQuiet hid ((h.replica i).of_sync hid hseen hregs)
    · have hfresh : ∀ o ∈ w.issued, o.id ≠ op.id := by
        rw [hissued.id_eq]
        exact fresh
      exact h.issue hid hseen hregs hissued hfresh (stamps op (List.mem_singleton.mpr rfl))
  | recv i => exact h.updateQuiet rfl ((h.replica i).of_sync rfl rfl rfl)
  | @remember i fault batch rest node queued result =>
    rcases rememberOps_cases serde fault (w.replica i).node batch with
      ⟨e, herr⟩ | ⟨store, -, hok⟩
    · rw [herr] at result
      cases result
    · rw [hok] at result
      cases result
      exact h.remember queued store
  | @rememberFailed i fault batch node error queued result =>
    rcases rememberOps_cases serde fault (w.replica i).node batch with
      ⟨e, herr⟩ | ⟨store, -, hok⟩
    · rw [herr] at result
      cases result
      exact h.updateQuiet rfl (h.replica i)
    · rw [hok] at result
      cases result
  | @applyRemote i fault batch node known result =>
    rcases applyRemoteOps_cases serde fault (w.replica i).node batch with
      ⟨rfl, hnothing⟩ | ⟨e, herr⟩ | ⟨store, -, hok⟩
    · rw [hnothing] at result
      cases result
      rw [(h.replica i).accept_nil]
      exact h.updateQuiet rfl (h.replica i)
    · rw [herr] at result
      cases result
    · rw [hok] at result
      cases result
      exact h.updateQuiet (by rfl)
        ((h.replica i).of_applyRemote h.issued h.remembered_issued known store)
  | @applyRemoteFailed i fault batch node error result =>
    rcases applyRemoteOps_cases serde fault (w.replica i).node batch with
      ⟨rfl, hnothing⟩ | ⟨e, herr⟩ | ⟨store, -, hok⟩
    · rw [hnothing] at result
      cases result
    · rw [herr] at result
      cases result
      exact h.updateQuiet rfl (h.replica i)
    · rw [hok] at result
      cases result

theorem inv_of_run {serde : Serde} {w₀ : World ι} (hinit : w₀.Initial)
    (hrun : Relation.ReflTransGen (Step serde) w₀ w) : w.Inv := by
  induction hrun with
  | refl => exact hinit.inv
  | tail _ hstep ih => exact hstep.inv ih

/-- **Convergence.** Two nodes with nothing pending that accepted the same
operation ids and never evicted one return the same results for every key. -/
theorem observe_eq_of_accepted_eq (serde : Serde) {w₀ w : World ι} (hinit : w₀.Initial)
    (hrun : Relation.ReflTransGen (Step serde) w₀ w) {i j : ι}
    (hpendingI : (w.replica i).pending = []) (hpendingJ : (w.replica j).pending = [])
    (hevictedI : (w.replica i).evicted = []) (hevictedJ : (w.replica j).evicted = [])
    (hsame : ∀ id, id ∈ (w.replica i).accepted.map Op.id ↔
      id ∈ (w.replica j).accepted.map Op.id) (key : String) :
    (w.replica i).node.sync.registries.observe key =
      (w.replica j).node.sync.registries.observe key := by
  have hinv := inv_of_run hinit hrun
  have haccepted : ∀ k, (w.replica k).accepted ⊆ w.issued := fun k op hop =>
    hinv.remembered_issued ((hinv.replica k).accepted_remembered hop)
  have hnodup : ∀ k, (w.replica k).evicted = [] → ((w.replica k).accepted.map Op.id).Nodup :=
    fun k hevicted => ((hinv.replica k).kept hevicted).1 ▸ (hinv.replica k).seen.nodup
  have hregistries : (w.replica i).node.sync.registries = (w.replica j).node.sync.registries := by
    rw [hinv.registries_eq hpendingI hevictedI, hinv.registries_eq hpendingJ hevictedJ]
    exact hinv.issued.replayable.foldl_eq (haccepted i) (haccepted j) (hnodup i hevictedI)
      (hnodup j hevictedJ) hsame {}
  rw [hregistries]

/-! ## A counter on two nodes -/

def startedNode (nodeId : NodeId) : Node := Node.start nodeId 8 8 8

def counterStart : World Bool where
  replica b := { node := startedNode (if b then "b" else "a") }

theorem counterStart_initial : counterStart.Initial where
  nodeId_inj := by decide
  node := fun _ => Node.start_initial _ 8 8 8
  pending := fun _ => rfl
  accepted := fun _ => rfl
  evicted := fun _ => rfl
  issued := rfl
  remembered := rfl

/-- Node `a` adds three to the counter `k`. -/
def incrementOp : Op := .gcounterIncrement "op" "a" "k" 3

def counterCalled : Node :=
  ((startedNode "a").call jsonSerde (some { bytes := asBytes "k" }) { now := some 1, opId := "op" }
    (.gcounterInc 0 1 3)).1

def counterRemembered : Node := (rememberOps jsonSerde none counterCalled [incrementOp]).1

def counterApplied : Node := (applyRemoteOps jsonSerde none (startedNode "b") [incrementOp]).1

theorem counter_accept (before after : Node) (pending : List Op)
    (hfresh : freshOps before.sync.seenOps [incrementOp] = [incrementOp])
    (hkept : planSeenEvictions before.sync.seenOps ["op"] = []) :
    ({ node := before, pending := pending } : Replica).accept after [incrementOp] [] =
      { node := after, accepted := [incrementOp] } := by
  simp only [Replica.accept, hfresh, List.nil_append]
  exact congrArg (fun evicted => Replica.mk after [] [incrementOp] evicted) hkept

/-- The call on `a`, its acceptance there and its application on `b`. -/
theorem counter_run : ∃ w : World Bool, Relation.ReflTransGen (Step jsonSerde) counterStart w ∧
    w.replica false = { node := counterRemembered, accepted := [incrementOp] } ∧
    w.replica true = { node := counterApplied, accepted := [incrementOp] } := by
  have hcall := @Step.call Bool _ jsonSerde counterStart false (some { bytes := asBytes "k" })
    { now := some 1, opId := "op" } (.gcounterInc 0 1 3) counterCalled 0 [incrementOp]
    (Prod.ext rfl (by decide +kernel)) le_rfl (by decide +kernel) nofun
    (fun op hop => by cases List.mem_singleton.mp hop; trivial)
  refine ⟨_, ((Relation.ReflTransGen.refl.tail hcall).tail
    (@Step.remember Bool _ jsonSerde _ false none [incrementOp] [] counterRemembered ?_ ?_)).tail
    (@Step.applyRemote Bool _ jsonSerde _ true none [incrementOp] counterApplied ?_ ?_), ?_, ?_⟩
  · exact List.Perm.refl _
  · exact Prod.ext rfl rfl
  · exact fun op hop => hop
  · exact Prod.ext rfl rfl
  · exact counter_accept counterCalled counterRemembered _ (by decide +kernel) (by decide +kernel)
  · exact counter_accept (startedNode "b") counterApplied _ (by decide +kernel) (by decide +kernel)

/-- Both nodes read the same counter. -/
theorem observe_eq_counter : counterRemembered.sync.registries.observe "k" =
    counterApplied.sync.registries.observe "k" := by
  obtain ⟨w, hrun, ha, hb⟩ := counter_run
  have h := @observe_eq_of_accepted_eq Bool _ jsonSerde counterStart w counterStart_initial hrun
    false true (by rw [ha]) (by rw [hb]) (by rw [ha]) (by rw [hb]) (by rw [ha, hb]; simp) "k"
  rwa [ha, hb] at h

end World

end Numax
