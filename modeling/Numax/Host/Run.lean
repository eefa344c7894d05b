import Numax.Host.Event
import Numax.Core.Mirror

/-!
# Runs of one node

The events at a node, failed and unreported ones included, and the operations
each of them accepts. An event changes nothing but the queue, writes one entry,
or commits one batch (`Node.handle_outcome`); every invariant of runs is derived
from that.

`Node.Durable` is the invariant behind restarts: the windows in memory are those
of the accepted operations, and the store mirrors them up to left-over log
records.
-/

open Base Std

namespace Numax

/-- Something that happens at a node. A `fault` is the failure the store reports
for the event's batch. -/
inductive Event where
  | call (memory : Option GuestMemory) (env : CallEnv) (call : CrdtCall)
  | recv
  | remember (fault : Option StoreError) (ops : List Op)
  | applyRemote (fault : Option StoreError) (ops : List Op)

namespace Node

variable (serde : Serde)

def handle (n : Node) : Event → Node
  | .call memory env call => (n.call serde memory env call).1
  | .recv => n.recv
  | .remember fault ops => (rememberOps serde fault n ops).1
  | .applyRemote fault ops => (applyRemoteOps serde fault n ops).1

/-- The operations an event accepts: a successful batch accepts what is new. -/
def accepts (n : Node) : Event → List Op
  | .call _ _ _ => []
  | .recv => []
  | .remember fault ops =>
    if (rememberOps serde fault n ops).2.isOk then freshOps n.sync.seenOps ops else []
  | .applyRemote fault ops =>
    if (applyRemoteOps serde fault n ops).2.isOk then freshOps n.sync.seenOps ops else []

def run (n : Node) (events : List Event) : Node := events.foldl (handle serde) n

/-- All operations accepted in a run. -/
def acceptedIn (n : Node) : List Event → List Op
  | [] => []
  | event :: rest => n.accepts serde event ++ (n.handle serde event).acceptedIn rest

/-- Everything an event can do, with the operations it accepts. -/
inductive HandleOutcome (n : Node) : List Op → Node → Prop
  | queue (opQueue : OpQueue) :
      HandleOutcome n [] { n with sync := { n.sync with opQueue } }
  | write (op : Op) (opQueue : OpQueue) :
      HandleOutcome n []
        { sync := { n.sync with registries := applyOp n.sync.registries op, opQueue }
          store := OrdMap.insertAll n.store
            (stateRecords serde op.kind.crdtKind op.kind.key (op.newEntry n.sync.registries)) }
  | batch (ops : List Op) (updates : Registries) :
      HandleOutcome n (freshOps n.sync.seenOps ops)
        { sync := { commitBatch n.sync (freshOps n.sync.seenOps ops) with
            registries := publishUpdates n.sync.registries updates }
          store := batchStore serde n.store updates
            (planBatch n.sync (freshOps n.sync.seenOps ops)).1 }

variable {serde} {n : Node} {fault : Option StoreError} {store store' : Store}

theorem persistState_eq_ok {k : CrdtKind} {key : String} {st : k.State}
    (h : persistState serde fault store k key st = .ok store') :
    store' = OrdMap.insertAll store (stateRecords serde k key st) :=
  (Store.accessing_eq_ok h).1

theorem batchStore_nil (store : Store) : batchStore serde store {} [] = store := rfl

theorem persistLocalOpsBatch_eq_ok {plans : List OpPersistencePlan}
    (h : persistLocalOpsBatch serde fault store plans = .ok store') :
    store' = batchStore serde store {} plans := by
  unfold persistLocalOpsBatch at h
  split at h
  · next hempty =>
      cases h
      rw [List.isEmpty_iff.mp hempty, batchStore_nil]
  · exact (Store.accessing_eq_ok h).1

theorem persistRemoteOpsBatch_eq_ok {plans : List OpPersistencePlan} {updates : Registries}
    (hne : plans ≠ []) (h : persistRemoteOpsBatch serde fault store plans updates = .ok store') :
    store' = batchStore serde store updates plans := by
  rw [persistRemoteOpsBatch, if_neg (by simpa using hne)] at h
  rw [(Store.accessing_eq_ok h).1, OrdMap.insertAll_append]
  rfl

/-- A call writes at most one entry. -/
theorem call_handleOutcome (memory : Option GuestMemory) (env : CallEnv) (c : CrdtCall) :
    HandleOutcome serde n [] (n.call serde memory env c).1 := by
  have houtcome := crdtCall_outcome serde env ⟨memory, n.store, some n.sync⟩ c
  unfold call
  generalize crdtCall serde env ⟨memory, n.store, some n.sync⟩ c = result at houtcome ⊢
  cases houtcome with
  | rejected negative => exact .queue n.sync.opQueue
  | unchanged => exact .queue n.sync.opQueue
  | committed enabled issued persisted nonneg =>
    cases enabled
    cases persistState_eq_ok persisted
    exact .write _ _
  | queuedOnly enabled issued same =>
    cases enabled
    exact .queue _
  | unreported enabled issued persisted unwritable =>
    cases enabled
    cases persistState_eq_ok persisted
    exact .write _ n.sync.opQueue

theorem remember_handleOutcome (fault : Option StoreError) (ops : List Op) :
    HandleOutcome serde n (n.accepts serde (.remember fault ops))
      (n.handle serde (.remember fault ops)) := by
  simp only [accepts, handle]
  obtain ⟨e, heq⟩ | ⟨store, hstore, heq⟩ := rememberOps_cases serde fault n ops
  · rw [heq]
    exact .queue n.sync.opQueue
  · rw [heq, persistLocalOpsBatch_eq_ok hstore]
    have h := @HandleOutcome.batch serde n ops {}
    rw [publishUpdates_empty] at h
    exact h

theorem applyRemote_handleOutcome (fault : Option StoreError) (ops : List Op) :
    HandleOutcome serde n (n.accepts serde (.applyRemote fault ops))
      (n.handle serde (.applyRemote fault ops)) := by
  simp only [accepts, handle]
  obtain ⟨rfl, heq⟩ | ⟨e, heq⟩ | ⟨store, hstore, heq⟩ := applyRemoteOps_cases serde fault n ops
  · rw [heq]
    exact .queue n.sync.opQueue
  · rw [heq]
    exact .queue n.sync.opQueue
  · rw [heq]
    by_cases hfresh : freshOps n.sync.seenOps ops = []
    · -- nothing is accepted, so the overlay is not written either
      rw [hfresh] at hstore ⊢
      cases hstore
      have h := @HandleOutcome.batch serde n ops {}
      rw [hfresh, publishUpdates_empty] at h
      exact h
    · have hne : (planBatch n.sync (freshOps n.sync.seenOps ops)).1 ≠ [] := by
        cases hcons : freshOps n.sync.seenOps ops with
        | nil => exact absurd hcons hfresh
        | cons op rest => simp [planBatch, planLoop]
      rw [persistRemoteOpsBatch_eq_ok hne hstore,
        ← (remoteLoop_spec n.sync.seenOps n.sync.registries ops).2]
      exact .batch ops _

theorem handle_outcome (event : Event) :
    HandleOutcome serde n (n.accepts serde event) (n.handle serde event) := by
  cases event with
  | call memory env c => exact call_handleOutcome memory env c
  | recv => exact .queue _
  | remember fault ops => exact remember_handleOutcome fault ops
  | applyRemote fault ops => exact applyRemote_handleOutcome fault ops

/-! ## The invariant -/

/-- After accepting `acc`, the node's windows are those of `acc` and its store
mirrors the node, with the given left-over log records. -/
structure Durable (serde : Serde) (acc : List Op) (left : List (Op × Nat)) (n : Node) : Prop where
  tracks : Tracks acc n.sync
  leftover : Leftover acc n.sync.opLogLimit left
  mirrors : Mirrors serde acc left n.sync n.store

variable {acc : List Op} {left : List (Op × Nat)}

/-- A just started node. -/
theorem Initial.durable (h : n.Initial) (hpos : 1 ≤ n.sync.opLogLimit)
    (hle : n.sync.opLogLimit ≤ n.sync.seenOps.limit) : Durable serde [] [] n where
  tracks :=
    { valid := by
        obtain ⟨limit, hseen⟩ := h.seenOps
        rw [hseen]
        exact ⟨by intro id; simp [SeenOps.new], by simp [SeenOps.new], by simp [SeenOps.new]⟩
      order := by
        obtain ⟨limit, hseen⟩ := h.seenOps
        rw [hseen]
        simp [SeenOps.new, List.rtake]
      log := by rw [h.opLog]; simp [List.rtake]
      nextSeen := by rw [h.seenOpsNextSequence]; rfl
      nextLog := by rw [h.opLogNextSequence]; rfl
      logLimit_pos := hpos
      logLimit_le := hle }
  leftover := ⟨by simp [logWindow, List.rtake], by simp [logWindow, List.rtake], by simp, by simp⟩
  mirrors := by
    have hrecord : ∀ t key, n.store.record t key = none := by
      intro t key
      cases hget : n.store.record t key with
      | none => rfl
      | some v =>
        have hmem : tableKey t key ∈ n.store :=
          ExtTreeMap.mem_iff_isSome_getElem?.mpr (by
            unfold Store.record at hget
            rw [hget]
            rfl)
        exact absurd ((startsWith_tableKey_iff t t key).mpr rfl) (h.store _ hmem t)
    refine ⟨fun key hkey t ht => absurd ht (h.store key hkey t), ?_, ?_, ?_⟩
    · intro k ns key
      rw [hrecord, h.registries]
      cases k <;> simp [Registries.get]
    · intro id v
      simp [hrecord, List.rtake]
    · intro id v
      simp [hrecord, logWindow, List.rtake]

/-- An event that accepts nothing leaves the left-over records. -/
theorem nextLeftover_nil (acc : List Op) (limit : Nat) (left : List (Op × Nat)) :
    nextLeftover acc [] limit left = left := by
  have hlen : (keptWindow acc [] limit).length ≤ limit := by
    simp only [keptWindow, logWindow, List.zipIdx_nil, List.append_nil, List.length_drop,
      length_rtake]
    omega
  simp [nextLeftover, Nat.sub_eq_zero_of_le hlen]

/-- One event keeps the invariant. -/
theorem Durable.step (h : Durable serde acc left n) {new : List Op} {m : Node}
    (hstep : HandleOutcome serde n new m) (hmax : acc.length + new.length ≤ u64Max) :
    Durable serde (acc ++ new) (nextLeftover acc new n.sync.opLogLimit left) m ∧
      m.sync.opLogLimit = n.sync.opLogLimit ∧ m.sync.seenOps.limit = n.sync.seenOps.limit := by
  cases hstep with
  | queue opQueue =>
    rw [List.append_nil, nextLeftover_nil]
    obtain ⟨ht, hl, hm⟩ := h
    exact ⟨⟨ht.frame n.sync.registries opQueue, hl, ⟨hm.tidy, hm.entry, hm.seen, hm.log⟩⟩, rfl,
      rfl⟩
  | write op opQueue =>
    rw [List.append_nil, nextLeftover_nil]
    obtain ⟨ht, hl, hm⟩ := h
    exact ⟨⟨ht.frame _ opQueue, hl, hm.write op opQueue⟩, rfl, rfl⟩
  | batch ops updates =>
    have hcommit := h.tracks.commit ops hmax
    refine ⟨⟨?_, ?_, h.mirrors.batch h.tracks h.leftover ops updates hmax⟩, rfl,
      commitBatch_limit _ _⟩
    · exact hcommit.frame _ _
    · exact h.leftover.next (freshOps_nodup _ _) (h.tracks.not_mem_log ops)

/-- A whole run keeps the invariant. -/
theorem Durable.run (events : List Event) (h : Durable serde acc left n)
    (hmax : acc.length + (n.acceptedIn serde events).length ≤ u64Max) :
    (∃ left', Durable serde (acc ++ n.acceptedIn serde events) left' (n.run serde events)) ∧
      (n.run serde events).sync.opLogLimit = n.sync.opLogLimit ∧
      (n.run serde events).sync.seenOps.limit = n.sync.seenOps.limit := by
  induction events generalizing n acc left with
  | nil => exact ⟨⟨left, by simpa [acceptedIn, Node.run] using h⟩, rfl, rfl⟩
  | cons event rest ih =>
    rw [acceptedIn, List.length_append] at hmax
    obtain ⟨hstep, hlog, hseen⟩ := h.step (handle_outcome event) (by omega)
    obtain ⟨⟨left', hrun⟩, hlog', hseen'⟩ := ih hstep (by rw [List.length_append]; omega)
    rw [List.append_assoc] at hrun
    exact ⟨⟨left', hrun⟩, hlog'.trans hlog, hseen'.trans hseen⟩

end Node

end Numax
