import Numax.Theorems.ClusterSafety

/-!
# From the queue to the peers

What the calls send on a node leaves it in batches: in the order in which it was sent,
every operation in exactly one batch, at most `BROADCAST_BATCH_MAX` in each, and a batch
is passed on only after it has been remembered. The loop ends when it finds the queue
empty during a shutdown, although calls may still hold permits. What they send after that
stays in the queue, and no call gets a permit any more.
-/

open Base Std

namespace Numax

/-- What a phase says about the finished batches, the queue and what was sent late. -/
def BroadcastPhase.Fits {ω : Type} (batches : List (List Op × Bool)) (queue : OpQueue)
    (late : List Op) : BroadcastPhase ω → Prop
  | .waiting => queue.closed = false ∧ late = []
  | .coalescing batch | .batched batch =>
    (queue.closed = false ∧ late = []) ∧ 0 < batch.length ∧ batch.length ≤ broadcastBatchMax
  | .remembered batch | .sending batch _ _ =>
    (queue.closed = false ∧ late = []) ∧ batches.getLast? = some (batch, true)
  | .terminated => queue.closed = true ∧ queue.ops = late

/-- What has been sent is in a finished batch, in the batch that is being collected or in
the queue. -/
structure Batched (queued late : List Op) (batches : List (List Op × Bool))
    (phase : BroadcastPhase (String × Writer)) (queue : OpQueue) : Prop where
  queued_eq : queued = batches.flatMap Prod.fst ++ (phase.taken ++ queue.ops)
  sizes : ∀ batch ∈ batches, 0 < batch.1.length ∧ batch.1.length ≤ broadcastBatchMax
  fits : phase.Fits batches queue late

namespace Batched

variable {queued late : List Op} {batches : List (List Op × Bool)}
  {phase : BroadcastPhase (String × Writer)} {queue : OpQueue}

/-- Nothing was sent late as long as the loop goes on. -/
theorem late_eq_nil (h : Batched queued late batches phase queue) (hphase : phase ≠ .terminated) :
    queue.closed = false ∧ late = [] := by
  have hfits := h.fits
  cases phase with
  | waiting => exact hfits
  | terminated => exact absurd rfl hphase
  | _ => exact hfits.1

/-- Another number of permits. -/
theorem permits (h : Batched queued late batches phase queue) (reserved : Nat) :
    Batched queued late batches phase { queue with reserved } := by
  refine ⟨h.queued_eq, h.sizes, ?_⟩
  have hfits := h.fits
  cases phase <;> exact hfits

/-- An operation goes behind everything else, and is late once the loop has ended. -/
theorem send (h : Batched queued late batches phase queue) (op : Op) :
    Batched (queued ++ [op]) (if queue.closed then late ++ [op] else late) batches phase
      (queue.send op) where
  queued_eq := by
    change queued ++ [op] = batches.flatMap Prod.fst ++ (phase.taken ++ (queue.ops ++ [op]))
    rw [h.queued_eq]
    simp only [List.append_assoc]
  sizes := h.sizes
  fits := by
    have hfits := h.fits
    cases phase with
    | terminated =>
      obtain ⟨hclosed, hops⟩ := hfits
      rw [if_pos hclosed]
      exact ⟨hclosed, congrArg (· ++ [op]) hops⟩
    | _ =>
      rw [if_neg (by rw [(h.late_eq_nil nofun).1]; exact Bool.false_ne_true)]
      exact hfits

theorem loop {loop loop' : BroadcastLoop (String × Writer)} {peers : OrdMap String Writer}
    {queue' : OpQueue} (h : Batched queued late batches loop.phase queue)
    (moves : LoopMoves peers loop queue loop' queue') :
    Batched queued late batches loop'.phase queue' where
  queued_eq := by rw [h.queued_eq, moves.taken]
  sizes := h.sizes
  fits := by
    have hfits := h.fits
    cases moves with
    | shutdown waiting => exact hfits
    | take waiting ops =>
      rw [waiting] at hfits
      exact ⟨hfits, Nat.one_pos, Nat.le_of_ble_eq_true rfl⟩
    | finish waiting ops draining =>
      rw [waiting] at hfits
      exact ⟨rfl, ops.trans hfits.2.symm⟩
    | @coalesce batch rest op phase room ops =>
      rw [phase] at hfits
      refine ⟨hfits.1, ?_⟩
      rw [List.length_append, List.length_singleton]
      exact ⟨Nat.succ_pos _, room⟩
    | settle phase done =>
      rw [phase] at hfits
      exact hfits
    | snapshot phase all =>
      rw [phase] at hfits
      exact hfits

/-- The batch that was collected is finished. -/
theorem finish {batch : List Op} (h : Batched queued late batches (.batched batch) queue)
    (kept : Bool) {next : BroadcastPhase (String × Writer)} (htaken : next.taken = [])
    (hfits : next.Fits (batches ++ [(batch, kept)]) queue late) :
    Batched queued late (batches ++ [(batch, kept)]) next queue where
  queued_eq := by
    rw [h.queued_eq, htaken]
    simp [BroadcastPhase.taken]
  sizes := by
    intro b hb
    rcases List.mem_append.mp hb with hb | hb
    · exact h.sizes b hb
    · cases List.mem_singleton.mp hb
      exact h.fits.2
  fits := hfits

/-- The loop goes on with a batch that is out of the queue, or is done with it. -/
theorem sending {batch : List Op} {failed : Bool} {writers : List (String × Writer)}
    (h : Batched queued late batches (.sending batch failed writers) queue)
    {next : BroadcastPhase (String × Writer)}
    (hnext : next = .waiting ∨ ∃ failed' writers', next = .sending batch failed' writers') :
    Batched queued late batches next queue := by
  rcases hnext with rfl | ⟨failed', writers', rfl⟩
  · exact ⟨h.queued_eq, h.sizes, h.fits.1⟩
  · exact ⟨h.queued_eq, h.sizes, h.fits⟩

end Batched

/-- The broadcast loop of a station and its queue are in order. -/
def Station.InOrder (s : Station) : Prop :=
  Batched s.queued s.late s.batches s.loop.phase s.node.sync.opQueue

theorem Station.InOrder.call {s s' : Station} (h : s.InOrder) {issued : List Op}
    (moves : CallMoves s s' issued) : s'.InOrder := by
  cases moves with
  | @permit node reserved sync_eq =>
    change Batched s.queued s.late s.batches s.loop.phase node.sync.opQueue
    rw [sync_eq]
    exact Batched.permits h reserved
  | @publish env op node reserved inHand unreported issued sync_eq held =>
    change Batched s.queued s.late s.batches s.loop.phase node.sync.opQueue
    rw [sync_eq]
    exact Batched.permits h reserved
  | @send op mem => exact Batched.send h op

/-- A step of a station keeps its batches in order. -/
theorem Station.InOrder.step {ι : Type} {serde : Serde} {codec : PayloadCodec} {i : ι}
    {pipes pipes' : List (Pipe ι)} {s s' : Station} {issued remembered : List Op} (h : s.InOrder)
    (hstep : Station.Step serde codec i pipes s s' pipes' issued remembered) : s'.InOrder := by
  -- the phase decides what is known of the queue
  have hbatched : ∀ {phase}, s.loop.phase = phase →
      Batched s.queued s.late s.batches phase s.node.sync.opQueue := fun heq => heq ▸ h
  cases hstep with
  | call moves => exact h.call moves
  | loop moves => exact Batched.loop h moves
  | @remember fault _ node phase result =>
    rcases rememberOps_cases serde fault s.node remembered with ⟨e, herr⟩ | ⟨store, -, hok⟩
    · cases herr.symm.trans result
    · cases hok.symm.trans result
      have hfinished : Batched s.queued s.late (s.batches ++ [(remembered, true)])
          (.remembered remembered) s.node.sync.opQueue :=
        (hbatched phase).finish true rfl ⟨(hbatched phase).fits.1, List.getLast?_concat⟩
      exact hfinished
  | @drop batch phase =>
    have hfinished : Batched s.queued s.late (s.batches ++ [(batch, false)]) .waiting
        s.node.sync.opQueue :=
      (hbatched phase).finish false rfl (hbatched phase).fits.1
    exact hfinished
  | @push batch failed addr writer rest frame failure phase encoded =>
    have hsent := (hbatched phase).sending (.inr ⟨failed || failure.isSome, rest, rfl⟩)
    cases failure <;> exact hsent
  | pushed phase => exact (hbatched phase).sending (.inl rfl)
  | pushFailed phase => exact (hbatched phase).sending (.inl rfl)
  | @apply sender ops inbox fault node oldest result =>
    rcases applyRemoteOps_cases serde fault s.node ops with
      ⟨-, hnothing⟩ | ⟨e, herr⟩ | ⟨store, -, hok⟩
    · cases hnothing.symm.trans result
      exact h
    · cases herr.symm.trans result
    · cases hok.symm.trans result
      exact h
  | send | sendFailed | unsent | applyFailed | events | event | hangUp => exact h

namespace Cluster

variable {ι : Type} [DecidableEq ι] {serde : Serde} {codec : PayloadCodec} {c next : Cluster ι}

/-- The batches of all loops stay in order. -/
theorem Moves.inOrder (hmoves : Moves serde codec c next) (h : ∀ i, (c.station i).InOrder) :
    ∀ i, (next.station i).InOrder := by
  intro j
  rcases hmoves.view j with ⟨issued, remembered, hstep⟩ | ⟨peers, heq, -⟩
  · exact (h j).step hstep
  · rw [heq]
    exact h j

theorem inOrder_of_run {c₀ : Cluster ι} (hinit : c₀.Initial) {actions : List (Action ι)}
    (hrun : c₀.run serde codec actions = some c) : ∀ i, (c.station i).InOrder := by
  refine runSteps_keeps (P := fun c : Cluster ι => ∀ i, (c.station i).InOrder) (fun _ => True)
    (fun _ _ _ _ hs hstep => (moves_of_step hstep).inOrder hs) (fun _ _ => trivial) ?_ hrun
  intro i
  unfold Station.InOrder
  rw [hinit.queued i, hinit.late i, hinit.batches i, hinit.loop i]
  exact ⟨by rw [(hinit.queue i).1]; rfl, nofun, (hinit.queue i).2, rfl⟩

/-- In every run the operations that calls have sent on a node are cut into batches in the
order in which they were sent: the finished ones, the one that is being collected, and
the rest in the queue. A batch has between one and `broadcastBatchMax` operations, and
what is passed on to the peers is the last batch and was remembered. While the loop goes
on nothing is late. Once it has ended every operation is in a finished batch, except for
those that calls have sent since, with permits they had before: there are no new ones. -/
theorem broadcast_batches_exact (serde : Serde) (codec : PayloadCodec) {c₀ c : Cluster ι}
    (hinit : c₀.Initial) {actions : List (Action ι)}
    (hrun : c₀.run serde codec actions = some c) (i : ι) :
    (c.station i).queued = (c.station i).batches.flatMap Prod.fst ++
      ((c.station i).loop.phase.taken ++ (c.station i).node.sync.opQueue.ops) ∧
    (∀ batch ∈ (c.station i).batches,
      0 < batch.1.length ∧ batch.1.length ≤ broadcastBatchMax) ∧
    (∀ batch failed writers, (c.station i).loop.phase = .sending batch failed writers →
      (c.station i).batches.getLast? = some (batch, true)) ∧
    ((c.station i).loop.phase ≠ .terminated → (c.station i).late = []) ∧
    ((c.station i).loop.phase = .terminated →
      (c.station i).queued = (c.station i).batches.flatMap Prod.fst ++ (c.station i).late ∧
      (c.station i).node.sync.opQueue.tryReserve = none) := by
  have h := inOrder_of_run hinit hrun i
  refine ⟨h.queued_eq, h.sizes, ?_, fun hphase => (h.late_eq_nil hphase).2, ?_⟩
  · intro batch failed writers hphase
    have hfits := h.fits
    rw [hphase] at hfits
    exact hfits.2
  · intro hphase
    have hfits := h.fits
    rw [hphase] at hfits
    obtain ⟨hclosed, hlate⟩ := hfits
    refine ⟨?_, ?_⟩
    · rw [h.queued_eq, hphase, hlate]
      rfl
    · rw [OpQueue.tryReserve, hclosed, Bool.true_or, if_pos rfl]

/-- The one operation of the pair left the queue in a batch of its own. -/
theorem broadcast_batches_exact_pair : ∃ c,
    pairStart.run jsonSerde jsonPayload (pairConnect :: pairBroadcast) = some c ∧
      ∀ batch ∈ (c.station false).batches,
        0 < batch.1.length ∧ batch.1.length ≤ broadcastBatchMax := by
  obtain ⟨c, hrun, -⟩ := pairBroadcast_run
  exact ⟨c, hrun,
    (broadcast_batches_exact jsonSerde jsonPayload pairStart_initial hrun false).2.1⟩

end Cluster

end Numax
