import Numax.Cluster.Moves
import Numax.Cluster.Wire
import Numax.Net.JsonPayload

/-!
# Nothing is made up between the nodes

Whatever the tasks of the nodes and the network do, an operation that a node accepts
was issued by a call and remembered before, and every operation on a pipe, in an event
queue or in a batch on its way out is one of these. So the histories of the nodes are a
world in the sense of the convergence proof (`Cluster.Sound.world`). Calls that fail are
no exception: what they have published stays pending.
-/

open Base Std

namespace Numax

theorem forall_mem_modify {α : Type} {P : α → Prop} {l : List α} {k : Nat} {f : α → α}
    (h : ∀ a ∈ l, P a) (hk : ∀ a, l[k]? = some a → P a → P (f a)) : ∀ a ∈ l.modify k f, P a := by
  intro a ha
  obtain ⟨j, hj⟩ := List.mem_iff_getElem?.mp ha
  rw [List.getElem?_modify] at hj
  obtain ⟨b, hb, rfl⟩ := Option.map_eq_some_iff.mp hj
  have hmem := h b (List.mem_of_getElem? hb)
  split
  · next hkj =>
      subst hkj
      exact hk b hb hmem
  · exact hmem

theorem opLogSince_subset (log : List Op) (sinceOpId : Option String) :
    opLogSince log sinceOpId ⊆ log := by
  unfold opLogSince
  split
  · split
    · exact List.drop_subset _ _
    · exact List.Subset.refl _
  · exact List.Subset.refl _

/-- The ids of the window after a batch were there before or are those of the batch. -/
theorem mem_commitBatch_ids {sync : SyncState} (h : sync.seenOps.Valid) {ops : List Op}
    {id : String} (hid : id ∈ (commitBatch sync (freshOps sync.seenOps ops)).seenOps.ids) :
    id ∈ sync.seenOps.ids ∨ id ∈ (freshOps sync.seenOps ops).map Op.id := by
  have horder := ((commitBatch_valid h ops).consistent id).mp hid
  rw [commitBatch_order] at horder
  rcases List.mem_append.mp ((rtake_suffix _ _).subset horder) with hold | hnew
  · exact .inl ((h.consistent id).mpr hold)
  · exact .inr hnew

/-! ## Stations -/

/-- What holds of a station, for the operations remembered so far. -/
structure Station.Sound (remembered : List Op) (s : Station) : Prop where
  pending : s.replica.pending.Perm (s.held ++ (s.loop.phase.taken ++ s.node.sync.opQueue.ops))
  outgoing : s.loop.phase.outgoing ⊆ remembered
  inbox : ∀ sender ops, .opsReceived sender ops ∈ s.inbox → ops ⊆ remembered
  opLog : s.node.sync.opLog =
    s.replica.accepted.rtake (normalizeOpLogLimit s.node.sync.opLogLimit)
  seen : ∀ id ∈ s.node.sync.seenOps.ids, id ∈ s.replica.accepted.map Op.id

namespace Station.Sound

variable {remembered : List Op} {s : Station}

theorem mono (h : s.Sound remembered) {more : List Op} (hsub : remembered ⊆ more) :
    s.Sound more where
  pending := h.pending
  outgoing := List.Subset.trans h.outgoing hsub
  inbox := fun sender ops hops => List.Subset.trans (h.inbox sender ops hops) hsub
  opLog := h.opLog
  seen := h.seen

/-- Fewer events, another table and other counts. -/
theorem of_inbox (h : s.Sound remembered) {inbox : List NodeEvent}
    (hinbox : ∀ sender ops, .opsReceived sender ops ∈ inbox → ops ⊆ remembered)
    (peers : OrdMap String Writer) (syncErrors : Nat) (events : EventLoop) :
    ({ s with inbox, peers, syncErrors, events } : Station).Sound remembered :=
  ⟨h.pending, h.outgoing, hinbox, h.opLog, h.seen⟩

theorem forget (h : s.Sound remembered) (addr : String) (pipe : Nat) :
    (s.forget addr pipe).Sound remembered :=
  h.of_inbox h.inbox _ _ _

theorem asks_inbox (h : s.Sound remembered) {addr : String} {message : Message}
    {inbox : List NodeEvent} (asks : s.Asks addr message inbox) :
    ∀ sender ops, .opsReceived sender ops ∈ inbox → ops ⊆ remembered := by
  intro sender ops hops
  cases asks with
  | pull => exact h.inbox sender ops hops
  | answer oldest => exact h.inbox sender ops (by rw [oldest]; exact List.mem_cons_of_mem _ hops)

/-- What a call publishes becomes pending, and it stays so when it is sent. -/
theorem call_pending (h : s.Sound remembered) {s' : Station} {issued : List Op}
    (moves : CallMoves s s' issued) :
    s'.replica.pending.Perm (s'.held ++ (s'.loop.phase.taken ++ s'.node.sync.opQueue.ops)) := by
  cases moves with
  | @permit node reserved sync_eq =>
    change s.replica.pending.Perm (s.held ++ (s.loop.phase.taken ++ node.sync.opQueue.ops))
    rw [sync_eq]
    exact h.pending
  | @publish env op node reserved inHand unreported issued sync_eq held =>
    change (s.replica.pending ++ [op]).Perm
      (s.lost ++ (unreported ++ inHand) ++ (s.loop.phase.taken ++ node.sync.opQueue.ops))
    rw [sync_eq, List.perm_iff_count]
    intro a
    have hpending := h.pending.count_eq a
    have hheld := held.count_eq a
    simp only [List.count_append, Station.held] at hpending hheld ⊢
    omega
  | @send op mem =>
    -- the operation goes from the hand to the queue
    have hhand : s.inHand.Perm ([op] ++ s.inHand.erase op) := List.perm_cons_erase mem
    change s.replica.pending.Perm (s.lost ++ (s.unreported ++ s.inHand.erase op) ++
      (s.loop.phase.taken ++ (s.node.sync.opQueue.ops ++ [op])))
    rw [List.perm_iff_count]
    intro a
    have hpending := h.pending.count_eq a
    have hcount := hhand.count_eq a
    simp only [List.count_append, Station.held] at hpending hcount ⊢
    omega

theorem call (h : s.Sound remembered) {s' : Station} {issued : List Op}
    (moves : CallMoves s s' issued) : s'.Sound remembered := by
  have hpending := h.call_pending moves
  obtain ⟨node, pending, inHand, unreported, queued, late, rfl, registries, opQueue, hsync⟩ :=
    moves.frame
  exact
    { pending := hpending
      outgoing := h.outgoing
      inbox := h.inbox
      opLog := by
        change node.sync.opLog = s.replica.accepted.rtake (normalizeOpLogLimit node.sync.opLogLimit)
        rw [hsync]
        exact h.opLog
      seen := by
        change ∀ id ∈ node.sync.seenOps.ids, id ∈ s.replica.accepted.map Op.id
        rw [hsync]
        exact h.seen }

end Station.Sound

/-- What the loop takes off the queue it holds. -/
theorem LoopMoves.taken {peers : OrdMap String Writer}
    {loop loop' : BroadcastLoop (String × Writer)}
    {queue queue' : OpQueue} (h : LoopMoves peers loop queue loop' queue') :
    loop'.phase.taken ++ queue'.ops = loop.phase.taken ++ queue.ops := by
  cases h with
  | shutdown waiting => rfl
  | take waiting ops => rw [waiting, ops]; rfl
  | finish waiting ops draining => rw [waiting, ops]; rfl
  | coalesce phase room ops => rw [phase, ops]; simp [BroadcastPhase.taken]
  | settle phase done => rw [phase]; rfl
  | snapshot phase all => rw [phase]; rfl

theorem LoopMoves.outgoing {peers : OrdMap String Writer}
    {loop loop' : BroadcastLoop (String × Writer)} {queue queue' : OpQueue}
    (h : LoopMoves peers loop queue loop' queue') :
    loop'.phase.outgoing ⊆ loop.phase.outgoing := by
  cases h with
  | shutdown waiting => exact List.Subset.refl _
  | snapshot phase all => rw [phase]; exact List.Subset.refl _
  | take | finish | coalesce | settle => exact List.nil_subset _

namespace Station.Sound

variable {remembered : List Op} {s : Station}

theorem loop (h : s.Sound remembered) {loop : BroadcastLoop (String × Writer)} {queue : OpQueue}
    (moves : LoopMoves s.peers s.loop s.node.sync.opQueue loop queue) :
    (s.setLoop loop (s.node.withQueue queue)).Sound remembered where
  pending := by
    change s.replica.pending.Perm (s.held ++ (loop.phase.taken ++ queue.ops))
    rw [moves.taken]
    exact h.pending
  outgoing := List.Subset.trans moves.outgoing h.outgoing
  inbox := h.inbox
  opLog := h.opLog
  seen := h.seen

/-- The log and the window follow what is accepted. -/
theorem accepted_log (h : s.Sound remembered) (ops : List Op) :
    (commitBatch s.node.sync (freshOps s.node.sync.seenOps ops)).opLog =
      (s.replica.accepted ++ freshOps s.node.sync.seenOps ops).rtake
        (normalizeOpLogLimit s.node.sync.opLogLimit) := by
  rw [commitBatch_opLog, h.opLog, rtake_append_rtake]

theorem accepted_seen (h : s.Sound remembered) (hvalid : s.node.sync.seenOps.Valid)
    (ops : List Op) :
    ∀ id ∈ (commitBatch s.node.sync (freshOps s.node.sync.seenOps ops)).seenOps.ids,
      id ∈ (s.replica.accepted ++ freshOps s.node.sync.seenOps ops).map Op.id := by
  intro id hid
  rw [List.map_append, List.mem_append]
  exact (mem_commitBatch_ids hvalid hid).imp_left (h.seen id)

theorem remember (h : s.Sound remembered) (hvalid : s.node.sync.seenOps.Valid) {serde : Serde}
    {fault : Option StoreError} {batch : List Op} {node : Node}
    (result : rememberOps serde fault s.node batch = (node, .ok ())) :
    (s.finishBatch { s.loop with phase := .remembered batch } node batch true).Sound
      (remembered ++ batch) := by
  rcases rememberOps_cases serde fault s.node batch with ⟨e, herr⟩ | ⟨store, -, hok⟩
  · rw [herr] at result
    cases result
  · rw [hok] at result
    cases result
    exact
      { pending := by
          have hheld : ∀ node, (s.finishBatch { s.loop with phase := .remembered batch } node
              batch true).held = s.held := fun node => by simp [Station.held, lost, finishBatch]
          rw [hheld]
          exact .refl _
        outgoing := List.subset_append_right _ _
        inbox := fun sender ops hops =>
          List.Subset.trans (h.inbox sender ops hops) (List.subset_append_left _ _)
        opLog := h.accepted_log batch
        seen := h.accepted_seen hvalid batch }

theorem drop (h : s.Sound remembered) {batch : List Op} (phase : s.loop.phase = .batched batch) :
    (s.finishBatch { s.loop with phase := .waiting } s.node batch false).Sound remembered where
  pending := by
    -- the batch is lost instead of taken
    have hheld : (s.finishBatch { s.loop with phase := .waiting } s.node batch false).held =
        s.lost ++ batch ++ (s.unreported ++ s.inHand) := by
      simp [Station.held, lost, finishBatch, recordSyncError, setLoop, setNode]
    rw [hheld, List.perm_iff_count]
    intro a
    have hpending := h.pending.count_eq a
    rw [phase] at hpending
    change s.replica.pending.count a = List.count a (_ ++ ([] ++ s.node.sync.opQueue.ops))
    simp only [List.count_append, Station.held, BroadcastPhase.taken, List.nil_append]
      at hpending ⊢
    omega
  outgoing := List.nil_subset _
  inbox := h.inbox
  opLog := h.opLog
  seen := h.seen

/-- The loop has nothing more to send of the batch. -/
theorem waiting (h : s.Sound remembered) {batch : List Op} {failed : Bool}
    {writers : List (String × Writer)} (phase : s.loop.phase = .sending batch failed writers)
    (syncErrors : Nat) :
    ({ s with loop := { s.loop with phase := .waiting }, syncErrors } : Station).Sound
      remembered where
  pending := by
    have hpending := h.pending
    rw [phase] at hpending
    exact hpending
  outgoing := List.nil_subset _
  inbox := h.inbox
  opLog := h.opLog
  seen := h.seen

/-- One writer less. -/
theorem push (h : s.Sound remembered) {batch : List Op} {failed failed' : Bool}
    {writer : String × Writer} {rest : List (String × Writer)}
    (phase : s.loop.phase = .sending batch failed (writer :: rest)) (peers : OrdMap String Writer) :
    ({ s with
        peers, loop := { s.loop with phase := .sending batch failed' rest } } : Station).Sound
      remembered where
  pending := by
    have hpending := h.pending
    rw [phase] at hpending
    exact hpending
  outgoing := by
    have houtgoing := h.outgoing
    rw [phase] at houtgoing
    exact houtgoing
  inbox := h.inbox
  opLog := h.opLog
  seen := h.seen

theorem apply (h : s.Sound remembered) (hvalid : s.node.sync.seenOps.Valid) {serde : Serde}
    {fault : Option StoreError} {sender : NodeId} {ops : List Op} {inbox : List NodeEvent}
    {node : Node} (oldest : s.inbox = .opsReceived sender ops :: inbox)
    (result : applyRemoteOps serde fault s.node ops = (node, .ok ())) :
    ({ s with inbox, replica := s.replica.accept node ops s.replica.pending } : Station).Sound
      remembered := by
  have hinbox : ∀ sender ops, .opsReceived sender ops ∈ inbox → ops ⊆ remembered :=
    fun sender ops hops => h.inbox sender ops (by rw [oldest]; exact List.mem_cons_of_mem _ hops)
  rcases applyRemoteOps_cases serde fault s.node ops with
    ⟨rfl, hnothing⟩ | ⟨e, herr⟩ | ⟨store, -, hok⟩
  · rw [hnothing] at result
    cases result
    exact
      { pending := h.pending
        outgoing := h.outgoing
        inbox := hinbox
        opLog := by
          change s.node.sync.opLog = (s.replica.accepted ++ []).rtake _
          rw [List.append_nil]
          exact h.opLog
        seen := by
          change ∀ id ∈ s.node.sync.seenOps.ids, id ∈ (s.replica.accepted ++ []).map Op.id
          rw [List.append_nil]
          exact h.seen }
  · rw [herr] at result
    cases result
  · rw [hok] at result
    cases result
    exact
      { pending := h.pending
        outgoing := h.outgoing
        inbox := hinbox
        opLog := h.accepted_log ops
        seen := h.accepted_seen hvalid ops }

end Station.Sound

/-! ## The cluster -/

namespace Cluster

variable {ι : Type} {codec : PayloadCodec} {serde : Serde} {c next : Cluster ι}

/-- The invariant of all runs. -/
structure Sound (codec : PayloadCodec) (c : Cluster ι) : Prop where
  world : c.world.Inv
  station : ∀ i, (c.station i).Sound c.remembered
  pipes : ∀ p ∈ c.pipes, p.OnWire codec c.remembered

namespace Sound

theorem seen_valid (h : c.Sound codec) (i : ι) : (c.station i).node.sync.seenOps.Valid :=
  (h.world.replica i).seen

theorem accepted_remembered (h : c.Sound codec) (i : ι) :
    (c.station i).replica.accepted ⊆ c.remembered :=
  (h.world.replica i).accepted_remembered

/-- Everything in a log was accepted. -/
theorem opLog_accepted (h : c.Sound codec) (i : ι) :
    (c.station i).node.sync.opLog ⊆ (c.station i).replica.accepted := by
  rw [(h.station i).opLog]
  exact (rtake_suffix _ _).subset

/-- A broadcast brings remembered operations. -/
theorem carries_batch (h : c.Sound codec) {i : ι} {batch : List Op} {failed : Bool}
    {writers : List (String × Writer)}
    (phase : (c.station i).loop.phase = .sending batch failed writers) :
    (Message.pushOps batch).Carries c.remembered := by
  intro ops hops
  cases hops
  have houtgoing := (h.station i).outgoing
  rw [phase] at houtgoing
  exact houtgoing

/-- A request brings nothing, and its answer what is in the log. -/
theorem carries_asked (h : c.Sound codec) {i : ι} {addr : String} {message : Message}
    {inbox : List NodeEvent} (asks : (c.station i).Asks addr message inbox) :
    message.Carries c.remembered := by
  intro ops hops
  cases asks with
  | pull => cases hops
  | answer oldest =>
    cases hops
    exact List.Subset.trans (opLogSince_subset _ _)
      (List.Subset.trans (h.opLog_accepted i) (h.accepted_remembered i))

/-- The events a connection hands on bring what the message brought. -/
theorem event_inbox (h : c.Sound codec) {i : ι} {message : Message} {peerNodeId : NodeId}
    {addr : String} {event : NodeEvent} (hcarries : message.Carries c.remembered)
    (outcome : readOutcome peerNodeId addr message = .event event) :
    ∀ sender ops, .opsReceived sender ops ∈ (c.station i).inbox ++ [event] →
      ops ⊆ c.remembered := by
  intro sender ops hops
  rcases List.mem_append.mp hops with hops | hops
  · exact (h.station i).inbox sender ops hops
  · cases List.mem_singleton.mp hops
    obtain ⟨kind⟩ := message
    cases kind <;> cases outcome
    exact hcarries _ rfl

/-- Only the pipes change. -/
theorem setPipes (h : c.Sound codec) {pipes : List (Pipe ι)}
    (hpipes : ∀ p ∈ pipes, p.OnWire codec c.remembered) : Sound codec { c with pipes } :=
  ⟨h.world, h.station, hpipes⟩

variable [DecidableEq ι]

theorem set_world (i : ι) (s : Station) (pipes : List (Pipe ι)) :
    (c.set i s pipes).world =
      { c.world with replica := Function.update c.world.replica i s.replica } := by
  have hreplica : (fun j => (Function.update c.station i s j).replica) =
      Function.update c.world.replica i s.replica := by
    funext j
    by_cases hj : j = i
    · subst hj
      rw [Function.update_self, Function.update_self]
    · rw [Function.update_of_ne hj, Function.update_of_ne hj]
      rfl
  exact congrArg (fun replica => World.mk replica c.issued c.remembered) hreplica

/-- One station changes. -/
theorem set (h : c.Sound codec) {i : ι} {s : Station} {pipes : List (Pipe ι)}
    {issued remembered : List Op} (hsub : c.remembered ⊆ remembered)
    (hworld : World.Inv
      { replica := Function.update c.world.replica i s.replica, issued, remembered })
    (hs : s.Sound remembered) (hpipes : ∀ p ∈ pipes, p.OnWire codec remembered) :
    Sound codec { c.set i s pipes with issued, remembered } where
  world := by
    have hset := congrArg World.replica (set_world (c := c) i s pipes)
    change World.Inv { replica := (c.set i s pipes).world.replica, issued, remembered }
    rw [hset]
    exact hworld
  station := by
    intro j
    change (Function.update c.station i s j).Sound remembered
    by_cases hj : j = i
    · subst hj
      rw [Function.update_self]
      exact hs
    · rw [Function.update_of_ne hj]
      exact (h.station j).mono hsub
  pipes := hpipes

/-- One station changes around its node. -/
theorem setQuiet (h : c.Sound codec) {i : ι} {s : Station} {pipes : List (Pipe ι)}
    (hreplica : s.replica = (c.station i).replica) (hs : s.Sound c.remembered)
    (hpipes : ∀ p ∈ pipes, p.OnWire codec c.remembered) :
    Sound codec { c.set i s pipes with
      issued := c.issued ++ [], remembered := c.remembered ++ [] } := by
  simp only [List.append_nil]
  refine h.set (List.Subset.refl _) ?_ hs hpipes
  rw [hreplica]
  change World.Inv { c.world with replica := Function.update c.world.replica i (c.world.replica i) }
  rw [Function.update_eq_self]
  exact h.world

end Sound

theorem Initial.sound (h : c.Initial) : c.Sound codec where
  world := h.world.inv
  station := by
    intro i
    have hnode := h.world.node i
    obtain ⟨limit, hseen⟩ := hnode.seenOps
    have haccepted : (c.station i).replica.accepted = [] := h.world.accepted i
    exact
      { pending := by
          rw [show (c.station i).replica.pending = [] from h.world.pending i, (h.queue i).1,
            h.loop i, Station.held, Station.lost, h.batches i, h.unreported i, h.inHand i]
          exact .refl _
        outgoing := by rw [h.loop i]; exact List.nil_subset _
        inbox := by
          intro sender ops hops
          rw [h.inbox i] at hops
          cases hops
        opLog := by
          rw [haccepted, show (c.station i).node.sync.opLog = [] from hnode.opLog]
          exact (rtake_of_length_le (Nat.zero_le _)).symm
        seen := by
          intro id hid
          rw [show (c.station i).node.sync.seenOps = _ from hseen] at hid
          exact absurd hid (by simp [SeenOps.new]) }
  pipes := by
    intro p hp
    rw [h.pipes] at hp
    cases hp

variable [DecidableEq ι]

omit [DecidableEq ι] in
/-- A connection adds two empty pipes, and entries to the tables. -/
theorem Sound.connect (h : c.Sound codec) {station : ι → Station} {p q : Pipe ι}
    (entered : ∀ i, (c.station i).Entered c.pipes.length (station i))
    (empty : p.bytes = [] ∧ q.bytes = []) :
    Sound codec { c with station, pipes := c.pipes ++ [p, q] } where
  world := by
    have hreplica : (fun i => (station i).replica) = c.world.replica := by
      funext i
      obtain ⟨peers, heq, -⟩ := entered i
      rw [heq]
      rfl
    change World.Inv { c.world with replica := fun i => (station i).replica }
    rw [hreplica]
    exact h.world
  station := by
    intro i
    obtain ⟨peers, heq, -⟩ := entered i
    dsimp only
    rw [heq]
    exact (h.station i).of_inbox (h.station i).inbox _ _ _
  pipes := by
    intro r hr
    rcases List.mem_append.mp hr with hr | hr
    · exact h.pipes r hr
    · rcases List.mem_pair.mp hr with rfl | rfl
      · exact Pipe.onWire_of_empty empty.1
      · exact Pipe.onWire_of_empty empty.2

/-- What a call publishes is new. -/
theorem Sound.call (h : c.Sound codec) {i : ι} {s : Station} {issued : List Op}
    (moves : CallMoves (c.station i) s issued)
    (hproper : ((c.issued ++ issued).map Op.id).Nodup ∧
      ∀ op ∈ c.issued ++ issued, op.StampBelowMax) :
    World.Inv
      { c.world with
        replica := Function.update c.world.replica i s.replica, issued := c.issued ++ issued } := by
  cases moves with
  | @permit node reserved sync_eq =>
    have hid : node.sync.nodeId = (c.station i).node.sync.nodeId := by rw [sync_eq]
    rw [List.append_nil]
    exact h.world.updateQuiet hid
      ((h.world.replica i).of_sync hid (by rw [sync_eq]; rfl) (by rw [sync_eq]; rfl))
  | @publish env op node reserved inHand unreported issued sync_eq held =>
    have hfresh : ∀ o ∈ c.issued, o.id ≠ op.id := by
      have hnodup := hproper.1
      rw [List.map_append, List.nodup_append] at hnodup
      exact fun o ho => hnodup.2.2 _ (List.mem_map_of_mem ho) _ List.mem_cons_self
    exact h.world.issue (by rw [sync_eq]; rfl) (by rw [sync_eq]; rfl) (by rw [sync_eq]; rfl)
      issued hfresh (hproper.2 op (List.mem_append_right _ List.mem_cons_self))
  | send mem =>
    rw [List.append_nil]
    exact h.world.updateQuiet rfl ((h.world.replica i).of_sync rfl rfl rfl)

theorem Sound.remember (h : c.Sound codec) {i : ι} {fault : Option StoreError} {batch : List Op}
    {node : Node} (phase : (c.station i).loop.phase = .batched batch)
    (result : rememberOps serde fault (c.station i).node batch = (node, .ok ())) :
    World.Inv
      { c.world with
        replica := Function.update c.world.replica i ((c.station i).finishBatch
          { (c.station i).loop with phase := .remembered batch } node batch true).replica
        remembered := c.remembered ++ batch } := by
  have hpending : (c.station i).replica.pending.Perm
      (batch ++ ((c.station i).held ++ (c.station i).node.sync.opQueue.ops)) := by
    have hall := (h.station i).pending
    rw [phase] at hall
    exact hall.trans (List.perm_append_comm_assoc _ _ _)
  rcases rememberOps_cases serde fault (c.station i).node batch with ⟨e, herr⟩ | ⟨store, -, hok⟩
  · cases herr.symm.trans result
  · cases hok.symm.trans result
    exact h.world.remember hpending store

/-- Every step of a station keeps the invariant. -/
theorem Sound.step (h : c.Sound codec) {i : ι} {s : Station} {pipes : List (Pipe ι)}
    {issued remembered : List Op}
    (hstep : Station.Step serde codec i c.pipes (c.station i) s pipes issued remembered)
    (hproper : ((c.issued ++ issued).map Op.id).Nodup ∧
      ∀ op ∈ c.issued ++ issued, op.StampBelowMax) :
    Sound codec { c.set i s pipes with
      issued := c.issued ++ issued, remembered := c.remembered ++ remembered } := by
  cases hstep with
  | call moves =>
    have hworld := h.call moves hproper
    rw [List.append_nil]
    exact h.set (List.Subset.refl _) hworld ((h.station i).call moves) h.pipes
  | loop moves =>
    simp only [List.append_nil]
    exact h.set (List.Subset.refl _)
      (h.world.updateQuiet rfl ((h.world.replica i).of_sync rfl rfl rfl))
      ((h.station i).loop moves) h.pipes
  | remember phase result =>
    have hworld := h.remember phase result
    rw [List.append_nil]
    exact h.set (List.subset_append_left _ _) hworld
      ((h.station i).remember (h.seen_valid i) result)
      fun p hp => (h.pipes p hp).mono (List.subset_append_left _ _)
  | drop phase => exact h.setQuiet rfl ((h.station i).drop phase) h.pipes
  | push failure phase encoded =>
    have hcarries := h.carries_batch phase
    cases failure with
    | none =>
      exact h.setQuiet rfl ((h.station i).push phase _)
        (forall_mem_modify h.pipes fun p _ hp => hp.write encoded hcarries)
    | some n =>
      exact h.setQuiet rfl ((h.station i).push phase _)
        (forall_mem_modify h.pipes fun p _ hp => hp.fail encoded hcarries n)
  | pushed phase => exact h.setQuiet rfl ((h.station i).waiting phase _) h.pipes
  | pushFailed phase => exact h.setQuiet rfl ((h.station i).waiting phase _) h.pipes
  | send asks peer encoded =>
    exact h.setQuiet rfl ((h.station i).of_inbox ((h.station i).asks_inbox asks) _ _ _)
      (forall_mem_modify h.pipes fun p _ hp => hp.write encoded (h.carries_asked asks))
  | sendFailed n asks encoded =>
    exact h.setQuiet rfl ((h.station i).of_inbox ((h.station i).asks_inbox asks) _ _ _)
      (forall_mem_modify h.pipes fun p _ hp => hp.fail encoded (h.carries_asked asks) n)
  | unsent asks =>
    exact h.setQuiet rfl ((h.station i).of_inbox ((h.station i).asks_inbox asks) _ _ _) h.pipes
  | @apply sender ops inbox fault node oldest result =>
    -- what a peer has sent was remembered there
    have hknown : ops ⊆ c.remembered :=
      (h.station i).inbox sender ops (by rw [oldest]; exact List.mem_cons_self)
    have hworld := World.Step.applyRemote (w := c.world) i fault ops
      (fun op hop => hknown hop) result
    simp only [List.append_nil]
    exact h.set (List.Subset.refl _) (hworld.inv h.world)
      ((h.station i).apply (h.seen_valid i) oldest result) h.pipes
  | applyFailed oldest =>
    refine h.setQuiet rfl ((h.station i).of_inbox ?_ _ _ _) h.pipes
    exact fun sender ops hops =>
      (h.station i).inbox sender ops (by rw [oldest]; exact List.mem_cons_of_mem _ hops)
  | events shutdown =>
    exact h.setQuiet rfl ((h.station i).of_inbox (h.station i).inbox _ _ _) h.pipes
  | event pipe dst message_eq outcome =>
    obtain ⟨hcarries, hwire⟩ := (h.pipes _ (List.mem_of_getElem? pipe)).read message_eq
    refine h.setQuiet rfl ((h.station i).of_inbox (h.event_inbox hcarries outcome) _ _ _) ?_
    refine forall_mem_modify h.pipes fun q hq _ => ?_
    cases pipe.symm.trans hq
    exact hwire
  | hangUp first second =>
    -- both directions break; what they carry stays
    refine h.setQuiet rfl ((h.station i).forget _ _) ?_
    refine forall_mem_modify (forall_mem_modify h.pipes fun q _ hq => ?_) fun q _ hq => ?_
    · obtain ⟨reading, heq⟩ := first q
      exact heq ▸ hq.broken reading
    · obtain ⟨reading, heq⟩ := second q
      exact heq ▸ hq.broken reading

/-- Every move keeps the invariant. -/
theorem Moves.sound (hmoves : Moves serde codec c next) (hproper : next.Proper)
    (h : c.Sound codec) : next.Sound codec := by
  cases hmoves with
  | station i step => exact h.step step ⟨hproper.ids, hproper.stamps⟩
  | @reply k p format message answer bytes frame pipe message_eq outcome encoded =>
    obtain ⟨hcarries, hwire⟩ := (h.pipes _ (List.mem_of_getElem? pipe)).read message_eq
    refine h.setPipes (forall_mem_modify (forall_mem_modify h.pipes fun q hq _ => ?_) ?_)
    · cases pipe.symm.trans hq
      exact hwire
    · refine fun q _ hq => hq.write encoded ?_
      -- the only answer is a pong
      obtain ⟨kind⟩ := message
      cases kind <;> cases outcome
      exact nofun
  | ignore pipe message_eq outcome =>
    obtain ⟨-, hwire⟩ := (h.pipes _ (List.mem_of_getElem? pipe)).read message_eq
    refine h.setPipes (forall_mem_modify h.pipes fun q hq _ => ?_)
    cases pipe.symm.trans hq
    exact hwire
  | connect entered empty => exact h.connect entered empty
  | cut k n => exact h.setPipes (forall_mem_modify h.pipes fun q _ hq => hq.cut n)

theorem sound_of_run {c₀ : Cluster ι} {actions : List (Action ι)} (h : c₀.Sound codec)
    (hproper : c.Proper) (hrun : c₀.run serde codec actions = some c) : c.Sound codec :=
  run_keeps hproper (fun _ _ hmoves hp hs => hmoves.sound hp hs) h hrun

def pairStart : Cluster Bool where
  station b :=
    { replica := { node := World.startedNode (if b then "b" else "a") }
      eventCapacity := 4
      maxMessageSize := 1000 }

theorem pairStart_initial : pairStart.Initial where
  world :=
    { nodeId_inj := by decide
      node := fun _ => Node.start_initial _ 8 8 8
      pending := fun _ => rfl
      accepted := fun _ => rfl
      evicted := fun _ => rfl
      issued := rfl
      remembered := rfl }
  queue := fun _ => ⟨rfl, rfl⟩
  loop := fun _ => rfl
  peers := fun _ => rfl
  inbox := fun _ => rfl
  inHand := fun _ => rfl
  unreported := fun _ => rfl
  queued := fun _ => rfl
  late := fun _ => rfl
  batches := fun _ => rfl
  pipes := rfl

def pairConnect : Action Bool := .connect false true "b" "a" .json

def pairOp : Op := .gcounterIncrement "op" "a" "k" 3

/-- Node `a` adds three to the counter `k`. -/
def pairCall : List (Action Bool) :=
  [.reserve false, .publish false (some { bytes := asBytes "k" }) { now := some 1, opId := "op" }
    (.gcounterInc 0 1 3), .send false pairOp]

/-- The operation goes from the queue of `a` to the registries of `b`. -/
def pairBroadcast : List (Action Bool) :=
  pairCall ++ [.receive false, .tryRecv false, .remember false none,
    .snapshot false [("b", ⟨0, .json⟩)], .push false none, .push false none, .read 0,
    .handle true none none]

/-- The two are connected, have counted no error and have nothing left to do. -/
def PairQuiet (c : Cluster Bool) : Prop :=
  c.issued = [pairOp] ∧
  (∀ b, (c.station b).replica.pending = [] ∧ (c.station b).replica.evicted = [] ∧
    (c.station b).inbox = [] ∧ (c.station b).syncErrors = 0 ∧
    (c.station b).loop.phase.outgoing = [] ∧ (c.station b).replica.accepted.map Op.id = ["op"] ∧
    (c.station b).node.sync.opLogLimit = 8 ∧ (c.station b).events = .running) ∧
  ((c.station false).peers["b"]? = some ⟨0, .json⟩ ∧
    (c.station true).peers["a"]? = some ⟨1, .json⟩) ∧
  (c.pipes.map (fun p => (p.dst, p.addr)) = [(true, "a"), (false, "b")] ∧
    ∀ p ∈ c.pipes, p.bytes = [] ∧ p.broken = false)

instance (c : Cluster Bool) : Decidable (PairQuiet c) := inferInstanceAs (Decidable (_ ∧ _))

theorem pairBroadcast_run : ∃ c,
    pairStart.run jsonSerde jsonPayload (pairConnect :: pairBroadcast) = some c ∧
      PairQuiet c := by
  have hrun : (pairStart.run jsonSerde jsonPayload (pairConnect :: pairBroadcast)).any
      (fun c => PairQuiet c) = true := by decide +kernel
  obtain ⟨c, hc, hquiet⟩ := (Option.any_eq_true _ _).mp hrun
  exact ⟨c, hc, of_decide_eq_true hquiet⟩

theorem PairQuiet.proper {c : Cluster Bool} (h : PairQuiet c) : c.Proper where
  ids := by
    rw [h.1]
    exact List.nodup_singleton _
  stamps := by
    rw [h.1]
    intro op hop
    cases List.mem_singleton.mp hop
    trivial

end Cluster

end Numax
