import Numax.Cluster.State

/-!
# What an action can do

`Station.Step` lists everything that can come out of an action of one node, with the
conditions under which it does, and `Cluster.Moves` adds what is between the nodes. All
invariants of runs are derived from these lists (`Cluster.moves_of_step`). What a move is
for a single station is said by `Cluster.Moves.view`.
-/

open Base Std

namespace Numax

theorem Node.recv_of_cons {n : Node} {first : Op} {rest : List Op}
    (h : n.sync.opQueue.ops = first :: rest) :
    n.recv = n.withQueue { n.sync.opQueue with ops := rest } := by
  rw [recv, h, List.tail_cons]
  rfl

/-! ## Calls -/

/-- A call with a permit does nothing, or it publishes one operation, which it sends
unless it is an insertion that fails. -/
theorem Node.call_permit (serde : Serde) (n : Node) (memory : Option GuestMemory) (env : CallEnv)
    (c : CrdtCall) :
    ((n.withQueue { capacity := 1 }).call serde memory env c).1.sync =
        { n.sync with opQueue := { capacity := 1 } } ∨
    ∃ op, IssuedBy env n.sync op ∧
      (((n.withQueue { capacity := 1 }).call serde memory env c).1.sync =
          { n.sync with
            registries := applyOp n.sync.registries op
            opQueue := { ops := [op], capacity := 1 } } ∨
        ((n.withQueue { capacity := 1 }).call serde memory env c).1.sync =
          { n.sync with
            registries := applyOp n.sync.registries op
            opQueue := { capacity := 1 } } ∧
        insertedOp env n.sync.nodeId memory c = some op) := by
  have houtcome := crdtCall_outcome serde env
    ⟨memory, n.store, some (n.withQueue { capacity := 1 }).sync⟩ c
  unfold call
  change CallOutcome _ _ _ _ _ (crdtCall serde env ⟨memory, (n.withQueue { capacity := 1 }).store,
    some (n.withQueue { capacity := 1 }).sync⟩ c) at houtcome
  generalize crdtCall serde env ⟨memory, (n.withQueue { capacity := 1 }).store,
    some (n.withQueue { capacity := 1 }).sync⟩ c = result at houtcome ⊢
  -- what is known of the operation does not depend on the queue
  have hissued : ∀ {op}, IssuedBy env (n.withQueue { capacity := 1 }).sync op →
      IssuedBy env n.sync op := fun h => ⟨h.id_eq, h.origin_eq, h.stamp_gt, h.element_id⟩
  cases houtcome with
  | rejected negative => exact .inl rfl
  | unchanged => exact .inl rfl
  | committed enabled issued persisted nonneg =>
    cases enabled
    exact .inr ⟨_, hissued issued, .inl rfl⟩
  | @queuedOnly _ op enabled issued same =>
    cases enabled
    refine .inr ⟨op, hissued issued, .inl ?_⟩
    rw [show applyOp n.sync.registries op = n.sync.registries from same]
    rfl
  | unreported enabled issued persisted unwritable =>
    cases enabled
    refine .inr ⟨_, hissued issued, .inr ⟨rfl, ?_⟩⟩
    cases c with
    | rgaInsert args => exact unwritable.2 (n.withQueue { capacity := 1 }).sync rfl
    | _ => exact unwritable.elim

/-- What a call does to its station, and the operation it issues with that. -/
inductive CallMoves (s : Station) : Station → List Op → Prop
  /-- a permit is taken, or given back unused -/
  | permit {node : Node} {reserved : Nat}
      (sync_eq : node.sync =
        { s.node.sync with opQueue := { s.node.sync.opQueue with reserved } }) :
      CallMoves s (s.setNode node) []
  | publish {env : CallEnv} {op : Op} {node : Node} {reserved : Nat} {inHand unreported : List Op}
      (issued : IssuedBy env s.node.sync op)
      (sync_eq : node.sync =
        { s.node.sync with
          registries := applyOp s.node.sync.registries op
          opQueue := { s.node.sync.opQueue with reserved } })
      (held : (unreported ++ inHand).Perm (s.unreported ++ s.inHand ++ [op])) :
      CallMoves s
        { s with
          replica := { s.replica with node, pending := s.replica.pending ++ [op] }
          inHand
          unreported } [op]
  | send {op : Op} (mem : op ∈ s.inHand) : CallMoves s (s.sendOp op) []

variable {s s' : Station}

/-- A call leaves everything else as it is. -/
theorem CallMoves.frame {issued : List Op} (h : CallMoves s s' issued) :
    ∃ node pending inHand unreported queued late,
      s' = { s with
        replica := { s.replica with node, pending }, inHand, unreported, queued, late } ∧
      ∃ registries opQueue, node.sync = { s.node.sync with registries, opQueue } := by
  cases h with
  | permit sync_eq => exact ⟨_, _, _, _, _, _, rfl, _, _, sync_eq⟩
  | publish issued sync_eq held => exact ⟨_, _, _, _, _, _, rfl, _, _, sync_eq⟩
  | send mem => exact ⟨_, _, _, _, _, _, rfl, s.node.sync.registries, _, rfl⟩

theorem callMoves_of_reserve (h : s.reserve = some s') : CallMoves s s' [] := by
  obtain ⟨queue, hqueue, rfl⟩ := Option.map_eq_some_iff.mp h
  unfold OpQueue.tryReserve at hqueue
  split at hqueue
  · cases hqueue
  · cases hqueue
    exact .permit rfl

theorem callMoves_of_publish {serde : Serde} {memory : Option GuestMemory} {env : CallEnv}
    {call : CrdtCall} {issued : List Op} (h : s.publish serde memory env call = some (s', issued)) :
    CallMoves s s' issued := by
  unfold Station.publish at h
  extract_lets queue node toSend unreported node' pending replica at h
  obtain ⟨-, h⟩ := Option.ite_none_left_eq_some.mp h
  rcases s.node.call_permit serde memory env call with hsync | ⟨op, hissued, hsync | ⟨hsync, hop⟩⟩
  · -- nothing has been published
    have hsend : toSend = [] := congrArg (fun sync : SyncState => sync.opQueue.ops) hsync
    have hregs : node.sync.registries = s.node.sync.registries := by
      rw [show node.sync = _ from hsync]
    have hnone : unreported = [] := if_neg fun hchanged => hchanged.2 hregs
    have hnode : node'.sync = { s.node.sync with opQueue := queue.release } := by
      change { node.sync with opQueue := if toSend = [] then queue.release else queue } = _
      rw [if_pos hsend, hsync]
    simp only [pending, hsend, hnone, List.append_nil] at h
    cases h
    exact .permit hnode
  · have hsend : toSend = [op] := congrArg (fun sync : SyncState => sync.opQueue.ops) hsync
    have hnone : unreported = [] := if_neg fun hchanged => by
      rw [hsend] at hchanged
      cases hchanged.1
    have hnode : node'.sync =
        { s.node.sync with registries := applyOp s.node.sync.registries op } := by
      change { node.sync with opQueue := if toSend = [] then queue.release else queue } = _
      rw [hsend, if_neg (List.cons_ne_nil _ _), hsync]
    simp only [pending, hsend, hnone, List.append_nil] at h
    cases h
    exact .publish hissued hnode (List.append_assoc _ _ _ ▸ .refl _)
  · have hsend : toSend = [] := congrArg (fun sync : SyncState => sync.opQueue.ops) hsync
    have hregs : node.sync.registries = applyOp s.node.sync.registries op :=
      congrArg (fun sync : SyncState => sync.registries) hsync
    have hnode : node'.sync =
        { s.node.sync with
          registries := applyOp s.node.sync.registries op
          opQueue := queue.release } := by
      change { node.sync with opQueue := if toSend = [] then queue.release else queue } = _
      rw [if_pos hsend, hsync]
    by_cases hsame : node.sync.registries = s.node.sync.registries
    · -- an insertion without an effect leaves nothing to account for
      have hnone : unreported = [] := if_neg fun hchanged => hchanged.2 hsame
      simp only [pending, hsend, hnone, List.append_nil] at h
      cases h
      have hreleased : node'.sync = { s.node.sync with opQueue := queue.release } := by
        rw [hnode, ← hregs, hsame]
      exact .permit hreleased
    · have hone : unreported = [op] := by
        change (if _ then _ else _) = _
        rw [if_pos ⟨hsend, hsame⟩, hop]
        rfl
      simp only [pending, hsend, hone, List.nil_append, List.append_nil] at h
      cases h
      refine .publish hissued hnode ?_
      rw [List.append_assoc, List.append_assoc]
      exact List.perm_append_comm.append_left _

/-! ## Stations -/

/-- The steps of the broadcast loop that touch the queue at most. -/
inductive LoopMoves (peers : OrdMap String Writer) (loop : BroadcastLoop (String × Writer))
    (queue : OpQueue) : BroadcastLoop (String × Writer) → OpQueue → Prop
  | shutdown (waiting : loop.phase = .waiting) :
      LoopMoves peers loop queue { loop with draining := true } queue
  | take {first : Op} {rest : List Op} (waiting : loop.phase = .waiting)
      (ops : queue.ops = first :: rest) :
      LoopMoves peers loop queue { loop with phase := .coalescing [first] }
        { queue with ops := rest }
  | finish (waiting : loop.phase = .waiting) (ops : queue.ops = [])
      (draining : loop.draining = true) :
      LoopMoves peers loop queue { loop with phase := .terminated } { queue with closed := true }
  | coalesce {batch rest : List Op} {op : Op} (phase : loop.phase = .coalescing batch)
      (room : batch.length < broadcastBatchMax) (ops : queue.ops = op :: rest) :
      LoopMoves peers loop queue { loop with phase := .coalescing (batch ++ [op]) }
        { queue with ops := rest }
  | settle {batch : List Op} (phase : loop.phase = .coalescing batch)
      (done : batch.length < broadcastBatchMax → queue.ops = []) :
      LoopMoves peers loop queue { loop with phase := .batched batch } queue
  | snapshot {batch : List Op} {writers : List (String × Writer)}
      (phase : loop.phase = .remembered batch) (all : writers.Perm peers.toList) :
      LoopMoves peers loop queue { loop with phase := .sending batch false writers } queue

/-- The messages of the anti-entropy and event loops, and the events left after them. -/
inductive Station.Asks (s : Station) (addr : String) : Message → List NodeEvent → Prop
  | pull : s.Asks addr ⟨.pullSince none⟩ s.inbox
  | answer {sender : NodeId} {sinceOpId : Option String} {rest : List NodeEvent}
      (oldest : s.inbox = .pullRequested sender addr sinceOpId :: rest) :
      s.Asks addr (Message.pushOps (opLogSince s.node.sync.opLog sinceOpId)) rest

/-- The pipe goes down. -/
def Pipe.Closes {ι : Type} (f : Pipe ι → Pipe ι) : Prop := ∀ p, ∃ reading, f p = p.close reading

/-- Only the table has changed, and only for pipes from `n` on. -/
def Station.Entered (n : Nat) (s s' : Station) : Prop :=
  ∃ peers, s' = { s with peers } ∧ ∀ (addr : String) (writer : Writer),
    peers[addr]? = some writer → writer.pipe < n → s.peers[addr]? = some writer

theorem Station.Entered.refl (n : Nat) (s : Station) : s.Entered n s :=
  ⟨s.peers, rfl, fun _ _ h _ => h⟩

theorem Station.entered_insert (s : Station) (addr : String) {n : Nat} {writer : Writer}
    (h : n ≤ writer.pipe) : s.Entered n { s with peers := s.peers.insert addr writer } := by
  refine ⟨_, rfl, fun other found hget hold => ?_⟩
  rw [OrdMap.get_insert] at hget
  split at hget
  · cases hget
    exact absurd hold (Nat.not_lt.mpr h)
  · exact hget

section Moves

variable {ι : Type} (serde : Serde) (codec : PayloadCodec)

/-- What the station `i` can do, with the pipes after it and the operations that are
issued and remembered by it. -/
inductive Station.Step (i : ι) (pipes : List (Pipe ι)) (s : Station) :
    Station → List (Pipe ι) → List Op → List Op → Prop
  | call {s' : Station} {issued : List Op} (moves : CallMoves s s' issued) :
      Step i pipes s s' pipes issued []
  | loop {loop : BroadcastLoop (String × Writer)} {queue : OpQueue}
      (moves : LoopMoves s.peers s.loop s.node.sync.opQueue loop queue) :
      Step i pipes s (s.setLoop loop (s.node.withQueue queue)) pipes [] []
  | remember {fault : Option StoreError} {batch : List Op} {node : Node}
      (phase : s.loop.phase = .batched batch)
      (result : rememberOps serde fault s.node batch = (node, .ok ())) :
      Step i pipes s (s.finishBatch { s.loop with phase := .remembered batch } node batch true)
        pipes [] batch
  | drop {batch : List Op} (phase : s.loop.phase = .batched batch) :
      Step i pipes s (s.finishBatch { s.loop with phase := .waiting } s.node batch false)
        pipes [] []
  | push {batch : List Op} {failed : Bool} {addr : String} {writer : Writer}
      {rest : List (String × Writer)} {frame : Bytes} (failure : Option Nat)
      (phase : s.loop.phase = .sending batch failed ((addr, writer) :: rest))
      (encoded : (Message.pushOps batch).toBytesWithFormat codec writer.format = .ok frame) :
      Step i pipes s
        { (s.writeToConnection pipes addr writer frame failure).1 with
          loop := { s.loop with phase := .sending batch (failed || failure.isSome) rest } }
        (s.writeToConnection pipes addr writer frame failure).2 [] []
  | pushed {batch : List Op} (phase : s.loop.phase = .sending batch false []) :
      Step i pipes s { s with loop := { s.loop with phase := .waiting } } pipes [] []
  | pushFailed {batch : List Op} {failed : Bool} {writers : List (String × Writer)}
      (phase : s.loop.phase = .sending batch failed writers) :
      Step i pipes s { s with loop := { s.loop with phase := .waiting } }.recordSyncError
        pipes [] []
  | send {addr : String} {message : Message} {inbox : List NodeEvent} {writer : Writer}
      {frame : Bytes} (asks : s.Asks addr message inbox) (peer : s.peers[addr]? = some writer)
      (encoded : message.toBytesWithFormat codec writer.format = .ok frame) :
      Step i pipes s { s with inbox } (pipes.modify writer.pipe (Pipe.write frame)) [] []
  | sendFailed {addr : String} {message : Message} {inbox : List NodeEvent} {writer : Writer}
      {frame : Bytes} (n : Nat) (asks : s.Asks addr message inbox)
      (encoded : message.toBytesWithFormat codec writer.format = .ok frame) :
      Step i pipes s (({ s with inbox } : Station).forget addr writer.pipe).recordSyncError
        (pipes.modify writer.pipe (Pipe.fail (frame.take n))) [] []
  | unsent {addr : String} {message : Message} {inbox : List NodeEvent}
      (asks : s.Asks addr message inbox) :
      Step i pipes s ({ s with inbox } : Station).recordSyncError pipes [] []
  | apply {sender : NodeId} {ops : List Op} {inbox : List NodeEvent} {fault : Option StoreError}
      {node : Node} (oldest : s.inbox = .opsReceived sender ops :: inbox)
      (result : applyRemoteOps serde fault s.node ops = (node, .ok ())) :
      Step i pipes s { s with inbox, replica := s.replica.accept node ops s.replica.pending }
        pipes [] []
  | applyFailed {sender : NodeId} {ops : List Op} {inbox : List NodeEvent}
      (oldest : s.inbox = .opsReceived sender ops :: inbox) :
      Step i pipes s ({ s with inbox } : Station).recordSyncError pipes [] []
  | events {events : EventLoop} (shutdown : events ≠ .running) :
      Step i pipes s { s with events } pipes [] []
  | event {k : Nat} {p : Pipe ι} {format : SerializationFormat} {message : Message} {bytes : Bytes}
      {event : NodeEvent} (pipe : pipes[k]? = some p) (dst : p.dst = i)
      (message_eq : readMessageWithFormat codec s.maxMessageSize p.bytes =
        (.ok (format, message), bytes))
      (outcome : readOutcome p.peerNodeId p.addr message = .event event) :
      Step i pipes s { s with inbox := s.inbox ++ [event] }
        (pipes.modify k fun p => { p with bytes }) [] []
  | hangUp {addr : String} {pipe k l : Nat} {f g : Pipe ι → Pipe ι} (first : Pipe.Closes f)
      (second : Pipe.Closes g) :
      Step i pipes s (s.forget addr pipe) ((pipes.modify k f).modify l g) [] []

variable [DecidableEq ι]

/-- Everything that can come out of an action. -/
inductive Cluster.Moves (c : Cluster ι) : Cluster ι → Prop
  | station (i : ι) {s : Station} {pipes : List (Pipe ι)} {issued remembered : List Op}
      (step : Station.Step serde codec i c.pipes (c.station i) s pipes issued remembered) :
      Moves c
        { c.set i s pipes with
          issued := c.issued ++ issued, remembered := c.remembered ++ remembered }
  | reply {k : Nat} {p : Pipe ι} {format : SerializationFormat} {message answer : Message}
      {bytes frame : Bytes} (pipe : c.pipes[k]? = some p)
      (message_eq : readMessageWithFormat codec (c.station p.dst).maxMessageSize p.bytes =
        (.ok (format, message), bytes))
      (outcome : readOutcome p.peerNodeId p.addr message = .reply answer)
      (encoded : answer.toBytesWithFormat codec p.format = .ok frame) :
      Moves c
        { c with
          pipes := (c.pipes.modify k fun p => { p with bytes }).modify p.back (Pipe.write frame) }
  /-- the message is no event, or nobody is left to take it -/
  | ignore {k : Nat} {p : Pipe ι} {format : SerializationFormat} {message : Message}
      {bytes : Bytes} (pipe : c.pipes[k]? = some p)
      (message_eq : readMessageWithFormat codec (c.station p.dst).maxMessageSize p.bytes =
        (.ok (format, message), bytes))
      (outcome : readOutcome p.peerNodeId p.addr message = .nothing ∨
        (c.station p.dst).events ≠ .running) :
      Moves c { c with pipes := c.pipes.modify k fun p => { p with bytes } }
  | connect {station : ι → Station} {p q : Pipe ι}
      (entered : ∀ i, (c.station i).Entered c.pipes.length (station i))
      (empty : p.bytes = [] ∧ q.bytes = []) :
      Moves c { c with station, pipes := c.pipes ++ [p, q] }
  | cut (k n : Nat) : Moves c { c with pipes := c.pipes.modify k (Pipe.cut n) }

end Moves

namespace Cluster

variable {ι : Type} [DecidableEq ι] {serde : Serde} {codec : PayloadCodec} {c next : Cluster ι}
  {i : ι}

theorem Moves.quiet {pipes : List (Pipe ι)}
    (step : Station.Step serde codec i c.pipes (c.station i) s pipes [] []) :
    Moves serde codec c (c.set i s pipes) := by
  have hmoves := Moves.station i step
  simp only [List.append_nil] at hmoves
  exact hmoves

/-- What a move is for one station: a step of its own, or no more than an entry for a new
connection. -/
theorem Moves.view (hmoves : Moves serde codec c next) (j : ι) :
    (∃ issued remembered, Station.Step serde codec j c.pipes (c.station j) (next.station j)
      next.pipes issued remembered) ∨
    (c.station j).Entered c.pipes.length (next.station j) := by
  cases hmoves with
  | @station i s pipes issued remembered step =>
    by_cases hj : j = i
    · subst hj
      refine .inl ⟨issued, remembered, ?_⟩
      change Station.Step _ _ _ _ _ (Function.update c.station j s j) _ _ _
      rw [Function.update_self]
      exact step
    · right
      change (c.station j).Entered _ (Function.update c.station i s j)
      rw [Function.update_of_ne hj]
      exact .refl _ _
  | reply | ignore | cut => exact .inr (.refl _ _)
  | connect entered empty => exact .inr (entered j)

/-! ## Actions -/

theorem moves_of_receive (h : c.step serde codec (.receive i) = some next) :
    Moves serde codec c next := by
  obtain ⟨⟨loop, node⟩, hreceive, rfl⟩ := Option.map_eq_some_iff.mp h
  unfold BroadcastLoop.receive at hreceive
  split at hreceive
  · next hphase hops =>
      cases hreceive
      rw [Node.recv_of_cons hops]
      exact .quiet (.loop (.take hphase hops))
  · next hphase hops =>
      obtain ⟨hdraining, hresult⟩ := Option.ite_none_right_eq_some.mp hreceive
      cases hresult
      exact .quiet (.loop (.finish hphase hops hdraining))
  · cases hreceive

theorem moves_of_tryRecv (h : c.step serde codec (.tryRecv i) = some next) :
    Moves serde codec c next := by
  obtain ⟨⟨loop, node⟩, htry, rfl⟩ := Option.map_eq_some_iff.mp h
  unfold BroadcastLoop.tryRecv at htry
  split at htry
  · next batch hphase =>
      split at htry
      · next hroom =>
          split at htry
          · next hops =>
              cases htry
              rw [Node.recv_of_cons hops]
              exact .quiet (.loop (.coalesce hphase hroom hops))
          · next hops =>
              cases htry
              exact .quiet (.loop (.settle hphase fun _ => hops))
      · next hfull =>
          cases htry
          exact .quiet (.loop (.settle hphase fun hroom => absurd hroom hfull))
  · cases htry

theorem moves_of_remember {fault : Option StoreError}
    (h : c.rememberBatch serde i fault = some next) : Moves serde codec c next := by
  unfold rememberBatch BroadcastLoop.remember at h
  rcases hphase : (c.station i).loop.phase with _ | batch | batch | batch | ⟨batch, f, w⟩ | _ <;>
    simp only [hphase] at h
  all_goals try cases h
  rcases hremember : rememberOps serde fault (c.station i).node batch with ⟨node, e | ⟨⟩⟩ <;>
    simp only [hremember] at h
  · cases h
    -- a failed batch leaves the node as it was
    rcases rememberOps_cases serde fault (c.station i).node batch with ⟨_, herr⟩ | ⟨_, -, hok⟩
    · cases herr.symm.trans hremember
      exact .quiet (.drop hphase)
    · cases hok.symm.trans hremember
  · cases h
    have hmoves := @Moves.station ι serde codec _ c i _ _ _ _ (.remember hphase hremember)
    rw [List.append_nil] at hmoves
    exact hmoves

variable {failure : Option Nat}

theorem moves_of_push (h : c.step serde codec (.push i failure) = some next) :
    Moves serde codec c next := by
  obtain ⟨⟨s, pipes⟩, hpush, rfl⟩ := Option.map_eq_some_iff.mp h
  unfold Station.push at hpush
  split at hpush
  · next failed hphase =>
      cases hpush
      cases failed with
      | false => exact .quiet (.pushed hphase)
      | true => exact .quiet (.pushFailed hphase)
  · next hphase =>
      split at hpush
      · cases hpush
        exact .quiet (.pushFailed hphase)
      · next hencoded =>
          cases hpush
          exact .quiet (.push failure hphase hencoded)
  · cases hpush

/-- The three ways a message to an address can go. -/
theorem moves_of_sendMessageToAddr {addr : String} {message : Message} {inbox : List NodeEvent}
    (asks : (c.station i).Asks addr message inbox) :
    Moves serde codec c
      (c.set i
        (({ c.station i with inbox } : Station).sendMessageToAddr codec c.pipes addr message
          failure).1
        (({ c.station i with inbox } : Station).sendMessageToAddr codec c.pipes addr message
          failure).2) := by
  unfold Station.sendMessageToAddr
  split
  · exact .quiet (.unsent asks)
  · next writer hpeer =>
      split
      · exact .quiet (.unsent asks)
      · next frame hencoded =>
          cases failure with
          | none => exact .quiet (.send asks hpeer hencoded)
          | some n => exact .quiet (.sendFailed n asks hencoded)

theorem moves_of_handle {fault : Option StoreError}
    (h : c.step serde codec (.handle i fault failure) = some next) : Moves serde codec c next := by
  obtain ⟨⟨s, pipes⟩, hhandle, rfl⟩ := Option.map_eq_some_iff.mp h
  unfold Station.handle at hhandle
  split at hhandle
  · cases hhandle
  · next sender ops rest hinbox =>
      split at hhandle
      · next node happly =>
          cases hhandle
          exact .quiet (.apply hinbox happly)
      · next node e happly =>
          cases hhandle
          rcases applyRemoteOps_cases serde fault (c.station i).node ops with
            ⟨-, hnothing⟩ | ⟨_, herr⟩ | ⟨_, -, hok⟩
          · cases hnothing.symm.trans happly
          · cases herr.symm.trans happly
            exact .quiet (.applyFailed hinbox)
          · cases hok.symm.trans happly
  · next sender addr sinceOpId rest hinbox =>
      rw [← Option.some.inj hhandle]
      exact moves_of_sendMessageToAddr (.answer hinbox)

theorem moves_of_endReading (k : Nat) (p : Pipe ι) :
    Moves serde codec c (c.endReading k p) :=
  .quiet (.hangUp (fun _ => ⟨false, rfl⟩) fun q => ⟨q.reading, rfl⟩)

theorem moves_of_read {k : Nat} (h : c.readPipe codec k = some next) :
    Moves serde codec c next := by
  unfold readPipe at h
  split at h
  · cases h
  · next p hpipe =>
      obtain ⟨-, h⟩ := Option.ite_none_left_eq_some.mp h
      split at h
      · obtain ⟨-, hnext⟩ := Option.ite_none_left_eq_some.mp h
        cases hnext
        exact moves_of_endReading k p
      · next hmessage =>
          split at h
          · next houtcome =>
              split at h
              · next hended =>
                  cases h
                  exact .ignore hpipe hmessage (.inr (by rw [hended]; nofun))
              · split at h
                · cases h
                  exact .quiet (.event hpipe rfl hmessage houtcome)
                · obtain ⟨hstopping, hnext⟩ := Option.ite_none_right_eq_some.mp h
                  cases hnext
                  exact .ignore hpipe hmessage (.inr (by rw [hstopping]; nofun))
          · next houtcome =>
              split at h
              · cases h
                exact moves_of_endReading k p
              · next hencoded =>
                  cases h
                  exact .reply hpipe hmessage houtcome hencoded
          · next houtcome =>
              cases h
              exact .ignore hpipe hmessage (.inl houtcome)
          · cases h
            exact moves_of_endReading k p

theorem moves_of_connect {j : ι} {addrI addrJ : String} {format : SerializationFormat}
    (h : c.connect i j addrI addrJ format = some next) : Moves serde codec c next := by
  unfold Cluster.connect at h
  obtain ⟨-, hnext⟩ := Option.ite_none_left_eq_some.mp h
  cases hnext
  refine .connect (fun k => ?_) ⟨rfl, rfl⟩
  by_cases hj : k = j
  · subst hj
    rw [Function.update_self]
    exact (c.station k).entered_insert addrJ (Nat.le_succ _)
  · rw [Function.update_of_ne hj]
    by_cases hi : k = i
    · subst hi
      rw [Function.update_self]
      exact (c.station k).entered_insert addrI le_rfl
    · rw [Function.update_of_ne hi]
      exact .refl _ _

theorem moves_of_step {action : Action ι} (h : c.step serde codec action = some next) :
    Moves serde codec c next := by
  cases action with
  | reserve i =>
    obtain ⟨s, hs, rfl⟩ := Option.map_eq_some_iff.mp h
    exact .quiet (.call (callMoves_of_reserve hs))
  | publish i memory env call =>
    obtain ⟨⟨s, issued⟩, hs, rfl⟩ := Option.map_eq_some_iff.mp h
    have hmoves := @Moves.station ι serde codec _ c i _ _ _ _ (.call (callMoves_of_publish hs))
    rw [List.append_nil] at hmoves
    exact hmoves
  | send i op =>
    obtain ⟨hop, hnext⟩ := Option.ite_none_right_eq_some.mp h
    cases hnext
    exact .quiet (.call (.send hop))
  | stop i =>
    obtain ⟨-, hnext⟩ := Option.ite_none_right_eq_some.mp h
    cases hnext
    exact .quiet (.events nofun)
  | shutdown i =>
    obtain ⟨-, h⟩ := Option.ite_none_left_eq_some.mp h
    obtain ⟨loop, hshutdown, rfl⟩ := Option.map_eq_some_iff.mp h
    unfold BroadcastLoop.shutdown at hshutdown
    split at hshutdown
    · next hphase =>
        cases hshutdown
        exact .quiet (.loop (.shutdown hphase))
    · cases hshutdown
  | endEvents i =>
    obtain ⟨-, hnext⟩ := Option.ite_none_right_eq_some.mp h
    cases hnext
    exact .quiet (.events nofun)
  | receive i => exact moves_of_receive h
  | tryRecv i => exact moves_of_tryRecv h
  | remember i fault => exact moves_of_remember h
  | snapshot i writers =>
    obtain ⟨hall, h⟩ := Option.ite_none_right_eq_some.mp h
    obtain ⟨loop, hsnapshot, rfl⟩ := Option.map_eq_some_iff.mp h
    unfold BroadcastLoop.snapshot at hsnapshot
    split at hsnapshot
    · next hphase =>
        cases hsnapshot
        exact .quiet (.loop (.snapshot hphase hall))
    · cases hsnapshot
  | push i failure => exact moves_of_push h
  | pull i addr failure =>
    cases h
    exact moves_of_sendMessageToAddr .pull
  | handle i fault failure => exact moves_of_handle h
  | read k => exact moves_of_read h
  | connect i j addrI addrJ format => exact moves_of_connect h
  | disconnect i addr =>
    simp only [step, disconnect] at h
    split at h
    · cases h
    · obtain ⟨p, -, rfl⟩ := Option.map_eq_some_iff.mp h
      exact .quiet (.hangUp (fun q => ⟨q.reading, rfl⟩) fun _ => ⟨false, rfl⟩)
  | cut k n =>
    cases h
    exact .cut k n

/-! ## Runs -/

theorem Moves.issued (hmoves : Moves serde codec c next) : c.issued <+: next.issued := by
  cases hmoves with
  | station i step => exact List.prefix_append _ _
  | reply | ignore | cut | connect => exact List.prefix_rfl

theorem Moves.proper (hmoves : Moves serde codec c next) (h : next.Proper) : c.Proper where
  ids := (hmoves.issued.sublist.map Op.id).nodup h.ids
  stamps := fun op hop => h.stamps op (hmoves.issued.subset hop)

/-- What every move of a proper run keeps holds at its end. -/
theorem run_keeps {P : Cluster ι → Prop} {actions : List (Action ι)} (hproper : next.Proper)
    (hstep : ∀ d d' : Cluster ι, Moves serde codec d d' → d'.Proper → P d → P d') (h : P c)
    (hrun : c.run serde codec actions = some next) : P next :=
  runSteps_keeps_back (fun _ _ _ hs => (moves_of_step hs).proper) hproper
    (fun _ _ _ hs => hstep _ _ (moves_of_step hs)) h hrun

theorem proper_of_run {actions : List (Action ι)} (hproper : next.Proper)
    (hrun : c.run serde codec actions = some next) : c.Proper :=
  runSteps_back (fun _ _ _ hs => (moves_of_step hs).proper) hrun hproper

end Cluster

end Numax
