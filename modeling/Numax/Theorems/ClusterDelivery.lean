import Numax.Theorems.ClusterSafety

/-!
# What is sent arrives

An operation that a node has remembered is on its way to a peer as long as the
connection to that peer stays up, the peer is not shut down and neither node counts a
sync error: it waits for the broadcast loop, is on the pipe, is in the peer's event
queue, or has been accepted (`Cluster.Reaches`). A peer that asks for the log is on its
way to everything the log holds (`Cluster.Requested`). So once the tasks have nothing
left to do, nothing is missing, whatever order they ran in. From the shutdown of the peer
on nothing is promised: its event loop ends before its connections are closed, and what
is read in between is dropped without an error.

* `Station.Later` and `Pipe.Later` say what only grows or only goes down along a run;
* `Moves.pipe`, `Moves.handled` and `Moves.dispatched` follow a message, an event and a
  batch through one move;
* the rest is an induction over the run, for connections that are up at its end.
-/

open Base Std

namespace Numax

/-! ## What only grows -/

/-- A station after some moves. -/
structure Station.Later (s s' : Station) : Prop where
  accepted : s.replica.accepted <+: s'.replica.accepted
  syncErrors : s.syncErrors ≤ s'.syncErrors
  batches : s.batches <+: s'.batches
  opLogLimit : s'.node.sync.opLogLimit = s.node.sync.opLogLimit
  events : s'.events = .running → s.events = .running

namespace Station.Later

theorem refl (s : Station) : s.Later s := ⟨List.prefix_rfl, le_rfl, List.prefix_rfl, rfl, id⟩

theorem trans {s s' s'' : Station} (h : s.Later s') (h' : s'.Later s'') : s.Later s'' :=
  ⟨h.accepted.trans h'.accepted, h.syncErrors.trans h'.syncErrors, h.batches.trans h'.batches,
    h'.opLogLimit.trans h.opLogLimit, fun hrunning => h.events (h'.events hrunning)⟩

/-- Changes that touch neither the history nor the node. -/
theorem of_eq {s s' : Station} (hreplica : s'.replica = s.replica)
    (herrors : s.syncErrors ≤ s'.syncErrors) (hbatches : s'.batches = s.batches)
    (hevents : s'.events = s.events) : s.Later s' where
  accepted := by rw [hreplica]
  syncErrors := herrors
  batches := by rw [hbatches]
  opLogLimit := by unfold Station.node; rw [hreplica]
  events := by rw [hevents]; exact id

end Station.Later

theorem Station.Step.later {ι : Type} {serde : Serde} {codec : PayloadCodec} {i : ι}
    {pipes pipes' : List (Pipe ι)} {s s' : Station} {issued remembered : List Op}
    (hstep : Station.Step serde codec i pipes s s' pipes' issued remembered) : s.Later s' := by
  cases hstep with
  | call moves =>
    obtain ⟨node, pending, inHand, unreported, queued, late, rfl, registries, opQueue, hsync⟩ :=
      moves.frame
    refine ⟨List.prefix_rfl, le_rfl, List.prefix_rfl, ?_, id⟩
    change node.sync.opLogLimit = s.node.sync.opLogLimit
    rw [hsync]
  | loop moves => exact ⟨List.prefix_rfl, le_rfl, List.prefix_rfl, rfl, id⟩
  | @remember fault _ node phase result =>
    refine ⟨List.prefix_append _ _, le_rfl, List.prefix_append _ _, ?_, id⟩
    rcases rememberOps_cases serde fault s.node remembered with ⟨e, herr⟩ | ⟨store, -, hok⟩
    · cases herr.symm.trans result
    · cases hok.symm.trans result
      rfl
  | drop phase => exact ⟨List.prefix_rfl, Nat.le_succ _, List.prefix_append _ _, rfl, id⟩
  | push failure phase encoded => cases failure <;> exact .of_eq rfl le_rfl rfl rfl
  | pushed | send | event | hangUp => exact .of_eq rfl le_rfl rfl rfl
  | pushFailed | sendFailed | unsent | applyFailed => exact .of_eq rfl (Nat.le_succ _) rfl rfl
  | @apply sender ops inbox fault node oldest result =>
    refine ⟨List.prefix_append _ _, le_rfl, List.prefix_rfl, ?_, id⟩
    rcases applyRemoteOps_cases serde fault s.node ops with
      ⟨-, hnothing⟩ | ⟨e, herr⟩ | ⟨store, -, hok⟩
    · cases hnothing.symm.trans result
      rfl
    · cases herr.symm.trans result
    · cases hok.symm.trans result
      rfl
  | events shutdown =>
    exact ⟨List.prefix_rfl, le_rfl, List.prefix_rfl, rfl,
      fun hrunning => absurd hrunning shutdown⟩

/-- A pipe after some moves: it goes down for good. -/
structure Pipe.Later {ι : Type} (p p' : Pipe ι) : Prop where
  dst : p'.dst = p.dst
  peerNodeId : p'.peerNodeId = p.peerNodeId
  addr : p'.addr = p.addr
  broken : p'.broken = false → p.broken = false

namespace Pipe.Later

variable {ι : Type} {p p' p'' : Pipe ι}

theorem refl (p : Pipe ι) : p.Later p := ⟨rfl, rfl, rfl, id⟩

theorem trans (h : p.Later p') (h' : p'.Later p'') : p.Later p'' :=
  ⟨h'.dst.trans h.dst, h'.peerNodeId.trans h.peerNodeId, h'.addr.trans h.addr,
    fun hb => h.broken (h'.broken hb)⟩

theorem write (p : Pipe ι) (bytes : Bytes) : p.Later (p.write bytes) := by
  unfold Pipe.write
  split
  · exact refl p
  · exact ⟨rfl, rfl, rfl, id⟩

theorem fail (p : Pipe ι) (bytes : Bytes) : p.Later (p.fail bytes) :=
  ⟨(write p bytes).dst, (write p bytes).peerNodeId, (write p bytes).addr, nofun⟩

end Pipe.Later

namespace Cluster

variable {ι : Type} [DecidableEq ι] {serde : Serde} {codec : PayloadCodec} {c next : Cluster ι}

theorem Moves.later (hmoves : Moves serde codec c next) (j : ι) :
    (c.station j).Later (next.station j) := by
  rcases hmoves.view j with ⟨issued, remembered, hstep⟩ | ⟨peers, heq, -⟩
  · exact hstep.later
  · rw [heq]
    exact .of_eq rfl le_rfl rfl rfl

theorem later_of_run {actions : List (Action ι)} (hrun : c.run serde codec actions = some next)
    (i : ι) : (c.station i).Later (next.station i) :=
  runSteps_keeps (P := fun d : Cluster ι => (c.station i).Later (d.station i)) (fun _ => True)
    (fun _ _ _ _ hs hstep => hs.trans ((moves_of_step hstep).later i)) (fun _ _ => trivial)
    (.refl _) hrun

end Cluster

/-! ## One message -/

section Message

variable {codec : PayloadCodec} {bytes rest : Bytes} {message : Message}

theorem InFlight.write (h : InFlight codec bytes message) {written : Message}
    {format : SerializationFormat} {frame : Bytes}
    (encoded : written.toBytesWithFormat codec format = .ok frame) :
    InFlight codec (bytes ++ frame) message := by
  obtain ⟨messages, hframes, hmem⟩ := h
  exact ⟨messages ++ [written], hframes.write encoded, List.mem_append_left _ hmem⟩

/-- A message that has been read is the one that is no longer on the way. -/
theorem InFlight.read (h : InFlight codec bytes message) {maxMessageSize : Nat}
    {format : SerializationFormat} {first : Message}
    (hread : readMessageWithFormat codec maxMessageSize bytes = (.ok (format, first), rest)) :
    message = first ∨ InFlight codec rest message := by
  obtain ⟨messages, hframes, hmem⟩ := h
  obtain ⟨messages', whole', rfl, hframes', -, hwhole⟩ := hframes.read List.prefix_rfl hread
  rcases List.mem_cons.mp hmem with rfl | hmem
  · exact .inl rfl
  · exact .inr ⟨messages', hwhole rfl ▸ hframes', hmem⟩

/-- Nothing is on the way on an empty pipe. -/
theorem not_inFlight_nil : ¬ InFlight codec [] message := by
  rintro ⟨messages, hframes, hmem⟩
  generalize hempty : ([] : Bytes) = bytes at hframes
  cases hframes with
  | nil => cases hmem
  | cons encoded hrest =>
    obtain ⟨payload, -, -, rfl⟩ := toBytesWithFormat_eq_ok.mp encoded
    -- a frame has at least its header
    exact absurd (congrArg List.length hempty) (by simp [frameBytes])

end Message

/-- A pipe after a move. While it is up and its reader is not shut down, what was on the
way still is, or has become an event of the reader. -/
structure Pipe.Follows {ι : Type} (codec : PayloadCodec) (station : ι → Station)
    (p p' : Pipe ι) : Prop where
  later : p.Later p'
  message : p'.broken = false → (station p.dst).events = .running → ∀ message,
    InFlight codec p.bytes message → InFlight codec p'.bytes message ∨
      ∀ event, readOutcome p.peerNodeId p.addr message = .event event →
        event ∈ (station p.dst).inbox

namespace Pipe.Follows

variable {ι : Type} {codec : PayloadCodec} {station : ι → Station} {p p' p'' : Pipe ι}

theorem refl (p : Pipe ι) : p.Follows codec station p := ⟨.refl p, fun _ _ _ h => .inl h⟩

theorem trans (h : p.Follows codec station p') (h' : p'.Follows codec station p'') :
    p.Follows codec station p'' where
  later := h.later.trans h'.later
  message := by
    intro hup hrunning message hmessage
    rcases h.message (h'.later.broken hup) hrunning message hmessage with hmessage | hevent
    · have hnext := h'.message hup (h.later.dst ▸ hrunning) message hmessage
      rw [h.later.peerNodeId, h.later.addr, h.later.dst] at hnext
      exact hnext
    · exact .inr hevent

/-- A pipe that has gone down. -/
theorem of_broken (h : p.Later p') (hbroken : p'.broken = true) : p.Follows codec station p' :=
  ⟨h, fun hup => absurd (hbroken.symm.trans hup) Bool.true_eq_false_eq_False⟩

theorem of_closes {f : Pipe ι → Pipe ι} (h : Closes f) (p : Pipe ι) :
    p.Follows codec station (f p) := by
  obtain ⟨reading, heq⟩ := h p
  rw [heq]
  exact of_broken ⟨rfl, rfl, rfl, nofun⟩ rfl

theorem write (p : Pipe ι) {message : Message} {format : SerializationFormat} {frame : Bytes}
    (encoded : message.toBytesWithFormat codec format = .ok frame) :
    p.Follows codec station (p.write frame) where
  later := .write p frame
  message := by
    intro hup _ m hm
    left
    unfold Pipe.write at hup ⊢
    split
    · exact hm
    · exact hm.write encoded

theorem read {maxMessageSize : Nat} {format : SerializationFormat} {message : Message}
    {bytes : Bytes}
    (hread : readMessageWithFormat codec maxMessageSize p.bytes = (.ok (format, message), bytes))
    (hevent : (station p.dst).events = .running → ∀ event,
      readOutcome p.peerNodeId p.addr message = .event event → event ∈ (station p.dst).inbox) :
    p.Follows codec station { p with bytes } where
  later := ⟨rfl, rfl, rfl, id⟩
  message := by
    intro _ hrunning m hm
    rcases hm.read hread with rfl | hm
    · exact .inr (hevent hrunning)
    · exact .inl hm

/-- What a change of one pipe means for any of them. -/
theorem modify {l : List (Pipe ι)} {i k : Nat} {f : Pipe ι → Pipe ι} (h : l[k]? = some p)
    (hf : ∀ q, l[i]? = some q → q.Follows codec station (f q)) :
    ∃ p', (l.modify i f)[k]? = some p' ∧ p.Follows codec station p' := by
  rw [List.getElem?_modify, h]
  by_cases hik : i = k
  · subst hik
    exact ⟨f p, by simp, hf p h⟩
  · exact ⟨p, by simp [hik], refl p⟩

/-- The same for two changes one after the other. -/
theorem modify_modify {l : List (Pipe ι)} {i j k : Nat} {f g : Pipe ι → Pipe ι}
    (h : l[k]? = some p) (hf : ∀ q, l[i]? = some q → q.Follows codec station (f q))
    (hg : ∀ q : Pipe ι, q.Follows codec station (g q)) :
    ∃ p', ((l.modify i f).modify j g)[k]? = some p' ∧ p.Follows codec station p' := by
  obtain ⟨p', hp', hfollows⟩ := modify h hf
  obtain ⟨p'', hp'', hfollows'⟩ := modify hp' fun q _ => hg q
  exact ⟨p'', hp'', hfollows.trans hfollows'⟩

end Pipe.Follows

namespace Cluster

variable {ι : Type} [DecidableEq ι] {serde : Serde} {codec : PayloadCodec} {c next : Cluster ι}

theorem Moves.pipe (hmoves : Moves serde codec c next) {k : Nat} {p : Pipe ι}
    (hpipe : c.pipes[k]? = some p) :
    ∃ p', next.pipes[k]? = some p' ∧ p.Follows codec next.station p' := by
  cases hmoves with
  | @station i s pipes issued remembered step =>
    cases step with
    | call | loop | remember | drop | pushed | pushFailed | unsent | apply | applyFailed
    | events =>
      exact ⟨p, hpipe, .refl p⟩
    | push failure phase encoded =>
      cases failure with
      | none => exact Pipe.Follows.modify hpipe fun q _ => .write q encoded
      | some n => exact Pipe.Follows.modify hpipe fun q _ => .of_broken (.fail q _) rfl
    | send asks peer encoded => exact Pipe.Follows.modify hpipe fun q _ => .write q encoded
    | sendFailed n asks encoded =>
      exact Pipe.Follows.modify hpipe fun q _ => .of_broken (.fail q _) rfl
    | @event m q format message bytes event pipe dst message_eq outcome =>
      refine Pipe.Follows.modify hpipe fun q' hq' => ?_
      cases pipe.symm.trans hq'
      refine .read message_eq fun _ event' houtcome => ?_
      cases outcome.symm.trans houtcome
      -- the event is now the last one of the reader
      change event ∈ (Function.update c.station i _ q.dst).inbox
      rw [dst, Function.update_self]
      exact List.mem_append_right _ List.mem_cons_self
    | hangUp first second =>
      exact Pipe.Follows.modify_modify hpipe (fun q _ => .of_closes first q)
        (.of_closes second)
  | @reply m q format message answer bytes frame pipe message_eq outcome encoded =>
    refine Pipe.Follows.modify_modify hpipe (fun q' hq' => ?_) fun q' => .write q' encoded
    cases pipe.symm.trans hq'
    exact .read message_eq fun _ event houtcome => by cases outcome.symm.trans houtcome
  | @ignore m q format message bytes pipe message_eq outcome =>
    refine Pipe.Follows.modify hpipe fun q' hq' => ?_
    cases pipe.symm.trans hq'
    -- a reader that is running has taken every event
    refine .read message_eq fun hrunning event houtcome => ?_
    rcases outcome with hnothing | hstopped
    · cases hnothing.symm.trans houtcome
    · exact absurd hrunning hstopped
  | connect entered empty =>
    exact ⟨p, (List.getElem?_append_left (List.getElem?_eq_some_iff.mp hpipe).1).trans hpipe,
      .refl p⟩
  | cut m n =>
    exact Pipe.Follows.modify hpipe fun q _ => .of_broken ⟨rfl, rfl, rfl, nofun⟩ rfl

/-! ## One event -/

end Cluster

/-- What can become of an event in a step of its station. -/
inductive Station.Handled {ι : Type} (codec : PayloadCodec) (pipes pipes' : List (Pipe ι))
    (s s' : Station) : NodeEvent → Prop
  | waiting {event : NodeEvent} (mem : event ∈ s'.inbox) : Handled codec pipes pipes' s s' event
  | error {event : NodeEvent} (more : s.syncErrors < s'.syncErrors) :
      Handled codec pipes pipes' s s' event
  | applied {sender : NodeId} {ops : List Op}
      (accepted : ∀ op ∈ ops, op.id ∈ s'.replica.accepted.map Op.id) :
      Handled codec pipes pipes' s s' (.opsReceived sender ops)
  | answered {sender : NodeId} {addr : String} {sinceOpId : Option String} {writer : Writer}
      {frame : Bytes} (peer : s.peers[addr]? = some writer)
      (encoded : (Message.pushOps (opLogSince s.node.sync.opLog sinceOpId)).toBytesWithFormat
        codec writer.format = .ok frame)
      (pipes_eq : pipes' = pipes.modify writer.pipe (Pipe.write frame)) :
      Handled codec pipes pipes' s s' (.pullRequested sender addr sinceOpId)

/-- After a batch has been applied all its ids are accepted ones. -/
theorem Station.Sound.mem_accepted {remembered : List Op} {s : Station} (h : s.Sound remembered)
    {ops pending : List Op} {node : Node} {op : Op} (hop : op ∈ ops) :
    op.id ∈ (s.replica.accept node ops pending).accepted.map Op.id := by
  change op.id ∈ (s.replica.accepted ++ freshOps s.node.sync.seenOps ops).map Op.id
  rw [List.map_append, List.mem_append, mem_map_id_freshOps]
  -- what has been seen was accepted at some time, the rest is new
  by_cases hseen : op.id ∈ s.node.sync.seenOps.ids
  · exact .inl (h.seen _ hseen)
  · exact .inr ⟨List.mem_map_of_mem hop, hseen⟩

theorem Station.Step.handled {ι : Type} {serde : Serde} {codec : PayloadCodec} {i : ι}
    {pipes pipes' : List (Pipe ι)} {s s' : Station} {issued remembered known : List Op}
    (hstep : Station.Step serde codec i pipes s s' pipes' issued remembered) (h : s.Sound known)
    {event : NodeEvent} (hevent : event ∈ s.inbox) : s.Handled codec pipes pipes' s' event := by
  cases hstep with
  | call moves =>
    obtain ⟨node, pending, inHand, unreported, queued, late, rfl, -⟩ := moves.frame
    exact .waiting hevent
  | loop | remember | drop | pushed | pushFailed | events | hangUp => exact .waiting hevent
  | push failure phase encoded => cases failure <;> exact .waiting hevent
  | send asks peer encoded =>
    cases asks with
    | pull => exact .waiting hevent
    | answer oldest =>
      rw [oldest] at hevent
      rcases List.mem_cons.mp hevent with rfl | hrest
      · exact .answered peer encoded rfl
      · exact .waiting hrest
  | sendFailed | unsent | applyFailed => exact .error (Nat.lt_succ_self _)
  | apply oldest result =>
    rw [oldest] at hevent
    rcases List.mem_cons.mp hevent with rfl | hrest
    · exact .applied fun op hop => h.mem_accepted hop
    · exact .waiting hrest
  | event pipe dst message_eq outcome => exact .waiting (List.mem_append_left _ hevent)

theorem Cluster.Moves.handled {ι : Type} [DecidableEq ι] {serde : Serde} {codec : PayloadCodec}
    {c next : Cluster ι} (hmoves : Moves serde codec c next) (h : c.Sound codec) {j : ι}
    {event : NodeEvent} (hevent : event ∈ (c.station j).inbox) :
    (c.station j).Handled codec c.pipes next.pipes (next.station j) event := by
  rcases hmoves.view j with ⟨issued, remembered, hstep⟩ | ⟨peers, heq, -⟩
  · exact hstep.handled (h.station j) hevent
  · exact .waiting (by rw [heq]; exact hevent)

/-! ## One batch -/

/-- The loop is going to write the operation to the pipe of the address. -/
def BroadcastPhase.Sends (addr : String) (pipe : Nat) (op : Op) :
    BroadcastPhase (String × Writer) → Prop
  | .remembered batch => op ∈ batch
  | .sending batch _ writers => op ∈ batch ∧ ∃ format, (addr, ⟨pipe, format⟩) ∈ writers
  | _ => False

/-- The writers are taken while the peer is in the table. -/
theorem LoopMoves.sends {peers : OrdMap String Writer}
    {loop loop' : BroadcastLoop (String × Writer)}
    {queue queue' : OpQueue} (moves : LoopMoves peers loop queue loop' queue') {addr : String}
    {pipe : Nat} {format : SerializationFormat} {op : Op} (h : loop.phase.Sends addr pipe op)
    (hpeer : peers[addr]? = some ⟨pipe, format⟩) : loop'.phase.Sends addr pipe op := by
  cases moves with
  | shutdown waiting => exact h
  | take waiting ops | finish waiting ops draining =>
    rw [waiting] at h
    exact h.elim
  | coalesce phase room ops | settle phase done =>
    rw [phase] at h
    exact h.elim
  | snapshot phase all =>
    -- the writers of all peers are taken, and this one is among them
    rw [phase] at h
    exact ⟨h, format, all.mem_iff.mpr ((OrdMap.mem_toList peers).mpr hpeer)⟩

/-- What can become of an operation that is to be written to a pipe. -/
inductive Station.Dispatched {ι : Type} (codec : PayloadCodec) (pipes pipes' : List (Pipe ι))
    (s s' : Station) (addr : String) (pipe : Nat) (op : Op) : Prop
  | waiting (sends : s'.loop.phase.Sends addr pipe op)
  | error (more : s.syncErrors < s'.syncErrors)
  | written {batch : List Op} {format : SerializationFormat} {frame : Bytes} (mem : op ∈ batch)
      (encoded : (Message.pushOps batch).toBytesWithFormat codec format = .ok frame)
      (pipes_eq : pipes' = pipes.modify pipe (Pipe.write frame))
  | failed {bytes : Bytes} (pipes_eq : pipes' = pipes.modify pipe (Pipe.fail bytes))

section Dispatch

variable {ι : Type} {serde : Serde} {codec : PayloadCodec} {i : ι} {pipes pipes' : List (Pipe ι)}
  {s s' : Station} {issued remembered : List Op}

theorem Station.Step.dispatched
    (hstep : Station.Step serde codec i pipes s s' pipes' issued remembered) {addr : String}
    {pipe : Nat} {format : SerializationFormat} {op : Op} (h : s.loop.phase.Sends addr pipe op)
    (hpeer : s.peers[addr]? = some ⟨pipe, format⟩) :
    s.Dispatched codec pipes pipes' s' addr pipe op := by
  cases hstep with
  | call moves =>
    obtain ⟨node, pending, inHand, unreported, queued, late, rfl, -⟩ := moves.frame
    exact .waiting h
  | apply | send | sendFailed | unsent | applyFailed | events | event | hangUp => exact .waiting h
  | loop moves => exact .waiting (moves.sends h hpeer)
  | remember phase result =>
    rw [phase] at h
    exact h.elim
  | drop phase =>
    rw [phase] at h
    exact h.elim
  | push failure phase encoded =>
    rw [phase] at h
    obtain ⟨hop, format', hmem⟩ := h
    rcases List.mem_cons.mp hmem with heq | hrest
    · -- it is the turn of the pipe
      cases heq
      cases failure with
      | none => exact .written hop encoded rfl
      | some n => exact .failed rfl
    · cases failure <;> exact .waiting ⟨hop, format', hrest⟩
  | pushed phase =>
    rw [phase] at h
    obtain ⟨-, format', hmem⟩ := h
    cases hmem
  | pushFailed phase => exact .error (Nat.lt_succ_self _)

/-! ## A connection that stays up -/

theorem Station.forget_peers {addr addr' : String} {pipe : Nat} {writer : Writer}
    (h : (s.forget addr' pipe).peers[addr]? = some writer) : s.peers[addr]? = some writer := by
  unfold Station.forget at h
  dsimp only at h
  split at h
  · rw [OrdMap.get_erase] at h
    exact (Option.ite_none_left_eq_some.mp h).2
  · exact h

/-- No step of a station enters a peer. -/
theorem Station.Step.peer
    (hstep : Station.Step serde codec i pipes s s' pipes' issued remembered) {addr : String}
    {writer : Writer} (h : s'.peers[addr]? = some writer) : s.peers[addr]? = some writer := by
  cases hstep with
  | call moves =>
    obtain ⟨node, pending, inHand, unreported, queued, late, rfl, -⟩ := moves.frame
    exact h
  | loop | remember | drop | pushed | pushFailed | send | unsent | apply | applyFailed | events
  | event => exact h
  | push failure phase encoded =>
    cases failure with
    | none => exact h
    | some n => exact forget_peers h
  | sendFailed | hangUp => exact forget_peers h

/-- A node's batches grow by one that is about to be sent, or that is dropped. -/
theorem Station.Step.batches
    (hstep : Station.Step serde codec i pipes s s' pipes' issued remembered) :
    s'.batches = s.batches ∨ (∃ batch, s'.batches = s.batches ++ [(batch, false)]) ∨
    ∃ batch, s'.batches = s.batches ++ [(batch, true)] ∧ s'.loop.phase = .remembered batch := by
  cases hstep with
  | call moves =>
    obtain ⟨node, pending, inHand, unreported, queued, late, rfl, -⟩ := moves.frame
    exact .inl rfl
  | remember phase result => exact .inr (.inr ⟨_, rfl, rfl⟩)
  | drop phase => exact .inr (.inl ⟨_, rfl⟩)
  | push failure phase encoded => cases failure <;> exact .inl rfl
  | _ => exact .inl rfl

end Dispatch

namespace Cluster

variable {ι : Type} [DecidableEq ι] {serde : Serde} {codec : PayloadCodec} {c next : Cluster ι}

theorem Moves.dispatched (hmoves : Moves serde codec c next) {i : ι} {addr : String} {pipe : Nat}
    {format : SerializationFormat} {op : Op} (h : (c.station i).loop.phase.Sends addr pipe op)
    (hpeer : (c.station i).peers[addr]? = some ⟨pipe, format⟩) :
    (c.station i).Dispatched codec c.pipes next.pipes (next.station i) addr pipe op := by
  rcases hmoves.view i with ⟨issued, remembered, hstep⟩ | ⟨peers, heq, -⟩
  · exact hstep.dispatched h hpeer
  · exact .waiting (by rw [heq]; exact h)

/-- Only a new connection comes into the table. -/
theorem Moves.peer (hmoves : Moves serde codec c next) {i : ι} {addr : String} {writer : Writer}
    (h : (next.station i).peers[addr]? = some writer) (hold : writer.pipe < c.pipes.length) :
    (c.station i).peers[addr]? = some writer := by
  rcases hmoves.view i with ⟨issued, remembered, hstep⟩ | ⟨peers, heq, hpeers⟩
  · exact hstep.peer h
  · rw [heq] at h
    exact hpeers addr writer h hold

theorem Moves.batches (hmoves : Moves serde codec c next) (i : ι) :
    (next.station i).batches = (c.station i).batches ∨
    (∃ batch, (next.station i).batches = (c.station i).batches ++ [(batch, false)]) ∨
    ∃ batch, (next.station i).batches = (c.station i).batches ++ [(batch, true)] ∧
      (next.station i).loop.phase = .remembered batch := by
  rcases hmoves.view i with ⟨issued, remembered, hstep⟩ | ⟨peers, heq, -⟩
  · exact hstep.batches
  · exact .inl (by rw [heq])

/-- Station `i` writes to station `j` over the pipe, at the address of its table, and the
events of `j` are handled. -/
def Up (c : Cluster ι) (i j : ι) (addr : String) (pipe : Nat) : Prop :=
  (∃ p, c.pipes[pipe]? = some p ∧ p.dst = j ∧ p.broken = false) ∧
    (∃ format, (c.station i).peers[addr]? = some ⟨pipe, format⟩) ∧
    (c.station j).events = .running

/-- Where an operation can be on its way from `i` to `j`. -/
inductive Reaches (codec : PayloadCodec) (c : Cluster ι) (i j : ι) (addr : String) (pipe : Nat)
    (op : Op) : Prop
  | sending (sends : (c.station i).loop.phase.Sends addr pipe op)
  | onWire {p : Pipe ι} {ops : List Op} (pipe_eq : c.pipes[pipe]? = some p)
      (inFlight : InFlight codec p.bytes (Message.pushOps ops)) (mem : op ∈ ops)
  | received {sender : NodeId} {ops : List Op}
      (event : .opsReceived sender ops ∈ (c.station j).inbox) (mem : op ∈ ops)
  | accepted (mem : op.id ∈ (c.station j).replica.accepted.map Op.id)

omit [DecidableEq ι] in
/-- A frame that is written to a pipe that is up is on its way. -/
theorem Sound.inFlight_write (h : c.Sound codec) {k : Nat} {p : Pipe ι}
    (hpipe : c.pipes[k]? = some p) (hup : p.broken = false) {message : Message}
    {format : SerializationFormat} {frame : Bytes}
    (encoded : message.toBytesWithFormat codec format = .ok frame) :
    InFlight codec (p.write frame).bytes message := by
  obtain ⟨messages, whole, hframes, -, -, hwhole⟩ := h.pipes p (List.mem_of_getElem? hpipe)
  rw [Pipe.write, if_neg (by rw [hup]; exact Bool.false_ne_true)]
  refine ⟨messages ++ [message], ?_, List.mem_append_right _ List.mem_cons_self⟩
  rw [← hwhole hup] at hframes
  exact hframes.write encoded

theorem Moves.up (hmoves : Moves serde codec c next) {i j : ι} {addr : String} {k : Nat}
    (hold : k < c.pipes.length) (h : next.Up i j addr k) : c.Up i j addr k := by
  obtain ⟨⟨p', hp', hdst, hup⟩, ⟨format, hpeer⟩, hrunning⟩ := h
  obtain ⟨p'', hp'', hfollows⟩ := hmoves.pipe (List.getElem?_eq_getElem hold)
  cases hp'.symm.trans hp''
  exact ⟨⟨_, List.getElem?_eq_getElem hold, hfollows.later.dst.symm.trans hdst,
    hfollows.later.broken hup⟩, ⟨format, hmoves.peer hpeer hold⟩, (hmoves.later j).events hrunning⟩

/-- As long as the connection is up and no error is counted, an operation stays on its
way. -/
theorem Moves.reaches (hmoves : Moves serde codec c next) (h : c.Sound codec) {i j : ι}
    {addr : String} {k : Nat} {op : Op} (hold : k < c.pipes.length) (hup : next.Up i j addr k)
    (herrI : (next.station i).syncErrors = (c.station i).syncErrors)
    (herrJ : (next.station j).syncErrors = (c.station j).syncErrors)
    (hop : c.Reaches codec i j addr k op) : next.Reaches codec i j addr k op := by
  obtain ⟨⟨p, hpipe, hdst, hbroken⟩, ⟨format, hpeer⟩, -⟩ := hmoves.up hold hup
  obtain ⟨⟨p', hp', -, hbroken'⟩, -, hrunning⟩ := hup
  -- one case for each place where the operation can be
  cases hop with
  | sending sends =>
    cases hmoves.dispatched sends hpeer with
    | waiting sends => exact .sending sends
    | error more => omega
    | written mem encoded pipes_eq =>
      refine .onWire (p := p.write _) ?_ (h.inFlight_write hpipe hbroken encoded) mem
      rw [pipes_eq, List.getElem?_modify, hpipe]
      simp
    | failed pipes_eq =>
      -- a write that has failed has taken the connection down
      rw [pipes_eq, List.getElem?_modify, hpipe] at hp'
      simp only [Option.map_eq_map, Option.map_some, ↓reduceIte, Option.some.injEq] at hp'
      rw [← hp'] at hbroken'
      cases hbroken'
  | @onWire q ops pipe_eq inFlight mem =>
    obtain ⟨q', hq', hfollows⟩ := hmoves.pipe pipe_eq
    cases hpipe.symm.trans pipe_eq
    cases hp'.symm.trans hq'
    rcases hfollows.message hbroken' (hdst.symm ▸ hrunning) _ inFlight with hflight | hevent
    · exact .onWire hq' hflight mem
    · have hinbox := hevent _ rfl
      rw [hdst] at hinbox
      exact .received hinbox mem
  | @received sender ops event mem =>
    cases hmoves.handled h event with
    | waiting mem' => exact .received mem' mem
    | error more => omega
    | applied accepted => exact .accepted (accepted op mem)
  | accepted mem =>
    refine .accepted ?_
    obtain ⟨o, ho, hid⟩ := List.mem_map.mp mem
    exact List.mem_map.mpr ⟨o, (hmoves.later j).accepted.subset ho, hid⟩

theorem Moves.old_lt (hmoves : Moves serde codec c next) {k : Nat} (hold : k < c.pipes.length) :
    k < next.pipes.length := by
  obtain ⟨p', hp', -⟩ := hmoves.pipe (List.getElem?_eq_getElem hold)
  exact (List.getElem?_eq_some_iff.mp hp').1

/-! ## Broadcasts -/

/-- What holds along a run for the batches that station `i` has remembered since. -/
structure Broadcasting (codec : PayloadCodec) (start : Cluster ι) (i j : ι) (addr : String)
    (k : Nat) (c : Cluster ι) : Prop where
  sound : c.Sound codec
  old : k < c.pipes.length
  errorsI : (start.station i).syncErrors ≤ (c.station i).syncErrors
  errorsJ : (start.station j).syncErrors ≤ (c.station j).syncErrors
  batches : (start.station i).batches.length ≤ (c.station i).batches.length
  reaches : c.Up i j addr k → (c.station i).syncErrors = (start.station i).syncErrors →
    (c.station j).syncErrors = (start.station j).syncErrors →
    ∀ batch, (batch, true) ∈ (c.station i).batches.drop (start.station i).batches.length →
      ∀ op ∈ batch, c.Reaches codec i j addr k op

theorem Moves.broadcasting (hmoves : Moves serde codec c next) (hproper : next.Proper)
    {start : Cluster ι} {i j : ι} {addr : String} {k : Nat}
    (h : Broadcasting codec start i j addr k c) : Broadcasting codec start i j addr k next where
  sound := hmoves.sound hproper h.sound
  old := hmoves.old_lt h.old
  errorsI := h.errorsI.trans (hmoves.later i).syncErrors
  errorsJ := h.errorsJ.trans (hmoves.later j).syncErrors
  batches := h.batches.trans (hmoves.later i).batches.length_le
  reaches := by
    intro hup herrI herrJ batch hbatch op hop
    -- the counts only grow, so they have not moved in this step either
    have hI := (hmoves.later i).syncErrors
    have hJ := (hmoves.later j).syncErrors
    have hbeforeI := h.errorsI
    have hbeforeJ := h.errorsJ
    have hold : ∀ b, (b, true) ∈ (c.station i).batches.drop (start.station i).batches.length →
        op ∈ b → next.Reaches codec i j addr k op := fun b hb hopb =>
      hmoves.reaches h.sound h.old hup (by omega) (by omega)
        (h.reaches (hmoves.up h.old hup) (by omega) (by omega) b hb op hopb)
    rcases hmoves.batches i with hsame | ⟨b, hdropped⟩ | ⟨b, hkept, hphase⟩
    · rw [hsame] at hbatch
      exact hold batch hbatch hop
    · rw [hdropped, List.drop_append_of_le_length h.batches] at hbatch
      rcases List.mem_append.mp hbatch with hbatch | hbatch
      · exact hold batch hbatch hop
      · cases List.mem_singleton.mp hbatch
    · rw [hkept, List.drop_append_of_le_length h.batches] at hbatch
      rcases List.mem_append.mp hbatch with hbatch | hbatch
      · exact hold batch hbatch hop
      · cases List.mem_singleton.mp hbatch
        refine .sending ?_
        rw [hphase]
        exact hop

/-- Nothing is left to do for the connection: the loop of `i` waits or has ended, the
pipe is empty and `j` has handled all events. -/
structure Drained (c : Cluster ι) (i j : ι) (k : Nat) : Prop where
  outgoing : (c.station i).loop.phase.outgoing = []
  pipe : ∀ p, c.pipes[k]? = some p → p.bytes = []
  inbox : (c.station j).inbox = []

omit [DecidableEq ι] in
theorem Reaches.accepted_of_drained {i j : ι} {addr : String} {k : Nat} {op : Op}
    (h : c.Reaches codec i j addr k op) (hdrained : c.Drained i j k) :
    op.id ∈ (c.station j).replica.accepted.map Op.id := by
  cases h with
  | sending sends =>
    have hout := hdrained.outgoing
    cases hphase : (c.station i).loop.phase with
    | remembered batch =>
      rw [hphase] at hout sends
      rw [show batch = [] from hout] at sends
      cases sends
    | sending batch failed writers =>
      rw [hphase] at hout sends
      obtain ⟨hop, -⟩ := sends
      rw [show batch = [] from hout] at hop
      cases hop
    | _ =>
      rw [hphase] at sends
      exact sends.elim
  | onWire pipe_eq inFlight mem =>
    rw [hdrained.pipe _ pipe_eq] at inFlight
    exact absurd inFlight not_inFlight_nil
  | received event mem =>
    rw [hdrained.inbox] at event
    cases event
  | accepted mem => exact mem

/-- **No lost update.** A connection is there at some moment of a run, and still up at a
later one, when the peer has not been asked to shut down. If neither node has counted a
sync error in between and nothing is left to do for the connection, then the peer has
accepted every operation that the node has remembered in between, in whatever order the
tasks of all nodes ran. -/
theorem broadcast_delivered (serde : Serde) (codec : PayloadCodec) {c₀ c₁ c₂ : Cluster ι}
    (hinit : c₀.Initial) {before actions : List (Action ι)}
    (hbefore : c₀.run serde codec before = some c₁)
    (hrun : c₁.run serde codec actions = some c₂) (hproper : c₂.Proper) {i j : ι} {addr : String}
    {k : Nat} (hconnected : k < c₁.pipes.length) (hup : c₂.Up i j addr k)
    (herrI : (c₂.station i).syncErrors = (c₁.station i).syncErrors)
    (herrJ : (c₂.station j).syncErrors = (c₁.station j).syncErrors)
    (hdrained : c₂.Drained i j k) {batch : List Op}
    (hbatch : (batch, true) ∈ (c₂.station i).batches.drop (c₁.station i).batches.length) :
    ∀ op ∈ batch, op.id ∈ (c₂.station j).replica.accepted.map Op.id := by
  have hstart : Broadcasting codec c₁ i j addr k c₁ :=
    { sound := sound_of_run hinit.sound (proper_of_run hproper hrun) hbefore
      old := hconnected
      errorsI := le_rfl
      errorsJ := le_rfl
      batches := le_rfl
      reaches := by
        intro _ _ _ b hb
        rw [List.drop_length] at hb
        cases hb }
  have hend : Broadcasting codec c₁ i j addr k c₂ :=
    run_keeps hproper (fun _ _ hmoves hp hs => hmoves.broadcasting hp hs) hstart hrun
  exact fun op hop =>
    (hend.reaches hup herrI herrJ batch hbatch op hop).accepted_of_drained hdrained

/-! ## Two stations -/

namespace PairQuiet

variable {c : Cluster Bool}

theorem pipe (h : PairQuiet c) {k : Nat} {dst : Bool} {addr : String}
    (hk : [(true, "a"), (false, "b")][k]? = some (dst, addr)) :
    ∃ p, c.pipes[k]? = some p ∧ p.dst = dst ∧ p.addr = addr ∧ p.bytes = [] ∧ p.broken = false := by
  obtain ⟨-, -, -, hpipes, hall⟩ := h
  rw [← hpipes, List.getElem?_map] at hk
  obtain ⟨p, hp, hview⟩ := Option.map_eq_some_iff.mp hk
  obtain ⟨hdst, haddr⟩ := Prod.mk.inj hview
  exact ⟨p, hp, hdst, haddr, hall p (List.mem_of_getElem? hp)⟩

theorem up_ab (h : PairQuiet c) : c.Up false true "b" 0 := by
  obtain ⟨p, hp, hdst, -, -, hbroken⟩ := h.pipe (k := 0) rfl
  exact ⟨⟨p, hp, hdst, hbroken⟩, ⟨.json, h.2.2.1.1⟩, (h.2.1 true).2.2.2.2.2.2.2⟩

theorem drained (h : PairQuiet c) (i j : Bool) (k : Nat) : c.Drained i j k where
  outgoing := (h.2.1 i).2.2.2.2.1
  pipe := fun p hp => (h.2.2.2.2 p (List.mem_of_getElem? hp)).1
  inbox := (h.2.1 j).2.2.1

end PairQuiet

/-- The operation that `a` has remembered since the two are connected is accepted by `b`. -/
theorem broadcast_delivered_pair : ∃ c₁ c₂ : Cluster Bool,
    pairStart.run jsonSerde jsonPayload [pairConnect] = some c₁ ∧
    c₁.run jsonSerde jsonPayload pairBroadcast = some c₂ ∧
    ∀ batch, (batch, true) ∈ (c₂.station false).batches.drop (c₁.station false).batches.length →
      ∀ op ∈ batch, op.id ∈ (c₂.station true).replica.accepted.map Op.id := by
  obtain ⟨c₂, hrun, hquiet⟩ := pairBroadcast_run
  obtain ⟨c₁, hconnect, hbroadcast⟩ := runSteps_append.mp
    (show runSteps _ _ ([pairConnect] ++ pairBroadcast) = some c₂ from hrun)
  have hpipes :
      (pairStart.run jsonSerde jsonPayload [pairConnect]).map (·.pipes.length) = some 2 := by
    decide +kernel
  rw [show pairStart.run jsonSerde jsonPayload [pairConnect] = some c₁ from hconnect] at hpipes
  have htwo : c₁.pipes.length = 2 := Option.some.inj hpipes
  refine ⟨c₁, c₂, hconnect, hbroadcast, fun batch hbatch => ?_⟩
  -- the counts were zero at the end, so they were zero all along
  have herr : ∀ b, (c₂.station b).syncErrors = (c₁.station b).syncErrors := by
    intro b
    have hlater := (later_of_run hbroadcast b).syncErrors
    rw [(hquiet.2.1 b).2.2.2.1] at hlater ⊢
    exact (Nat.le_zero.mp hlater).symm
  exact broadcast_delivered jsonSerde jsonPayload pairStart_initial hconnect hbroadcast
    hquiet.proper (htwo ▸ Nat.two_pos) hquiet.up_ab (herr false) (herr true)
    (hquiet.drained false true 0) hbatch

end Cluster

end Numax
