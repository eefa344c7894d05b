import Numax.Theorems.ConnectionTable

/-!
# The sync manager's view of the peers

The sync manager learns about connections from events that carry the number of peers
after a change of the map. The lock is released before the event is sent, so two events
can overtake each other. `PeerDisconnected` is handled by address alone: that of an
earlier connection takes away the later one at the same address, and the number that it
carries is out of date (`lateReport`). Inside the node the same situation is covered by
`remove_connection_if_current`.

As long as the events are sent in the order of the changes, the view converges. What is
kept by every step is that the last event on its way about an address says what is in
the map there (`Tracks`). An announcement that is given up was followed by another event
about the address.
-/

open Base Std

namespace Numax

/-- The last of the events about an address. -/
def lastAt (events : List PeerEvent) (addr : String) : Option PeerEvent :=
  events.reverse.find? fun event => event.addr = addr

theorem lastAt_append (first second : List PeerEvent) (addr : String) :
    lastAt (first ++ second) addr = (lastAt second addr).or (lastAt first addr) := by
  rw [lastAt, List.reverse_append, List.find?_append]
  rfl

theorem lastAt_singleton (event : PeerEvent) (addr : String) :
    lastAt [event] addr = if event.addr = addr then some event else none := by
  by_cases h : event.addr = addr <;> simp [lastAt, h]

variable {addr : String} {event : PeerEvent}

theorem lastAt_addr {events : List PeerEvent} (h : lastAt events addr = some event) :
    event.addr = addr := by
  simpa using List.find?_some h

theorem lastAt_isSome {events : List PeerEvent} (h : event ∈ events) :
    (lastAt events event.addr).isSome = true := by
  rw [lastAt, List.find?_isSome]
  exact ⟨event, List.mem_reverse.mpr h, decide_eq_true rfl⟩

/-- An event that others about the same address follow does not matter. -/
theorem lastAt_remove {first second : List PeerEvent} {later : PeerEvent} (hlater : later ∈ second)
    (haddr : later.addr = event.addr) (addr : String) :
    lastAt (first ++ event :: second) addr = lastAt (first ++ second) addr := by
  rw [← List.singleton_append, ← List.append_assoc, lastAt_append, lastAt_append first second,
    lastAt_append first [event], lastAt_singleton]
  split
  next heq =>
    have hsome := lastAt_isSome hlater
    rw [haddr, heq] at hsome
    obtain ⟨last, hlast⟩ := Option.isSome_iff_exists.mp hsome
    rw [hlast]
    rfl
  next => rw [Option.none_or]

/-- The event says what is in the map. -/
def PeerEvent.Reflects (peers : PeerTable) : PeerEvent → Prop
  | .peerConnected nodeId addr _ =>
    ∃ info, connectionInfo peers addr = some info ∧ info.identity.nodeId = nodeId
  | .peerDisconnected _ addr _ => peers[addr]? = none

variable {peers : PeerTable}

theorem PeerEvent.Reflects.of_get {peers' : PeerTable} (h : event.Reflects peers)
    (hsame : peers'[event.addr]? = peers[event.addr]?) :
    event.Reflects peers' := by
  cases event with
  | peerConnected nodeId addr count =>
    change peers'[addr]? = peers[addr]? at hsame
    obtain ⟨info, hinfo, hnode⟩ := h
    exact ⟨info, by rwa [connectionInfo, hsame], hnode⟩
  | peerDisconnected nodeId addr count => exact hsame.trans h

/-- Handling such an event settles its address. -/
theorem handleNodeEvent_settles {view : PeerView} (h : event.Reflects peers) :
    (handleNodeEvent peers view event).activeConnections[event.addr]?.isSome =
      peers[event.addr]?.isSome := by
  cases event with
  | peerConnected nodeId addr count =>
    obtain ⟨info, hinfo, hnode⟩ := h
    have hpresent : peers[addr]?.isSome = true := by
      cases hentry : peers[addr]? with
      | none =>
        rw [connectionInfo, hentry] at hinfo
        cases hinfo
      | some entry => rfl
    simp only [handleNodeEvent, PeerEvent.addr, hinfo, hnode, if_true, hpresent]
    rw [OrdMap.get_insert, if_pos rfl]
    rfl
  | peerDisconnected nodeId addr count =>
    change ((view.activeConnections.erase addr)[addr]?).isSome = peers[addr]?.isSome
    rw [OrdMap.get_erase, if_pos rfl, h]
    rfl

theorem handleNodeEvent_other {view : PeerView} (h : event.addr ≠ addr) :
    (handleNodeEvent peers view event).activeConnections[addr]? =
      view.activeConnections[addr]? := by
  cases event with
  | peerConnected nodeId other count =>
    unfold handleNodeEvent
    dsimp only
    split
    · split
      · exact OrdMap.get_insert_ne _ _ h
      · rfl
    · rfl
  | peerDisconnected nodeId other count =>
    exact (OrdMap.get_erase _ _ _).trans (if_neg h)

theorem handleNodeEvent_count (peers : PeerTable) (view : PeerView) (event : PeerEvent) :
    (handleNodeEvent peers view event).peersConnected = event.peersConnected := by
  cases event <;> rfl

/-- An announcement is of a connection in the map, or another event follows. -/
def Announced (peers : PeerTable) (owed : List OwedEvent) : Prop :=
  ∀ first current second, owed = first ++ current :: second → current.event.announces = true →
    (∃ entry, peers[current.event.addr]? = some entry ∧ entry.instanceId = current.instanceId) ∨
      ∃ later ∈ second, later.event.addr = current.event.addr

/-- A change at one address is followed by an event about it. -/
theorem Announced.concat {peers' : PeerTable} {owed : List OwedEvent} {last : OwedEvent}
    (h : Announced peers owed)
    (hpeers : ∀ addr : String, last.event.addr ≠ addr → peers'[addr]? = peers[addr]?)
    (hpresent : last.event.announces = true →
      ∃ entry, peers'[last.event.addr]? = some entry ∧ entry.instanceId = last.instanceId) :
    Announced peers' (owed ++ [last]) := by
  intro first current second hsplit hannounces
  rcases List.eq_nil_or_concat second with rfl | ⟨init, final, rfl⟩
  · obtain ⟨-, hsame⟩ := List.append_inj' hsplit rfl
    cases hsame
    exact .inl (hpresent hannounces)
  · rw [List.concat_eq_append, ← List.cons_append, ← List.append_assoc] at hsplit
    obtain ⟨hold, hsame⟩ := List.append_inj' hsplit rfl
    cases hsame
    by_cases haddr : last.event.addr = current.event.addr
    · exact .inr ⟨last, by simp, haddr⟩
    · rw [hpeers _ haddr]
      rcases h first current init hold hannounces with hentry | ⟨later, hmem, hlater⟩
      · exact .inl hentry
      · exact .inr ⟨later, by simp [hmem], hlater⟩

theorem Announced.tail {oldest : OwedEvent} {owed : List OwedEvent}
    (h : Announced peers (oldest :: owed)) : Announced peers owed := by
  intro first current second hsplit
  exact h (oldest :: first) current second (congrArg (oldest :: ·) hsplit)

/-- An event that another one about the same address follows is not needed. -/
theorem Announced.remove {first second : List OwedEvent} {removed later : OwedEvent}
    (h : Announced peers (first ++ removed :: second)) (hlater : later ∈ second)
    (haddr : later.event.addr = removed.event.addr) :
    Announced peers (first ++ second) := by
  intro front current back hnext hcurrent
  rcases List.append_eq_append_iff.mp hnext with ⟨rest, rfl, hrest⟩ | ⟨rest, hfront, hrest⟩
  · -- the event is after the removed one
    apply h (first ++ removed :: rest) current back _ hcurrent
    rw [hrest, List.append_assoc]
    rfl
  · -- the event is before, and what follows the removed one follows it too
    cases rest with
    | nil =>
      apply h (front ++ [removed]) current back _ hcurrent
      rw [hfront, List.append_nil, List.append_assoc]
      exact congrArg (front ++ removed :: ·) hrest.symm
    | cons current' rest =>
      cases hrest
      have hbefore : first ++ removed :: second =
          front ++ current :: (rest ++ removed :: second) := by
        rw [hfront, List.append_assoc]
        rfl
      rcases h front current _ hbefore hcurrent with hentry | ⟨next, hnext, hsame⟩
      · exact .inl hentry
      · rcases List.mem_append.mp hnext with hrest | htail
        · exact .inr ⟨next, List.mem_append_left _ hrest, hsame⟩
        · rcases List.mem_cons.mp htail with rfl | hback
          · exact .inr ⟨later, List.mem_append_right _ hlater, haddr.trans hsame⟩
          · exact .inr ⟨next, List.mem_append_right _ hback, hsame⟩

namespace Transport

variable {s s' : Transport} {a : TransportStep}

/-- The events that the sync manager has not handled, in the order of their sending. -/
def pending (s : Transport) : List PeerEvent := s.queue ++ s.owed.map OwedEvent.event

/-- The last event about an address reflects the map. -/
structure Tracks (s : Transport) : Prop where
  running : s.closed = false
  sound : s.Sound
  counted : s.pending.getLast?.elim s.view.peersConnected PeerEvent.peersConnected =
    connectedPeerCount s.peers
  settled : ∀ addr, lastAt s.pending addr = none →
    s.view.activeConnections[addr]?.isSome = s.peers[addr]?.isSome
  reflected : ∀ addr event, lastAt s.pending addr = some event → event.Reflects s.peers
  announced : Announced s.peers s.owed

theorem tracks_new (config : NodeConfig) : (new config).Tracks where
  running := rfl
  sound := sound_new config
  counted := by
    change 0 = connectedPeerCount ∅
    rw [connectedPeerCount_eq_size (by simp), ExtTreeMap.size_empty]
  settled _ _ := by simp [new]
  reflected _ _ h := by simp [new, pending, lastAt] at h
  announced _ _ _ h := by simp [new] at h

namespace Tracks

variable (h : s.Tracks)

include h

variable {owed : OwedEvent}

/-- A change of the map is noted at the end of the events. -/
theorem noted (hclosed : s'.closed = s.closed) (hsound : s'.Sound) (hqueue : s'.queue = s.queue)
    (hview : s'.view = s.view) (howed : s'.owed = s.owed ++ [owed])
    (hpeers : ∀ addr : String, owed.event.addr ≠ addr → s'.peers[addr]? = s.peers[addr]?)
    (hreflects : owed.event.Reflects s'.peers)
    (hcount : owed.event.peersConnected = connectedPeerCount s'.peers)
    (hpresent : owed.event.announces = true →
      ∃ entry, s'.peers[owed.event.addr]? = some entry ∧ entry.instanceId = owed.instanceId) :
    s'.Tracks := by
  have hpending : s'.pending = s.pending ++ [owed.event] := by
    rw [pending, pending, hqueue, howed, List.map_append, List.append_assoc]
    rfl
  have hlast : ∀ addr, lastAt s'.pending addr =
      if owed.event.addr = addr then some owed.event else lastAt s.pending addr := by
    intro addr
    rw [hpending, lastAt_append, lastAt_singleton]
    split <;> rfl
  refine ⟨hclosed.trans h.running, hsound, ?_, ?_, ?_, ?_⟩
  · rw [hpending, List.getLast?_append]
    exact hcount
  · intro addr hnone
    rw [hlast] at hnone
    split at hnone
    next => cases hnone
    next hne =>
      rw [hview, hpeers addr hne]
      exact h.settled addr hnone
  · intro addr event hsome
    rw [hlast] at hsome
    split at hsome
    next =>
      cases hsome
      exact hreflects
    next hne =>
      exact (h.reflected addr event hsome).of_get (lastAt_addr hsome ▸ hpeers addr hne)
  · rw [howed]
    exact h.announced.concat hpeers hpresent

/-- A step that changes neither the map nor the events nor the view. -/
theorem of_same (hclosed : s'.closed = s.closed) (hsound : s'.Sound) (hpeers : s'.peers = s.peers)
    (hqueue : s'.queue = s.queue) (howed : s'.owed = s.owed) (hview : s'.view = s.view) :
    s'.Tracks := by
  have hpending : s'.pending = s.pending := by rw [pending, pending, hqueue, howed]
  refine ⟨hclosed.trans h.running, hsound, ?_, ?_, ?_, ?_⟩
  · rw [hpending, hview, hpeers]
    exact h.counted
  · rw [hpending, hview, hpeers]
    exact h.settled
  · rw [hpending, hpeers]
    exact h.reflected
  · rw [howed, hpeers]
    exact h.announced

/-- The oldest event is sent. -/
theorem sent (found : s.owed[0]? = some owed)
    (hsound : Sound { s with owed := s.owed.eraseIdx 0, queue := s.queue ++ [owed.event] }) :
    Tracks { s with owed := s.owed.eraseIdx 0, queue := s.queue ++ [owed.event] } := by
  obtain ⟨rest, hrest⟩ : ∃ rest, s.owed = owed :: rest := by
    cases howed : s.owed with
    | nil =>
      rw [howed] at found
      cases found
    | cons first rest =>
      rw [howed] at found
      cases found
      exact ⟨rest, rfl⟩
  have hpending : pending { s with owed := s.owed.eraseIdx 0, queue := s.queue ++ [owed.event] } =
      s.pending := by
    rw [pending, pending, hrest, List.append_assoc]
    rfl
  refine ⟨h.running, hsound, ?_, ?_, ?_, ?_⟩
  · rw [hpending]
    exact h.counted
  · rw [hpending]
    exact h.settled
  · rw [hpending]
    exact h.reflected
  · have hannounced := h.announced
    rw [hrest] at hannounced
    change Announced s.peers (s.owed.eraseIdx 0)
    rw [hrest]
    exact hannounced.tail

/-- An announcement is given up. Its instance has left the map, so the event about that
follows. -/
theorem discarded {k : Nat} (found : s.owed[k]? = some owed)
    (hannounces : owed.event.announces = true) (hclosed : s.instanceClosed owed = true)
    (hsound : Sound { s with owed := s.owed.eraseIdx k }) :
    Tracks { s with owed := s.owed.eraseIdx k } := by
  obtain ⟨hlt, hget⟩ := List.getElem?_eq_some_iff.mp found
  have hsplit : s.owed = s.owed.take k ++ owed :: s.owed.drop (k + 1) := by
    rw [← hget, List.getElem_cons_drop, List.take_append_drop]
  have herase : s.owed.eraseIdx k = s.owed.take k ++ s.owed.drop (k + 1) :=
    List.eraseIdx_eq_take_drop_succ _ _
  generalize s.owed.take k = first at hsplit herase
  generalize s.owed.drop (k + 1) = second at hsplit herase
  -- the instance is gone, so that an event about its address follows
  obtain ⟨later, hlater, haddr⟩ : ∃ later ∈ second, later.event.addr = owed.event.addr := by
    rcases h.announced first owed second hsplit hannounces with ⟨entry, hentry, hinstance⟩ | hlater
    · have hnone : ¬∃ entry ∈ OrdMap.valuesAsc s.peers, entry.instanceId = owed.instanceId := by
        simpa [instanceClosed] using hclosed
      exact absurd ⟨entry, OrdMap.mem_valuesAsc.mpr ⟨_, hentry⟩, hinstance⟩ hnone
    · exact hlater
  have hold : s.pending = s.queue ++ first.map OwedEvent.event ++
      owed.event :: second.map OwedEvent.event := by
    rw [pending, hsplit, List.map_append, List.append_assoc]
    rfl
  have hnew : pending { s with owed := s.owed.eraseIdx k } =
      s.queue ++ first.map OwedEvent.event ++ second.map OwedEvent.event := by
    rw [pending, herase, List.map_append, List.append_assoc]
  -- which makes it the last one, now as before
  have hlast : ∀ addr, lastAt (pending { s with owed := s.owed.eraseIdx k }) addr =
      lastAt s.pending addr := by
    intro addr
    rw [hold, hnew]
    exact (lastAt_remove (List.mem_map_of_mem hlater) haddr addr).symm
  refine ⟨h.running, hsound, ?_, ?_, ?_, ?_⟩
  · have hcounted := h.counted
    have hne : second.map OwedEvent.event ≠ [] := List.ne_nil_of_mem (List.mem_map_of_mem hlater)
    rw [hold, List.getLast?_append_of_ne_nil _ (List.cons_ne_nil _ _),
      List.getLast?_cons_of_ne_nil hne] at hcounted
    rw [hnew, List.getLast?_append_of_ne_nil _ hne]
    exact hcounted
  · intro addr hnone
    exact h.settled addr (hlast addr ▸ hnone)
  · intro addr event hsome
    exact h.reflected addr event (hlast addr ▸ hsome)
  · change Announced s.peers (s.owed.eraseIdx k)
    rw [herase]
    exact Announced.remove (hsplit ▸ h.announced) hlater haddr

/-- The sync manager handles the oldest event. -/
theorem handled {rest : List PeerEvent} (found : s.queue = event :: rest)
    (hsound : Sound { s with queue := rest, view := handleNodeEvent s.peers s.view event }) :
    Tracks { s with queue := rest, view := handleNodeEvent s.peers s.view event } := by
  let next : Transport := { s with queue := rest, view := handleNodeEvent s.peers s.view event }
  have hpending : s.pending = [event] ++ next.pending := by
    rw [pending, found]
    rfl
  have hlast : ∀ addr, lastAt s.pending addr =
      (lastAt next.pending addr).or (if event.addr = addr then some event else none) := by
    intro addr
    rw [hpending, lastAt_append, lastAt_singleton]
  refine ⟨h.running, hsound, ?_, ?_, ?_, h.announced⟩
  · have hcounted := h.counted
    rw [hpending, List.getLast?_append] at hcounted
    change next.pending.getLast?.elim (handleNodeEvent s.peers s.view event).peersConnected _ = _
    rw [handleNodeEvent_count]
    cases hlater : next.pending.getLast? with
    | none =>
      rw [hlater] at hcounted
      exact hcounted
    | some later =>
      rw [hlater] at hcounted
      exact hcounted
  · intro addr hnone
    change lastAt next.pending addr = none at hnone
    have hbefore := hlast addr
    rw [hnone, Option.none_or] at hbefore
    split at hbefore
    next haddr =>
      subst haddr
      exact handleNodeEvent_settles (h.reflected _ event hbefore)
    next hne =>
      have hsettled := h.settled addr hbefore
      rw [← handleNodeEvent_other hne] at hsettled
      exact hsettled
  · intro addr later hsome
    change lastAt next.pending addr = some later at hsome
    apply h.reflected addr later
    rw [hlast, hsome, Option.some_or]

/-- Putting a connection into the map announces it. -/
theorem admitted {id : Nat} {task : Connection} {nodeId : NodeId} {format : SerializationFormat}
    {transportAddr : String} {slot : Permit}
    (hsound : Sound
      (s.admitPeer id task nodeId (s.entryOf id task nodeId format transportAddr slot))) :
    Tracks (s.admitPeer id task nodeId (s.entryOf id task nodeId format transportAddr slot)) := by
  let entry := s.entryOf id task nodeId format transportAddr slot
  have hentry : (s.admitPeer id task nodeId entry).peers[task.addr]? = some entry :=
    (OrdMap.get_insert _ _ _ _).trans (if_pos rfl)
  refine h.noted rfl hsound rfl rfl rfl ?_ ?_ rfl fun _ => ⟨entry, hentry, rfl⟩
  · intro addr hne
    exact OrdMap.get_insert_ne _ _ hne
  · have hinfo : connectionInfo (s.admitPeer id task nodeId entry).peers task.addr =
        entry.connectionInfo := by
      rw [connectionInfo, hentry]
      rfl
    exact ⟨_, hinfo, rfl⟩

/-- Taking an entry out of the map reports it. -/
theorem removed {entry : PeerEntry} {sender : Sender} {reported : Option NodeId}
    {tasks : List Connection} {writers : List (List (String × Nat))}
    (found : s.peers[addr]? = some entry)
    (reports : entry.state = .connected → entry.info.nodeId.isSome → reported.isSome)
    (hsound : Sound (s.takeOut sender addr entry reported tasks writers)) :
    Tracks (s.takeOut sender addr entry reported tasks writers) := by
  obtain ⟨peer, hadmitted⟩ := h.sound.admitted addr entry found
  have hreported := reports hadmitted.connected (by rw [hadmitted.info]; rfl)
  obtain ⟨nodeId, rfl⟩ := Option.isSome_iff_exists.mp hreported
  refine h.noted rfl hsound rfl rfl rfl ?_ ?_ rfl fun hannounces => nomatch hannounces
  · intro other hne
    exact (OrdMap.get_erase _ _ _).trans (if_neg hne)
  · exact (OrdMap.get_erase _ _ _).trans (if_pos rfl)

end Tracks

end Transport

/-- The step does not send an event before that of an earlier change. -/
def TransportStep.Ordered : TransportStep → Prop
  | .send k => k = 0
  | _ => True

namespace Transport

variable {s s' : Transport} {a : TransportStep}

theorem Tracks.step (h : s.Tracks) (hordered : a.Ordered) (hrunning : a ≠ .shutdown)
    (hstep : s.step a = some s') : s'.Tracks := by
  have hsound := (step_effect hstep).sound h.sound
  cases step_effect hstep with
  | admitted plain id task nodeId format transportAddr slot found ready => exact h.admitted hsound
  | rolledBack plain attempts id task slot found holds free =>
    exact h.of_same rfl hsound (OrdMap.erase_of_none (h.sound.absent free)) rfl rfl rfl
  | removed plain writers sender addr entry reported tasks found reports ends =>
    exact h.removed found reports hsound
  | sent k owed found =>
    cases hordered
    exact h.sent found hsound
  | discarded plain k owed found lost =>
    rcases lost with hclosed | ⟨hannounces, hinstance⟩
    · cases h.running.symm.trans hclosed
    · exact h.discarded found hannounces hinstance hsound
  | handled plain event rest found => exact h.handled found hsound
  | shutDown => exact absurd rfl hrunning
  | cleared plain closed => cases h.running.symm.trans closed
  | _ => exact h.of_same rfl hsound rfl rfl rfl rfl

/-! ## Convergence -/

/-- Nobody owes an event, and all events have been handled. -/
def Quiet (s : Transport) : Prop := s.owed = [] ∧ s.queue = []

/-- The view is that of the map. -/
def ViewAgrees (s : Transport) : Prop :=
  (∀ addr, addr ∈ s.view.activeConnections ↔ addr ∈ s.peers) ∧
    s.view.peersConnected = connectedPeerCount s.peers

theorem Tracks.viewAgrees (h : s.Tracks) (hquiet : s.Quiet) : s.ViewAgrees := by
  obtain ⟨howed, hqueue⟩ := hquiet
  have hpending : s.pending = [] := by
    rw [pending, howed, hqueue]
    rfl
  constructor
  · intro addr
    have hsettled := h.settled addr (by rw [hpending]; rfl)
    rw [ExtTreeMap.mem_iff_isSome_getElem?, ExtTreeMap.mem_iff_isSome_getElem?, hsettled]
  · have hcounted := h.counted
    rw [hpending] at hcounted
    exact hcounted

/-- **The view converges** along every run of a node that is not shut down and whose
events are sent in the order of the changes. -/
theorem orderedRun_viewAgrees {config : NodeConfig} {steps : List TransportStep}
    (hrun : (new config).run steps = some s) (hrunning : .shutdown ∉ steps)
    (hordered : ∀ a ∈ steps, a.Ordered) (hquiet : s.Quiet) : s.ViewAgrees := by
  have htracks := runSteps_keeps (fun a => a.Ordered ∧ a ≠ .shutdown)
    (fun _ _ _ hallowed h hstep => Tracks.step h hallowed.1 hallowed.2 hstep)
    (fun a ha => ⟨hordered a ha, fun heq => hrunning (heq ▸ ha)⟩) (tracks_new config) hrun
  exact htracks.viewAgrees hquiet

def helloAckFrom (nodeId : NodeId) : Message := ⟨.helloAck nodeId protocolVersion .bincode⟩

/-- A connection that is lost and made again, with the reports in order. -/
def promptReport : List TransportStep :=
  [.connect "peer:9000", .ackReceived 0 "10.0.0.2:9000" (helloAckFrom "a") true, .insert 0,
    .send 0, .callerLeft 0, .handle, .readerExit 0,
    .connect "peer:9000", .ackReceived 1 "10.0.0.2:9000" (helloAckFrom "a") true, .insert 1,
    .send 0, .send 0, .callerLeft 1, .handle, .handle]

theorem promptReport_viewAgrees :
    ∃ s, (new twoPeers).run promptReport = some s ∧ s.Quiet ∧ s.ViewAgrees := by
  have hend : ((new twoPeers).run promptReport).any (fun s =>
      decide (s.owed = []) && decide (s.queue = [])) = true := by decide +kernel
  obtain ⟨s, hrun, hs⟩ := (Option.any_eq_true _ _).mp hend
  rw [Bool.and_eq_true, decide_eq_true_eq, decide_eq_true_eq] at hs
  refine ⟨s, hrun, hs, orderedRun_viewAgrees hrun ?_ ?_ hs⟩
  · simp [promptReport]
  · simp [promptReport, TransportStep.Ordered]

/-- The same when the reader is late with its report. -/
def lateReport : List TransportStep :=
  [.connect "peer:9000", .ackReceived 0 "10.0.0.2:9000" (helloAckFrom "a") true, .insert 0,
    .send 0, .callerLeft 0, .handle, .readerExit 0,
    .connect "peer:9000", .ackReceived 1 "10.0.0.2:9000" (helloAckFrom "a") true, .insert 1,
    .send 1, .callerLeft 1, .handle, .send 0, .handle]

theorem lateReport_viewDiffers :
    ∃ s, (new twoPeers).run lateReport = some s ∧ .shutdown ∉ lateReport ∧ s.Quiet ∧
      ("peer:9000" ∈ s.peers ∧ "peer:9000" ∉ s.view.activeConnections) ∧
      (connectedPeerCount s.peers = 1 ∧ s.view.peersConnected = 0) ∧ ¬s.ViewAgrees := by
  have hend : ((new twoPeers).run lateReport).any (fun s =>
      decide (s.owed = []) && decide (s.queue = []) && s.peers.contains "peer:9000" &&
        !s.view.activeConnections.contains "peer:9000" &&
        decide (connectedPeerCount s.peers = 1) && decide (s.view.peersConnected = 0)) = true := by
    decide +kernel
  obtain ⟨s, hrun, hs⟩ := (Option.any_eq_true _ _).mp hend
  simp only [Bool.and_eq_true, decide_eq_true_eq, Bool.not_eq_true'] at hs
  obtain ⟨⟨⟨⟨⟨howed, hqueue⟩, hmem⟩, hnot⟩, hcount⟩, hgauge⟩ := hs
  have hlost : "peer:9000" ∉ s.view.activeConnections := by
    rw [ExtTreeMap.mem_iff_contains, hnot]
    exact Bool.false_ne_true
  exact ⟨s, hrun, by simp [lateReport], ⟨howed, hqueue⟩, ⟨hmem, hlost⟩, ⟨hcount, hgauge⟩,
    fun hagrees => hlost ((hagrees.1 _).mpr hmem)⟩

end Transport

end Numax
