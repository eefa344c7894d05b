import Numax.Net.Connections

/-!
# What a step can do to the connection table

`Effect` lists what a step does to the map, the permits, the tasks and the events, and
`step_effect` says that this is all. The invariants are proved over the effects.

`Sound` is kept by every step: an entry belongs to a running task that was connected
under the same address, and every permit is in the semaphore, with a task that has not
reached the map, or with an entry.
-/

open Base Std

namespace Numax

/-! ## Small facts about the map -/

variable {peers : PeerTable}

theorem removeConnectionIfCurrent_eq_some {rest : PeerTable} {addr : String} {instanceId : Nat}
    {removed : PeerEntry} :
    removeConnectionIfCurrent peers addr instanceId = some (removed, rest) ↔
      peers[addr]? = some removed ∧ removed.instanceId = instanceId ∧ peers.erase addr = rest := by
  unfold removeConnectionIfCurrent
  split
  next h => simp [h]
  next entry h =>
    rw [h]
    split
    next heq =>
      constructor
      · rintro ⟨⟩
        exact ⟨rfl, heq, rfl⟩
      · rintro ⟨⟨⟩, -, rfl⟩
        rfl
    next hne =>
      constructor
      · rintro ⟨⟩
      · rintro ⟨⟨⟩, heq, -⟩
        exact absurd heq hne

theorem removeConnectionIfCurrent_eq_none {addr : String} {instanceId : Nat} :
    removeConnectionIfCurrent peers addr instanceId = none ↔
      ∀ entry, peers[addr]? = some entry → entry.instanceId ≠ instanceId := by
  constructor
  · intro hnone entry hentry heq
    have hsome := removeConnectionIfCurrent_eq_some.mpr ⟨hentry, heq, rfl⟩
    rw [hnone] at hsome
    cases hsome
  · intro hother
    cases h : removeConnectionIfCurrent peers addr instanceId with
    | none => rfl
    | some found =>
      obtain ⟨hentry, heq, -⟩ := removeConnectionIfCurrent_eq_some.mp h
      exact absurd heq (hother _ hentry)

theorem isConnectedAddr_eq_false {addr : String} :
    isConnectedAddr peers addr = false ↔
      ∀ entry, peers[addr]? = some entry → entry.state ≠ .connected := by
  unfold isConnectedAddr
  cases peers[addr]? <;> simp

/-- As long as every entry is connected, all of them count. -/
theorem connectedPeerCount_eq_size
    (h : ∀ (addr : String) (entry : PeerEntry), peers[addr]? = some entry →
      entry.state = .connected) :
    connectedPeerCount peers = peers.size := by
  have hall : ∀ entry ∈ OrdMap.valuesAsc peers, decide (entry.state = .connected) = true := by
    intro entry hentry
    obtain ⟨addr, haddr⟩ := OrdMap.mem_valuesAsc.mp hentry
    exact decide_eq_true (h addr entry haddr)
  rw [connectedPeerCount, List.filter_eq_self.mpr hall, OrdMap.length_valuesAsc]

/-- The steps of a task from one phase to the next, before the map. -/
inductive ConnectionPhase.Next : ConnectionPhase → ConnectionPhase → Prop where
  | greeted (nodeId format slot) : Next (.opening slot) (.greeted nodeId format slot)
  | acknowledging (nodeId format slot) :
      Next (.greeted nodeId format slot) (.acknowledging nodeId format slot)
  | acknowledged (nodeId format addr slot) :
      Next (.acknowledging nodeId format slot) (.verified nodeId format addr slot)
  | answered (nodeId format addr slot) : Next (.dialing slot) (.verified nodeId format addr slot)

variable {phase : ConnectionPhase}

theorem ConnectionPhase.Next.slot_eq {next : ConnectionPhase} (h : phase.Next next) :
    ∃ slot, phase.slot = some slot ∧ next.slot = some slot := by
  cases h <;> exact ⟨_, rfl, rfl⟩

/-- Neither hands over an event nor shuts the node down. -/
def TransportStep.plain : TransportStep → Bool
  | .send _ | .shutdown => false
  | _ => true

namespace Transport

variable {s s' : Transport} {a : TransportStep}

/-- The node without an entry, whose disconnection may be reported. -/
abbrev takeOut (s : Transport) (sender : Sender) (addr : String) (entry : PeerEntry)
    (reported : Option NodeId) (tasks : List Connection)
    (writers : List (List (String × Nat))) : Transport :=
  { s with
    peers := s.peers.erase addr
    available := s.available + entry.slot.permits
    owed := s.owed ++ (reported.map fun nodeId => ⟨sender, entry.instanceId,
      .peerDisconnected nodeId addr (connectedPeerCount (s.peers.erase addr))⟩).toList
    tasks
    writers }

/-- What a step can do. Who may call `connect_to_peer`, and which writes are under way,
is left open. -/
inductive Effect (s : Transport) : TransportStep → Transport → Prop where
  | idle {a : TransportStep} (plain : a.plain = true) (attempts writers) :
      Effect s a { s with attempts, writers }
  | started {a : TransportStep} (plain : a.plain = true) (attempts addr direction phase)
      (waits : phase = .opening ⟨1⟩ ∨ phase = .dialing ⟨1⟩) (free : s.available ≠ 0) :
      Effect s a { s with
        available := s.available - 1, attempts, tasks := s.tasks ++ [⟨addr, direction, phase⟩] }
  | advanced {a : TransportStep} (plain : a.plain = true) (id task phase)
      (found : s.tasks[id]? = some task) (next : task.phase.Next phase) :
      Effect s a (s.setPhase id phase)
  | refused {a : TransportStep} (plain : a.plain = true) (attempts id task slot)
      (found : s.tasks[id]? = some task) (holds : task.phase.slot = some slot) :
      Effect s a { s.setPhase id .refused with
        available := s.available + slot.permits, attempts }
  | admitted {a : TransportStep} (plain : a.plain = true) (id task nodeId format transportAddr slot)
      (found : s.tasks[id]? = some task)
      (ready : task.phase = .verified nodeId format transportAddr slot) :
      Effect s a (s.admitPeer id task nodeId (s.entryOf id task nodeId format transportAddr slot))
  | rolledBack {a : TransportStep} (plain : a.plain = true) (attempts id task slot)
      (found : s.tasks[id]? = some task) (holds : task.phase.slot = some slot)
      (free : isConnectedAddr s.peers task.addr = false) :
      Effect s a { s.setPhase id .refused with
        peers := s.peers.erase task.addr
        available := s.available +
          (s.peers[task.addr]?.elim 0 fun replaced => replaced.slot.permits) + slot.permits
        attempts }
  | left {a : TransportStep} (plain : a.plain = true) (id task nodeId)
      (found : s.tasks[id]? = some task) (runs : task.phase = .running nodeId)
      (gone : ∀ entry, s.peers[task.addr]? = some entry → entry.instanceId ≠ id) :
      Effect s a (s.setPhase id .ended)
  | removed {a : TransportStep} (plain : a.plain = true) (writers sender addr entry)
      (reported : Option NodeId) (tasks : List Connection)
      (found : s.peers[addr]? = some entry)
      (reports : entry.state = .connected → entry.info.nodeId.isSome → reported.isSome)
      (ends : tasks = s.tasks ∨
        tasks = s.tasks.modify entry.instanceId fun task => { task with phase := .ended }) :
      Effect s a (s.takeOut sender addr entry reported tasks writers)
  | sent (k owed) (found : s.owed[k]? = some owed) :
      Effect s (.send k) { s with owed := s.owed.eraseIdx k, queue := s.queue ++ [owed.event] }
  | discarded {a : TransportStep} (plain : a.plain = true) (k owed) (found : s.owed[k]? = some owed)
      (lost : s.closed = true ∨ owed.event.announces = true ∧ s.instanceClosed owed = true) :
      Effect s a { s with owed := s.owed.eraseIdx k }
  | handled {a : TransportStep} (plain : a.plain = true) (event rest)
      (found : s.queue = event :: rest) :
      Effect s a { s with queue := rest, view := handleNodeEvent s.peers s.view event }
  | shutDown : Effect s .shutdown { s with closed := true }
  | cleared {a : TransportStep} (plain : a.plain = true) (closed : s.closed = true) :
      Effect s a { s with
        peers := ∅
        available := s.available +
          ((OrdMap.valuesAsc s.peers).map fun entry => entry.slot.permits).sum }

/-! ## Every step has one of the effects -/

theorem returned_eq (id : Nat) (task : Connection) :
    ∃ attempts, s.returned id task = { s with attempts } := by
  unfold returned
  split
  · exact ⟨_, rfl⟩
  · exact ⟨s.attempts, rfl⟩

variable {slot : Permit} {transportAddr : String} {nodeId : NodeId}

section Effects

variable (plain : a.plain = true)

include plain

theorem returned_effect {id : Nat} {task : Connection} : Effect s a (s.returned id task) := by
  obtain ⟨attempts, heq⟩ := returned_eq id task
  rw [heq]
  exact .idle plain attempts s.writers

theorem refuse_effect {id : Nat} {task : Connection} (found : s.tasks[id]? = some task)
    (holds : task.phase.slot = some slot) :
    Effect s a (s.refuse id task) := by
  unfold refuse
  obtain ⟨attempts, heq⟩ := returned_eq id task
  rw [heq, holds]
  exact .refused plain attempts id task slot found holds

theorem accept_effect (addr : String) : Effect s a (s.accept addr) := by
  unfold accept tryAcquire
  split
  next => exact .idle plain s.attempts s.writers
  next slot t h =>
    split at h
    next => cases h
    next hopen =>
      cases h
      exact .started plain s.attempts addr .inbound _ (.inl rfl) (not_or.mp hopen).2

theorem connect_effect (addr : String) : Effect s a (s.connect addr) := by
  unfold connect
  split
  next t h =>
    -- one line for each reason to refuse the attempt
    unfold startConnect tryAcquire at h
    split at h; · cases h
    split at h; · cases h
    split at h; · cases h
    split at h; · cases h
    split at h
    next => cases h
    next hacquire =>
      split at hacquire
      next => cases hacquire
      next hopen =>
        cases hacquire
        cases h
        exact .started plain _ addr .outbound _ (.inr rfl) (not_or.mp hopen).2
  next => exact .idle plain s.attempts s.writers

theorem firstMessage_effect {id : Nat} {message : WireMessage} {identityVerified : Bool}
    (h : s.firstMessage id message identityVerified = some s') : Effect s a s' := by
  unfold firstMessage at h
  split at h
  next task found =>
    split at h
    next slot hphase =>
      have holds : task.phase.slot = some slot := by rw [hphase]; rfl
      split at h
      next nodeId format _ =>
        split at h
        · cases h
          exact .advanced plain id task _ found (hphase ▸ .greeted nodeId format slot)
        · cases h
          exact refuse_effect plain found holds
      next =>
        cases h
        exact refuse_effect plain found holds
    next => cases h
  next => cases h

theorem checkRoom_effect {id : Nat} (h : s.checkRoom id = some s') : Effect s a s' := by
  unfold checkRoom at h
  split at h
  next task found =>
    split at h
    next nodeId format slot hphase =>
      split at h
      next =>
        cases h
        exact .advanced plain id task _ found (hphase ▸ .acknowledging nodeId format slot)
      next =>
        cases h
        exact refuse_effect plain found (by rw [hphase]; rfl)
    next => cases h
  next => cases h

theorem ackWritten_effect {id : Nat} (h : s.ackWritten id = some s') : Effect s a s' := by
  unfold ackWritten at h
  split at h
  next task found =>
    split at h
    next nodeId format slot hphase =>
      cases h
      exact .advanced plain id task _ found (hphase ▸ .acknowledged nodeId format task.addr slot)
    next => cases h
  next => cases h

theorem ackReceived_effect {id : Nat} {message : Message} {identityVerified : Bool}
    (h : s.ackReceived id transportAddr message identityVerified = some s') : Effect s a s' := by
  unfold ackReceived at h
  split at h
  next task found =>
    split at h
    next slot hphase =>
      have holds : task.phase.slot = some slot := by rw [hphase]; rfl
      split at h
      next nodeId format _ =>
        split at h
        · cases h
          exact .advanced plain id task _ found
            (hphase ▸ .answered nodeId format transportAddr slot)
        · cases h
          exact refuse_effect plain found holds
      next =>
        cases h
        exact refuse_effect plain found holds
    next => cases h
  next => cases h

/-- What was put in under the address and taken out again is gone, with what it replaced. -/
theorem rollBack_effect {id : Nat} {task : Connection} {format : SerializationFormat}
    (found : s.tasks[id]? = some task) (holds : task.phase.slot = some slot)
    (free : isConnectedAddr s.peers task.addr = false) :
    Effect s a ((((s.place task.addr
      (s.entryOf id task nodeId format transportAddr slot)).removeCurrent (.task id) task.addr id
        fun _ => none).setPhase id .refused).returned id task) := by
  let entry := s.entryOf id task nodeId format transportAddr slot
  have hremove : removeConnectionIfCurrent (s.place task.addr entry).peers task.addr id =
      some (entry, s.peers.erase task.addr) := by
    rw [removeConnectionIfCurrent_eq_some]
    refine ⟨?_, rfl, ?_⟩
    · exact (OrdMap.get_insert _ _ _ _).trans (if_pos rfl)
    · -- the address is empty afterwards, whatever was there before
      apply ExtTreeMap.ext_getElem?
      intro addr
      change ((s.peers.insert task.addr entry).erase task.addr)[addr]? = _
      rw [OrdMap.get_erase, OrdMap.get_erase, OrdMap.get_insert]
      split <;> rfl
  obtain ⟨attempts, heq⟩ := returned_eq id task
  rw [heq, removeCurrent, hremove]
  dsimp only [Option.map, Option.toList]
  rw [List.append_nil]
  exact .rolledBack plain attempts id task slot found holds free

theorem insert_effect {id : Nat} (h : s.insert id = some s') : Effect s a s' := by
  unfold Transport.insert at h
  split at h
  next task found =>
    split at h
    next nodeId format transportAddr slot hphase =>
      have holds : task.phase.slot = some slot := by rw [hphase]; rfl
      dsimp only at h
      split at h
      next =>
        cases h
        exact refuse_effect plain found holds
      next hdial =>
        split at h
        next =>
          cases h
          exact refuse_effect plain found holds
        next =>
          split at h
          next hclosed =>
            -- closed in the meantime: the new entry is taken out again
            cases h
            have free : isConnectedAddr s.peers task.addr = false :=
              Bool.eq_false_iff.mpr fun hconnected => hdial ⟨hclosed.1, hconnected⟩
            exact rollBack_effect plain found holds free
          next =>
            cases h
            exact .admitted plain id task nodeId format transportAddr slot found hphase
    next => cases h
  next => cases h

theorem callerLeft_effect {id : Nat} (h : s.callerLeft id = some s') : Effect s a s' := by
  unfold callerLeft at h
  split at h
  next task found =>
    split at h
    next =>
      split at h
      next slot holds =>
        cases h
        exact refuse_effect plain found holds
      next =>
        cases h
        exact returned_effect plain
    next => cases h
  next => cases h

theorem failed_effect {id : Nat} (h : s.failed id = some s') : Effect s a s' := by
  unfold failed at h
  split at h
  next task found =>
    split at h
    next slot holds =>
      cases h
      exact refuse_effect plain found holds
    next => cases h
  next => cases h

theorem readerExit_effect {id : Nat} (h : s.readerExit id = some s') : Effect s a s' := by
  unfold readerExit at h
  split at h
  next task found =>
    split at h
    next nodeId hphase =>
      split at h
      next => cases h
      next =>
        cases h
        unfold removeCurrent
        split
        next hnone =>
          -- the address belongs to a newer connection
          exact .left plain id task nodeId found hphase
            (removeConnectionIfCurrent_eq_none.mp hnone)
        next removed rest hsome =>
          obtain ⟨hentry, rfl, rfl⟩ := removeConnectionIfCurrent_eq_some.mp hsome
          refine .removed plain s.writers (.task removed.instanceId) task.addr removed
            (if removed.state = .connected then some nodeId else none) _ hentry ?_ (.inr rfl)
          intro hconnected _
          rw [if_pos hconnected]
          rfl
    next => cases h
  next => cases h

theorem wrote_effect {id : Nat} {ok : Bool} (h : s.wrote id ok = some s') : Effect s a s' := by
  unfold wrote at h
  split at h
  next addr instanceId rest _ =>
    split at h
    next => cases h
    next =>
      cases h
      cases ok with
      | true => exact .idle plain s.attempts _
      | false =>
        rw [if_neg Bool.false_ne_true]
        unfold markPeerFailed removeCurrent
        split
        next => exact .idle plain s.attempts _
        next removed rest hsome =>
          obtain ⟨hentry, rfl, rfl⟩ := removeConnectionIfCurrent_eq_some.mp hsome
          refine .removed plain _ (.writer id) addr removed
            (if removed.state = .connected then removed.info.nodeId else none) s.tasks hentry ?_
            (.inl rfl)
          intro hconnected hnode
          rwa [if_pos hconnected]
  next => cases h

theorem discard_effect {k : Nat} (h : s.discard k = some s') : Effect s a s' := by
  unfold discard at h
  split at h
  next owed found =>
    split at h
    next hlost =>
      cases h
      rw [Bool.or_eq_true, Bool.and_eq_true] at hlost
      exact .discarded plain k owed found hlost
    next => cases h
  next => cases h

theorem handle_effect (h : s.handle = some s') : Effect s a s' := by
  unfold handle at h
  split at h
  next event rest found =>
    cases h
    exact .handled plain event rest found
  next => cases h

theorem clear_effect (h : s.clear = some s') : Effect s a s' := by
  unfold clear at h
  split at h
  next hclosed =>
    cases h
    exact .cleared plain hclosed
  next => cases h

end Effects

theorem send_effect {k : Nat} (h : s.send k = some s') : Effect s (.send k) s' := by
  unfold send at h
  split at h
  next owed found =>
    split at h
    next =>
      cases h
      exact .sent k owed found
    next => cases h
  next => cases h

theorem step_effect (h : s.step a = some s') : Effect s a s' := by
  cases a with
  | accept addr =>
    cases h
    exact accept_effect rfl addr
  | firstMessage id message identityVerified => exact firstMessage_effect rfl h
  | checkRoom id => exact checkRoom_effect rfl h
  | ackWritten id => exact ackWritten_effect rfl h
  | connect addr =>
    cases h
    exact connect_effect rfl addr
  | ackReceived id transportAddr message identityVerified => exact ackReceived_effect rfl h
  | insert id => exact insert_effect rfl h
  | callerLeft id => exact callerLeft_effect rfl h
  | failed id => exact failed_effect rfl h
  | readerExit id => exact readerExit_effect rfl h
  | broadcast =>
    cases h
    exact .idle rfl s.attempts _
  | sendTo addr =>
    cases h
    exact .idle rfl s.attempts _
  | wrote id ok => exact wrote_effect rfl h
  | send k => exact send_effect h
  | discard k => exact discard_effect rfl h
  | handle => exact handle_effect rfl h
  | shutdown =>
    cases h
    exact .shutDown
  | clear => exact clear_effect rfl h

/-! ## The invariant -/

/-- The permits of the tasks that have not reached the map. -/
def heldPermits (s : Transport) : Nat :=
  (s.tasks.map fun task => task.phase.slot.elim 0 Permit.permits).sum

/-- An entry of a running connection. -/
structure Admitted (tasks : List Connection) (addr : String) (entry : PeerEntry)
    (nodeId : NodeId) : Prop where
  connected : entry.state = .connected
  permit : entry.slot.permits = 1
  task : ∃ task, tasks[entry.instanceId]? = some task ∧ task.addr = addr ∧
    task.phase = .running nodeId
  info : entry.info.nodeId = some nodeId
  connectionInfo : ∃ info, entry.connectionInfo = some info ∧ info.identity.nodeId = nodeId

structure Sound (s : Transport) : Prop where
  admitted : ∀ (addr : String) (entry : PeerEntry), s.peers[addr]? = some entry →
    ∃ nodeId, Admitted s.tasks addr entry nodeId
  single : ∀ task ∈ s.tasks, ∀ slot, task.phase.slot = some slot → slot.permits = 1
  conserved : s.available + s.heldPermits + s.peers.size = s.config.maxPeers

theorem sound_new (config : NodeConfig) : (new config).Sound where
  admitted _ _ h := by simp [new] at h
  single _ h := by simp [new] at h
  conserved := by simp [new, heldPermits]

theorem Admitted.of_tasks {tasks tasks' : List Connection} {addr : String} {entry : PeerEntry}
    (h : Admitted tasks addr entry nodeId)
    (hsame : ∀ task, tasks[entry.instanceId]? = some task → tasks'[entry.instanceId]? = some task) :
    Admitted tasks' addr entry nodeId := by
  obtain ⟨task, hfound, haddr, hphase⟩ := h.task
  exact { h with task := ⟨task, hsame task hfound, haddr, hphase⟩ }

/-- A task that is not the one whose phase changes stays as it is. -/
theorem getElem?_setPhase_ne {id i : Nat} (phase : ConnectionPhase) (h : i ≠ id) :
    (s.setPhase id phase).tasks[i]? = s.tasks[i]? := by
  rw [setPhase, List.getElem?_modify_ne _ _ (Ne.symm h)]

theorem getElem?_setPhase_self {id : Nat} {task : Connection} (h : s.tasks[id]? = some task) :
    (s.setPhase id phase).tasks[id]? = some { task with phase } := by
  rw [setPhase, List.getElem?_modify_eq, h]
  rfl

theorem mem_setPhase {id : Nat} {task : Connection} (h : task ∈ (s.setPhase id phase).tasks) :
    task ∈ s.tasks ∨ task.phase = phase := by
  obtain ⟨i, hi⟩ := List.mem_iff_getElem?.mp h
  by_cases heq : i = id
  · subst heq
    rw [setPhase, List.getElem?_modify_eq] at hi
    obtain ⟨old, -, rfl⟩ := Option.map_eq_some_iff.mp hi
    exact .inr rfl
  · rw [getElem?_setPhase_ne phase heq] at hi
    exact .inl (List.mem_of_getElem? hi)

theorem sum_map_modify {α : Type} (f : α → α) (g : α → Nat) {l : List α} {i : Nat} {x : α}
    (h : l[i]? = some x) : ((l.modify i f).map g).sum + g x = (l.map g).sum + g (f x) := by
  induction l generalizing i with
  | nil => cases h
  | cons y l ih =>
    cases i with
    | zero =>
      cases h
      simp only [List.modify_zero_cons, List.map_cons, List.sum_cons]
      omega
    | succ i =>
      have hrest := ih h
      simp only [List.modify_succ_cons, List.map_cons, List.sum_cons]
      omega

theorem heldPermits_setPhase {id : Nat} (phase : ConnectionPhase) {task : Connection}
    (h : s.tasks[id]? = some task) :
    (s.setPhase id phase).heldPermits + task.phase.slot.elim 0 Permit.permits =
      s.heldPermits + phase.slot.elim 0 Permit.permits :=
  sum_map_modify (fun task => { task with phase }) _ h

namespace Sound

variable (h : s.Sound) {addr : String} {entry : PeerEntry} {id : Nat} {task : Connection}

include h

theorem connected (hentry : s.peers[addr]? = some entry) : entry.state = .connected := by
  obtain ⟨nodeId, hadmitted⟩ := h.admitted addr entry hentry
  exact hadmitted.connected

theorem permit (hentry : s.peers[addr]? = some entry) : entry.slot.permits = 1 := by
  obtain ⟨nodeId, hadmitted⟩ := h.admitted addr entry hentry
  exact hadmitted.permit

/-- The task of an entry runs. -/
theorem running (hentry : s.peers[addr]? = some entry)
    (found : s.tasks[entry.instanceId]? = some task) :
    task.addr = addr ∧ ∃ nodeId, task.phase = .running nodeId := by
  obtain ⟨nodeId, hadmitted⟩ := h.admitted addr entry hentry
  obtain ⟨running, hfound, haddr, hphase⟩ := hadmitted.task
  cases found.symm.trans hfound
  exact ⟨haddr, nodeId, hphase⟩

/-- A task that still has its permit is not in the map. -/
theorem instanceId_ne (hentry : s.peers[addr]? = some entry) (found : s.tasks[id]? = some task)
    (holds : task.phase.slot = some slot) :
    entry.instanceId ≠ id := by
  rintro rfl
  obtain ⟨-, nodeId, hphase⟩ := h.running hentry found
  rw [hphase] at holds
  cases holds

/-- Changing the phase of a task that is not in the map leaves the entries as they are. -/
theorem admitted_setPhase
    (hout : ∀ (addr : String) (entry : PeerEntry), s.peers[addr]? = some entry →
      entry.instanceId ≠ id) :
    ∀ (addr : String) (entry : PeerEntry), s.peers[addr]? = some entry →
      ∃ nodeId, Admitted (s.setPhase id phase).tasks addr entry nodeId := by
  intro addr entry hentry
  obtain ⟨nodeId, hadmitted⟩ := h.admitted addr entry hentry
  refine ⟨nodeId, hadmitted.of_tasks fun task hfound => ?_⟩
  rwa [getElem?_setPhase_ne phase (hout addr entry hentry)]

theorem single_setPhase (hslot : ∀ slot, phase.slot = some slot → slot.permits = 1) :
    ∀ task ∈ (s.setPhase id phase).tasks, ∀ slot, task.phase.slot = some slot →
      slot.permits = 1 := by
  intro task htask slot holds
  rcases mem_setPhase htask with hold | hphase
  · exact h.single task hold slot holds
  · exact hslot slot (hphase ▸ holds)

theorem started {addr : String} {direction : ConnectionDirection} {attempts : OutboundAttempts}
    (hslot : phase.slot = some ⟨1⟩) (hfree : s.available ≠ 0) :
    Sound { s with
      available := s.available - 1, attempts,
      tasks := s.tasks ++ [⟨addr, direction, phase⟩] } where
  admitted addr entry hentry := by
    obtain ⟨nodeId, hadmitted⟩ := h.admitted addr entry hentry
    refine ⟨nodeId, hadmitted.of_tasks fun task hfound => ?_⟩
    rwa [List.getElem?_append_left (List.getElem?_eq_some_iff.mp hfound).1]
  single task htask slot holds := by
    rcases List.mem_append.mp htask with hold | hnew
    · exact h.single task hold slot holds
    · rw [List.mem_singleton.mp hnew] at holds
      cases hslot.symm.trans holds
      rfl
  conserved := by
    have hconserved := h.conserved
    unfold heldPermits at hconserved ⊢
    simp only [List.map_append, List.map_cons, List.map_nil, List.sum_append, List.sum_cons,
      List.sum_nil, hslot, Option.elim] at hconserved ⊢
    omega

/-- A task that is not in the map changes its phase, and may give up its permit. -/
theorem changed {phase : ConnectionPhase} {available : Nat} {attempts : OutboundAttempts}
    (found : s.tasks[id]? = some task)
    (hout : ∀ (addr : String) (entry : PeerEntry), s.peers[addr]? = some entry →
      entry.instanceId ≠ id)
    (hslot : ∀ slot, phase.slot = some slot → slot.permits = 1)
    (hpermits : available + phase.slot.elim 0 Permit.permits =
      s.available + task.phase.slot.elim 0 Permit.permits) :
    Sound { s.setPhase id phase with available, attempts } where
  admitted := h.admitted_setPhase hout
  single := h.single_setPhase hslot
  conserved := by
    have hheld := heldPermits_setPhase phase found
    have hconserved := h.conserved
    change available + (s.setPhase id phase).heldPermits + s.peers.size = s.config.maxPeers
    omega

theorem admitPeer {format : SerializationFormat} (found : s.tasks[id]? = some task)
    (ready : task.phase = .verified nodeId format transportAddr slot) :
    Sound (s.admitPeer id task nodeId (s.entryOf id task nodeId format transportAddr slot)) := by
  have holds : task.phase.slot = some slot := by rw [ready]; rfl
  have hone := h.single task (List.mem_of_getElem? found) slot holds
  have hother : ∀ (addr : String) (entry : PeerEntry), s.peers[addr]? = some entry →
      entry.instanceId ≠ id := fun addr entry hentry => h.instanceId_ne hentry found holds
  let entry := s.entryOf id task nodeId format transportAddr slot
  let next := s.setPhase id (.running nodeId)
  refine ⟨?_, h.single_setPhase (by simp [ConnectionPhase.slot]), ?_⟩
  · intro addr current hcurrent
    change (s.peers.insert task.addr entry)[addr]? = some current at hcurrent
    rw [OrdMap.get_insert] at hcurrent
    split at hcurrent
    next haddr =>
      cases hcurrent
      exact ⟨nodeId, rfl, hone, ⟨_, getElem?_setPhase_self found, haddr, rfl⟩, rfl, _, rfl, rfl⟩
    next => exact h.admitted_setPhase hother addr current hcurrent
  · have hheld := heldPermits_setPhase (.running nodeId) found
    have hconserved := h.conserved
    rw [holds] at hheld
    change s.available + (s.peers[task.addr]?.elim 0 fun replaced => replaced.slot.permits) +
      (s.setPhase id (.running nodeId)).heldPermits + (s.peers.insert task.addr entry).size =
        s.config.maxPeers
    simp only [ConnectionPhase.slot, Option.elim] at hheld
    -- the permit of a replaced entry becomes free
    cases hreplaced : s.peers[task.addr]? with
    | none =>
      rw [OrdMap.size_insert_of_none entry hreplaced]
      dsimp only [Option.elim]
      omega
    | some replaced =>
      have hpermit := h.permit hreplaced
      rw [OrdMap.size_insert_of_get entry hreplaced]
      dsimp only [Option.elim]
      omega

/-- All entries are connected, so there is none where nobody is connected. -/
theorem absent (free : isConnectedAddr s.peers addr = false) : s.peers[addr]? = none := by
  cases hentry : s.peers[addr]? with
  | none => rfl
  | some entry => exact absurd (h.connected hentry) (isConnectedAddr_eq_false.mp free entry hentry)

/-- An instance is in the map once only. -/
theorem get_erase {other : String} {current : PeerEntry} (hentry : s.peers[addr]? = some entry)
    (hcurrent : (s.peers.erase addr)[other]? = some current) :
    s.peers[other]? = some current ∧ current.instanceId ≠ entry.instanceId := by
  rw [OrdMap.get_erase] at hcurrent
  split at hcurrent
  next => cases hcurrent
  next hne =>
    refine ⟨hcurrent, fun hsame => hne ?_⟩
    obtain ⟨nodeId, hadmitted⟩ := h.admitted addr entry hentry
    obtain ⟨task, hfound, haddr, -⟩ := hadmitted.task
    obtain ⟨hcurrentAddr, -⟩ := h.running hcurrent (hsame ▸ hfound)
    exact haddr.symm.trans hcurrentAddr

/-- An entry leaves the map, and its task may end. -/
theorem remove {writers : List (List (String × Nat))} {owed : List OwedEvent}
    {tasks : List Connection} (hentry : s.peers[addr]? = some entry)
    (ends : tasks = s.tasks ∨
      tasks = s.tasks.modify entry.instanceId fun task => { task with phase := .ended }) :
    Sound { s with
      peers := s.peers.erase addr, available := s.available + entry.slot.permits, owed, tasks,
      writers } := by
  have hsize := OrdMap.size_erase_of_get hentry
  have hpermit := h.permit hentry
  have hconserved := h.conserved
  have hother : ∀ (a : String) (e : PeerEntry), (s.peers.erase addr)[a]? = some e →
      s.peers[a]? = some e ∧ e.instanceId ≠ entry.instanceId :=
    fun _ _ he => h.get_erase hentry he
  obtain ⟨nodeId, hadmitted⟩ := h.admitted addr entry hentry
  obtain ⟨task, hfound, haddr, hphase⟩ := hadmitted.task
  rcases ends with rfl | rfl
  · refine ⟨fun a e he => h.admitted a e (hother a e he).1, h.single, ?_⟩
    change s.available + entry.slot.permits + s.heldPermits + (s.peers.erase addr).size =
      s.config.maxPeers
    omega
  · refine ⟨fun a e he => ?_, h.single_setPhase (by simp [ConnectionPhase.slot]), ?_⟩
    · obtain ⟨hold, hne⟩ := hother a e he
      obtain ⟨peer, hpeer⟩ := h.admitted a e hold
      refine ⟨peer, hpeer.of_tasks fun task hfound => ?_⟩
      exact (getElem?_setPhase_ne .ended hne).trans hfound
    · -- a running task has left its permit with the entry
      have hheld := heldPermits_setPhase .ended hfound
      rw [hphase] at hheld
      simp only [ConnectionPhase.slot, Option.elim, Nat.add_zero] at hheld
      change s.available + entry.slot.permits + (s.setPhase entry.instanceId .ended).heldPermits +
        (s.peers.erase addr).size = s.config.maxPeers
      omega

theorem clear : Sound { s with
    peers := ∅
    available := s.available +
      ((OrdMap.valuesAsc s.peers).map fun entry => entry.slot.permits).sum } := by
  have hall : ∀ n ∈ (OrdMap.valuesAsc s.peers).map fun entry => entry.slot.permits, n = 1 := by
    intro n hn
    obtain ⟨entry, hmem, rfl⟩ := List.mem_map.mp hn
    obtain ⟨addr, hentry⟩ := OrdMap.mem_valuesAsc.mp hmem
    exact h.permit hentry
  have hsum : ((OrdMap.valuesAsc s.peers).map fun entry => entry.slot.permits).sum =
      s.peers.size := by
    rw [List.eq_replicate_of_mem hall, List.sum_replicate, List.length_map,
      OrdMap.length_valuesAsc, smul_eq_mul, Nat.mul_one]
  refine ⟨fun addr entry hentry => ?_, h.single, ?_⟩
  · simp at hentry
  · have hconserved := h.conserved
    change s.available + _ + s.heldPermits + (∅ : PeerTable).size = s.config.maxPeers
    rw [hsum, ExtTreeMap.size_empty]
    omega

end Sound

theorem Effect.config_eq (h : Effect s a s') : s'.config = s.config := by
  cases h <;> rfl

theorem Effect.sound (heffect : Effect s a s') (h : s.Sound) : s'.Sound := by
  cases heffect with
  | idle plain attempts writers => exact ⟨h.admitted, h.single, h.conserved⟩
  | started plain attempts addr direction phase waits free =>
    refine h.started ?_ free
    rcases waits with rfl | rfl <;> rfl
  | advanced plain id task phase found next =>
    obtain ⟨slot, hold, hnew⟩ := next.slot_eq
    refine @Sound.changed s h id task phase s.available s.attempts found
      (fun _ _ hentry => h.instanceId_ne hentry found hold) ?_ (by rw [hold, hnew])
    intro other hother
    cases hnew.symm.trans hother
    exact h.single task (List.mem_of_getElem? found) slot hold
  | refused plain attempts id task slot found holds =>
    exact h.changed found (fun _ _ hentry => h.instanceId_ne hentry found holds)
      (by simp [ConnectionPhase.slot]) (by rw [holds]; rfl)
  | admitted plain id task nodeId format transportAddr slot found ready =>
    exact h.admitPeer found ready
  | rolledBack plain attempts id task slot found holds free =>
    -- nobody was connected there, so that nothing was replaced
    rw [OrdMap.erase_of_none (h.absent free), h.absent free]
    exact h.changed found (fun _ _ hentry => h.instanceId_ne hentry found holds)
      (by simp [ConnectionPhase.slot]) (by rw [holds]; rfl)
  | left plain id task nodeId found runs gone =>
    refine @Sound.changed s h id task .ended s.available s.attempts found ?_
      (by simp [ConnectionPhase.slot]) (by rw [runs]; rfl)
    rintro addr entry hentry rfl
    obtain ⟨rfl, -⟩ := h.running hentry found
    exact gone entry hentry rfl
  | removed plain writers sender addr entry reported tasks found reports ends =>
    exact h.remove found ends
  | sent k owed found => exact ⟨h.admitted, h.single, h.conserved⟩
  | discarded plain k owed found lost => exact ⟨h.admitted, h.single, h.conserved⟩
  | handled plain event rest found => exact ⟨h.admitted, h.single, h.conserved⟩
  | shutDown => exact ⟨h.admitted, h.single, h.conserved⟩
  | cleared plain closed => exact h.clear

end Transport

end Numax
