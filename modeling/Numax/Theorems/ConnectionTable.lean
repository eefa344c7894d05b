import Numax.Net.ConnectionSteps

/-!
# The connection table is safe

Whatever the tasks of a node do, and in whatever order, the connections in the map and
those on their way to it never use more permits than there are, a connection is only
ever cleaned up by its own task or by a sender that has failed on it, and its end is
reported once.

A report does not name the instance. So what is counted is the events as they are owed:
an instance with an owed or sent `PeerDisconnected` has left the map, and has no permit
with which it could come back (`Reported`).
-/

open Base Std

namespace Numax

/-- How the phase of a task can change. -/
inductive ConnectionPhase.Moves : ConnectionPhase → ConnectionPhase → Prop where
  | same (phase) : Moves phase phase
  | next {phase next} (h : phase.Next next) : Moves phase next
  | refused {phase slot} (h : phase.slot = some slot) : Moves phase .refused
  | admitted {phase slot} (h : phase.slot = some slot) (nodeId) : Moves phase (.running nodeId)
  | ended (nodeId) : Moves (.running nodeId) .ended

namespace ConnectionPhase.Moves

variable {phase next : ConnectionPhase}

theorem refused_eq (h : Moves .refused next) : next = .refused := by
  cases h with
  | same => rfl
  | next h => cases h
  | refused h => rfl
  | admitted h nodeId => cases h

theorem opening_eq {slot : Permit} (h : Moves phase (.opening slot)) : phase = .opening slot := by
  cases h with
  | same => rfl
  | next h => cases h

theorem slot_eq_none (h : Moves phase next) (hnone : phase.slot = none) : next.slot = none := by
  cases h with
  | same => exact hnone
  | next h =>
    obtain ⟨slot, hslot, -⟩ := h.slot_eq
    cases hnone.symm.trans hslot
  | refused h => rfl
  | admitted h nodeId => rfl
  | ended nodeId => rfl

end ConnectionPhase.Moves

def WireMessageKind.isBootstrapHello : WireMessageKind → Bool
  | .bootstrapHello .. => true
  | _ => false

/-- The instances whose end the events report. -/
def disconnects (events : List OwedEvent) : List Nat :=
  (events.filter fun owed => !owed.event.announces).map OwedEvent.instanceId

theorem disconnects_append (first second : List OwedEvent) :
    disconnects (first ++ second) = disconnects first ++ disconnects second := by
  rw [disconnects, List.filter_append, List.map_append]
  rfl

namespace Transport

variable {s s' : Transport} {a : TransportStep}

/-- The events that a step hands over to the queue. -/
def sent (s : Transport) : TransportStep → List OwedEvent
  | .send k => s.owed[k]?.toList
  | _ => []

/-- The events that are handed over along a run. -/
def sentAlong (s : Transport) (steps : List TransportStep) : List OwedEvent :=
  outputs Transport.step sent s steps

/-- The instance that a step cleans up: the reader of a connection its own, a sender the
one it could not write to, and `connect_to_peer` its own when no reader is admitted. -/
def cleansUp (s : Transport) : TransportStep → Option Nat
  | .readerExit id => some id
  | .wrote id false => (s.writers[id]?.bind List.head?).map Prod.snd
  | .insert id =>
    if s.closed = true ∧ s.tasks[id]?.any fun task => task.direction = .outbound then some id
    else none
  | _ => none

theorem sent_of_plain (h : a.plain = true) : s.sent a = [] := by
  cases a <;> first | rfl | cases h

variable {i : Nat}

theorem Effect.moves (heffect : Effect s a s') (h : s.Sound) {task : Connection}
    (hfound : s.tasks[i]? = some task) :
    ∃ task', s'.tasks[i]? = some task' ∧ task.phase.Moves task'.phase := by
  have hset : ∀ {id phase} {other : Connection}, s.tasks[id]? = some other →
      other.phase.Moves phase →
      ∃ task', (s.setPhase id phase).tasks[i]? = some task' ∧ task.phase.Moves task'.phase := by
    intro id phase other hother hmoves
    by_cases heq : i = id
    · subst heq
      cases hfound.symm.trans hother
      exact ⟨_, getElem?_setPhase_self hfound, hmoves⟩
    · exact ⟨task, (getElem?_setPhase_ne phase heq).trans hfound, .same _⟩
  cases heffect with
  | started plain attempts addr direction phase waits free =>
    refine ⟨task, ?_, .same _⟩
    rwa [List.getElem?_append_left (List.getElem?_eq_some_iff.mp hfound).1]
  | advanced plain id other phase found next => exact hset found (.next next)
  | refused plain attempts id other slot found holds => exact hset found (.refused holds)
  | admitted plain id other nodeId format transportAddr slot found ready =>
    exact hset found (.admitted (by rw [ready]; rfl) nodeId)
  | rolledBack plain attempts id other slot found holds free => exact hset found (.refused holds)
  | left plain id other nodeId found runs gone => exact hset found (runs ▸ .ended nodeId)
  | removed plain writers sender addr entry reported tasks found reports ends =>
    rcases ends with rfl | rfl
    · exact ⟨task, hfound, .same _⟩
    · obtain ⟨nodeId, hadmitted⟩ := h.admitted addr entry found
      obtain ⟨other, hother, -, hphase⟩ := hadmitted.task
      exact hset hother (hphase ▸ .ended nodeId)
  | _ => exact ⟨task, hfound, .same _⟩

/-! ## Clean-up -/

variable {addr : String} {entry : PeerEntry}

theorem removeCurrent_keeps {sender : Sender} {other : String} {instanceId : Nat}
    {report : PeerEntry → Option NodeId} (hentry : s.peers[other]? = some entry)
    (hne : entry.instanceId ≠ instanceId) :
    (s.removeCurrent sender addr instanceId report).peers[other]? = some entry := by
  unfold removeCurrent
  split
  next => exact hentry
  next removed rest hsome =>
    obtain ⟨hremoved, hinstance, rfl⟩ := removeConnectionIfCurrent_eq_some.mp hsome
    change (s.peers.erase addr)[other]? = some entry
    rw [OrdMap.get_erase, if_neg, hentry]
    rintro rfl
    cases hremoved.symm.trans hentry
    exact hne hinstance

theorem returned_peers (id : Nat) (task : Connection) : (s.returned id task).peers = s.peers := by
  obtain ⟨attempts, heq⟩ := returned_eq (s := s) id task
  rw [heq]

variable {id : Nat}

/-- An outbound connection that finds the node shut down leaves the map as it was. -/
theorem Sound.insert_keeps (h : s.Sound) {task : Connection} (hstep : s.insert id = some s')
    (found : s.tasks[id]? = some task) (hclosed : s.closed = true)
    (hout : task.direction = .outbound) (hentry : s.peers[addr]? = some entry)
    (hne : entry.instanceId ≠ id) :
    s'.peers[addr]? = some entry := by
  have hrefuse : (s.refuse id task).peers[addr]? = some entry := by
    unfold refuse
    rwa [returned_peers]
  unfold Transport.insert at hstep
  rw [found] at hstep
  dsimp only at hstep
  split at hstep
  next nodeId format transportAddr slot _ =>
    split at hstep
    next =>
      cases hstep
      exact hrefuse
    next hdial =>
      split at hstep
      next =>
        cases hstep
        exact hrefuse
      next =>
        rw [if_pos ⟨hout, hclosed⟩] at hstep
        cases hstep
        rw [returned_peers]
        refine removeCurrent_keeps ?_ hne
        change (s.peers.insert task.addr _)[addr]? = some entry
        rw [OrdMap.get_insert, if_neg, hentry]
        rintro rfl
        have hconnected : isConnectedAddr s.peers task.addr = true := by
          rw [isConnectedAddr, hentry, Option.any_some, decide_eq_true (h.connected hentry)]
        exact hdial ⟨hout, hconnected⟩
  next => cases hstep

/-- Clean-up takes away the entries of the instance only. -/
theorem Sound.cleansUp_keeps (h : s.Sound) (hstep : s.step a = some s')
    (hclean : s.cleansUp a = some i) (hentry : s.peers[addr]? = some entry)
    (hne : entry.instanceId ≠ i) :
    s'.peers[addr]? = some entry := by
  cases a with
  | readerExit id =>
    cases hclean
    change s.readerExit i = some s' at hstep
    unfold readerExit at hstep
    split at hstep
    next task found =>
      split at hstep
      next =>
        split at hstep
        next => cases hstep
        next =>
          cases hstep
          exact removeCurrent_keeps hentry hne
      next => cases hstep
    next => cases hstep
  | wrote id ok =>
    cases ok with
    | true => cases hclean
    | false =>
      change s.wrote id false = some s' at hstep
      unfold wrote at hstep
      split at hstep
      next target instanceId rest hwriter =>
        have hinstance : instanceId = i := by
          simpa [cleansUp, hwriter] using hclean
        split at hstep
        next => cases hstep
        next =>
          cases hstep
          rw [if_neg Bool.false_ne_true]
          exact removeCurrent_keeps hentry (hinstance ▸ hne)
      next => cases hstep
  | insert id =>
    -- only a refused outbound connection cleans up
    rw [cleansUp] at hclean
    split at hclean
    next hrefused =>
      cases hclean
      obtain ⟨hclosed, hout⟩ := hrefused
      cases found : s.tasks[i]? with
      | none =>
        rw [found] at hout
        cases hout
      | some task =>
        rw [found] at hout
        exact h.insert_keeps hstep found hclosed (of_decide_eq_true hout) hentry hne
    next => cases hclean
  | _ => cases hclean

/-! ## Permits -/

/-- The permit of an entry goes back to the semaphore when the entry leaves the map. -/
theorem Effect.permit_returned (heffect : Effect s a s') (hentry : s.peers[addr]? = some entry)
    (hgone : s'.peers[addr]? ≠ some entry) :
    s.available + entry.slot.permits ≤ s'.available := by
  cases heffect with
  | admitted plain id task nodeId format transportAddr slot found ready =>
    change (s.peers.insert task.addr _)[addr]? ≠ some entry at hgone
    rw [OrdMap.get_insert] at hgone
    split at hgone
    next heq =>
      change _ ≤ s.available + s.peers[task.addr]?.elim 0 fun replaced => replaced.slot.permits
      rw [heq, hentry]
      exact Nat.le_refl _
    next => exact absurd hentry hgone
  | rolledBack plain attempts id task slot found holds free =>
    change (s.peers.erase task.addr)[addr]? ≠ some entry at hgone
    rw [OrdMap.get_erase] at hgone
    split at hgone
    next heq =>
      rw [heq, hentry]
      exact Nat.le_add_right _ _
    next => exact absurd hentry hgone
  | removed plain writers sender other removed reported tasks found reports ends =>
    change (s.peers.erase other)[addr]? ≠ some entry at hgone
    rw [OrdMap.get_erase] at hgone
    split at hgone
    next heq =>
      cases (heq ▸ found).symm.trans hentry
      exact Nat.le_refl _
    next => exact absurd hentry hgone
  | cleared plain closed =>
    refine Nat.add_le_add_left ?_ _
    apply List.single_le_sum (fun _ _ => Nat.zero_le _)
    exact List.mem_map_of_mem (OrdMap.mem_valuesAsc.mpr ⟨addr, hentry⟩)
  | _ => exact absurd hentry hgone

/-! ## Reports -/

/-- The instances whose end has been reported are out of the map for good. -/
structure Reported (events : List OwedEvent) (s : Transport) : Prop where
  nodup : (disconnects (events ++ s.owed)).Nodup
  gone : ∀ i ∈ disconnects (events ++ s.owed), ∀ (addr : String) (entry : PeerEntry),
    s.peers[addr]? = some entry → entry.instanceId ≠ i
  spent : ∀ i ∈ disconnects (events ++ s.owed), ∃ task, s.tasks[i]? = some task ∧
    task.phase.slot = none

theorem reported_new (config : NodeConfig) : Reported [] (new config) where
  nodup := List.nodup_nil
  gone _ h := by cases h
  spent _ h := by cases h

namespace Reported

variable {events : List OwedEvent} (h : Reported events s)

include h

theorem spent_after (hstep : s.step a = some s') (hsound : s.Sound)
    (hi : i ∈ disconnects (events ++ s.owed)) :
    ∃ task, s'.tasks[i]? = some task ∧ task.phase.slot = none := by
  obtain ⟨task, hfound, hslot⟩ := h.spent i hi
  obtain ⟨task', hfound', hmoves⟩ := (step_effect hstep).moves hsound hfound
  exact ⟨task', hfound', hmoves.slot_eq_none hslot⟩

/-- No new reports, and no entries but old ones and those of tasks with a permit. -/
theorem of_subperm (hstep : s.step a = some s') (hsound : s.Sound)
    (hsub : (disconnects (events ++ s.sent a ++ s'.owed)).Subperm (disconnects (events ++ s.owed)))
    (hpeers : ∀ (addr : String) (entry : PeerEntry), s'.peers[addr]? = some entry →
      s.peers[addr]? = some entry ∨
        ∃ task slot, s.tasks[entry.instanceId]? = some task ∧ task.phase.slot = some slot) :
    Reported (events ++ s.sent a) s' where
  nodup := by
    obtain ⟨kept, hperm, hkept⟩ := hsub
    exact hperm.nodup_iff.mp (h.nodup.sublist hkept)
  gone i hi addr entry hentry := by
    have hold := hsub.subset hi
    rcases hpeers addr entry hentry with hbefore | ⟨task, slot, hfound, hslot⟩
    · exact h.gone i hold addr entry hbefore
    · rintro rfl
      obtain ⟨spent, hspent, hnone⟩ := h.spent _ hold
      cases hspent.symm.trans hfound
      cases hnone.symm.trans hslot
  spent i hi := h.spent_after hstep hsound (hsub.subset hi)

/-- The entry that leaves the map is reported, which it was not before. -/
theorem of_removed {sender : Sender} {reported : Option NodeId} {count : Nat}
    (hstep : s.step a = some s') (hsound : s.Sound) (found : s.peers[addr]? = some entry)
    (hpeers : s'.peers = s.peers.erase addr) (hsent : s.sent a = [])
    (howed : s'.owed = s.owed ++ (reported.map fun nodeId =>
      ⟨sender, entry.instanceId, .peerDisconnected nodeId addr count⟩).toList) :
    Reported (events ++ s.sent a) s' := by
  have hother : ∀ (other : String) (current : PeerEntry), s'.peers[other]? = some current →
      s.peers[other]? = some current ∧ current.instanceId ≠ entry.instanceId := by
    intro other current hcurrent
    rw [hpeers] at hcurrent
    exact hsound.get_erase found hcurrent
  cases reported with
  | none =>
    refine h.of_subperm hstep hsound ?_ fun other current hcurrent =>
      .inl (hother other current hcurrent).1
    rw [hsent, howed]
    simp only [Option.map_none, Option.toList_none, List.append_nil]
    exact List.Subperm.refl _
  | some nodeId =>
    have hnew : disconnects (events ++ s.sent a ++ s'.owed) =
        disconnects (events ++ s.owed) ++ [entry.instanceId] := by
      rw [hsent, howed, List.append_nil, ← List.append_assoc, disconnects_append]
      rfl
    -- it was in the map, so that nobody has reported it
    have hfresh : entry.instanceId ∉ disconnects (events ++ s.owed) :=
      fun hi => h.gone _ hi addr entry found rfl
    refine ⟨?_, ?_, ?_⟩
    · rw [hnew, ← List.concat_eq_append]
      exact h.nodup.concat hfresh
    · intro i hi other current hcurrent
      obtain ⟨hold, hne⟩ := hother other current hcurrent
      rw [hnew] at hi
      rcases List.mem_append.mp hi with hbefore | hself
      · exact h.gone i hbefore other current hold
      · rwa [List.mem_singleton.mp hself]
    · intro i hi
      rw [hnew] at hi
      rcases List.mem_append.mp hi with hbefore | hself
      · exact h.spent_after hstep hsound hbefore
      · rw [List.mem_singleton.mp hself]
        obtain ⟨peer, hadmitted⟩ := hsound.admitted addr entry found
        obtain ⟨task, hfound, -, hphase⟩ := hadmitted.task
        obtain ⟨task', hfound', hmoves⟩ := (step_effect hstep).moves hsound hfound
        exact ⟨task', hfound', hmoves.slot_eq_none (by rw [hphase]; rfl)⟩

theorem step (hsound : s.Sound) (hstep : s.step a = some s') :
    Reported (events ++ s.sent a) s' := by
  have hquiet : s.sent a = [] → s'.owed = s.owed →
      (∀ (addr : String) (entry : PeerEntry), s'.peers[addr]? = some entry →
        s.peers[addr]? = some entry) → Reported (events ++ s.sent a) s' := by
    intro hsent howed hpeers
    refine h.of_subperm hstep hsound ?_ fun addr entry hentry => .inl (hpeers addr entry hentry)
    rw [hsent, howed, List.append_nil]
  cases step_effect hstep with
  | admitted plain id task nodeId format transportAddr slot found ready =>
    refine h.of_subperm hstep hsound ?_ ?_
    · -- the new event is an announcement
      rw [sent_of_plain plain, List.append_nil, admitPeer, ← List.append_assoc,
        disconnects_append]
      exact (List.append_nil _).symm ▸ List.Subperm.refl _
    · intro addr entry hentry
      change (s.peers.insert task.addr _)[addr]? = some entry at hentry
      rw [OrdMap.get_insert] at hentry
      split at hentry
      next =>
        cases hentry
        exact .inr ⟨task, slot, found, by rw [ready]; rfl⟩
      next => exact .inl hentry
  | rolledBack plain attempts id task slot found holds free =>
    refine hquiet (sent_of_plain plain) rfl fun addr entry hentry => ?_
    change (s.peers.erase task.addr)[addr]? = some entry at hentry
    rw [OrdMap.get_erase] at hentry
    split at hentry
    next => cases hentry
    next => exact hentry
  | removed plain writers sender addr entry reported tasks found reports ends =>
    exact h.of_removed hstep hsound found rfl (sent_of_plain plain) rfl
  | sent k owed found =>
    refine h.of_subperm hstep hsound ?_ fun _ _ hentry => .inl hentry
    obtain ⟨hlt, rfl⟩ := List.getElem?_eq_some_iff.mp found
    have hperm : (events ++ s.sent (.send k) ++ s.owed.eraseIdx k).Perm (events ++ s.owed) := by
      rw [sent, found, List.append_assoc]
      exact (List.getElem_cons_eraseIdx_perm hlt).append_left events
    exact ((hperm.filter _).map _).subperm
  | discarded plain k owed found lost =>
    refine h.of_subperm hstep hsound ?_ fun _ _ hentry => .inl hentry
    rw [sent_of_plain plain, List.append_nil]
    have hkept : (events ++ s.owed.eraseIdx k).Sublist (events ++ s.owed) :=
      (List.eraseIdx_sublist _ _).append_left events
    exact ((hkept.filter _).map _).subperm
  | cleared plain closed =>
    refine hquiet (sent_of_plain plain) rfl fun addr entry hentry => ?_
    simp at hentry
  | shutDown => exact hquiet rfl rfl fun _ _ => id
  | _ => exact hquiet (sent_of_plain (by assumption)) rfl fun _ _ => id

end Reported

/-- The addresses and instances in the map. -/
def present (s : Transport) : TransportStep → List (String × Nat) := fun _ =>
  s.peers.toList.map fun peer => (peer.1, peer.2.instanceId)

theorem mem_present :
    (addr, i) ∈ s.present a ↔ ∃ entry, s.peers[addr]? = some entry ∧ entry.instanceId = i := by
  constructor
  · intro h
    obtain ⟨⟨found, entry⟩, hmem, heq⟩ := List.mem_map.mp h
    cases heq
    exact ⟨entry, (OrdMap.mem_toList _).mp hmem, rfl⟩
  · rintro ⟨entry, hentry, rfl⟩
    exact List.mem_map.mpr ⟨(addr, entry), (OrdMap.mem_toList _).mpr hentry, rfl⟩

/-- Every end that is owed to the sync manager is that of an entry of the map. -/
def OwedFrom (seen : List (String × Nat)) (s : Transport) : Prop :=
  ∀ owed ∈ s.owed, owed.event.announces = false → (owed.event.addr, owed.instanceId) ∈ seen

theorem OwedFrom.step {seen : List (String × Nat)} (h : OwedFrom seen s)
    (hstep : s.step a = some s') : OwedFrom (seen ++ s.present a) s' := by
  have hkept : ∀ owed ∈ s.owed, owed.event.announces = false →
      (owed.event.addr, owed.instanceId) ∈ seen ++ s.present a :=
    fun owed howed hend => List.mem_append_left _ (h owed howed hend)
  cases step_effect hstep with
  | admitted plain id task nodeId format transportAddr slot found ready =>
    intro owed howed hend
    rcases List.mem_append.mp howed with hold | hnew
    · exact hkept owed hold hend
    · rw [List.mem_singleton.mp hnew] at hend
      cases hend
  | removed plain writers sender addr entry reported tasks found reports ends =>
    intro owed howed hend
    rcases List.mem_append.mp howed with hold | hnew
    · exact hkept owed hold hend
    · obtain ⟨nodeId, -, rfl⟩ := Option.map_eq_some_iff.mp (Option.mem_toList.mp hnew)
      exact List.mem_append_right _ (mem_present.mpr ⟨entry, found, rfl⟩)
  | sent k owed found => exact fun other hother => hkept other (List.mem_of_mem_eraseIdx hother)
  | discarded plain k owed found lost =>
    exact fun other hother => hkept other (List.mem_of_mem_eraseIdx hother)
  | _ => exact hkept

/-- An event is owed when it is sent. -/
theorem mem_owed_of_sent {owed : OwedEvent} (h : owed ∈ s.sent a) : owed ∈ s.owed := by
  cases a with
  | send k => exact List.mem_of_getElem? (Option.mem_toList.mp h)
  | _ => cases h

variable {config : NodeConfig} {steps : List TransportStep}

/-- The end of a connection is reported after it was in the map. -/
theorem present_before_sent (hrun : (new config).run steps = some s) {owed : OwedEvent}
    (howed : owed ∈ (new config).sentAlong steps) (hend : owed.event.announces = false) :
    ∃ before after middle, steps = before ++ after ∧ (new config).run before = some middle ∧
      (∃ entry, middle.peers[owed.event.addr]? = some entry ∧
        entry.instanceId = owed.instanceId) ∧
      owed ∈ middle.sentAlong after := by
  obtain ⟨before, a, after, sending, rfl, hbefore, hsent⟩ := mem_outputs hrun howed
  have hseen := runSteps_invariant present (P := OwedFrom) (fun _ _ _ _ => OwedFrom.step)
    [] (by simp [OwedFrom, new]) hbefore owed (mem_owed_of_sent hsent) hend
  obtain ⟨early, b, late, middle, rfl, hearly, hpresent⟩ := mem_outputs hbefore hseen
  refine ⟨early, b :: late ++ a :: after, middle, by simp, hearly, mem_present.mp hpresent, ?_⟩
  obtain ⟨found, hfound, hlate⟩ := runSteps_append.mp hbefore
  cases hearly.symm.trans hfound
  obtain ⟨found, hfound, hafter⟩ := runSteps_append.mp hrun
  cases hbefore.symm.trans hfound
  obtain ⟨next, hnext, -⟩ := runSteps_cons.mp hafter
  rw [sentAlong, outputs_append hlate, outputs_cons hnext]
  exact List.mem_append_right _ (List.mem_append_left _ hsent)

/-! ## Bootstrap connections -/

/-- The task has not read its first message. -/
def Fresh (i : Nat) (s : Transport) : Prop :=
  ∀ task, s.tasks[i]? = some task → ∃ slot, task.phase = .opening slot

def Refused (i : Nat) (s : Transport) : Prop :=
  ∃ task, s.tasks[i]? = some task ∧ task.phase = .refused

theorem Sound.not_fresh (h : s.Sound) (hentry : s.peers[addr]? = some entry) :
    ¬Fresh entry.instanceId s := by
  intro hfresh
  obtain ⟨nodeId, hadmitted⟩ := h.admitted addr entry hentry
  obtain ⟨task, hfound, -, hphase⟩ := hadmitted.task
  obtain ⟨slot, hopening⟩ := hfresh task hfound
  cases hphase.symm.trans hopening

theorem Sound.not_refused (h : s.Sound) (hentry : s.peers[addr]? = some entry) :
    ¬Refused entry.instanceId s := by
  rintro ⟨task, hfound, hrefused⟩
  obtain ⟨-, nodeId, hphase⟩ := h.running hentry hfound
  cases hphase.symm.trans hrefused

theorem Refused.step (h : Refused i s) (hsound : s.Sound) (hstep : s.step a = some s') :
    Refused i s' := by
  obtain ⟨task, hfound, hphase⟩ := h
  obtain ⟨task', hfound', hmoves⟩ := (step_effect hstep).moves hsound hfound
  rw [hphase] at hmoves
  exact ⟨task', hfound', hmoves.refused_eq⟩

/-- A task that has not read its first message had not read it before either. -/
theorem Fresh.of_run (hsound : s.Sound) (hrun : s.run steps = some s') (h : Fresh i s') :
    Fresh i s := by
  induction steps generalizing s with
  | nil =>
    cases hrun
    exact h
  | cons a steps ih =>
    obtain ⟨next, hnext, hrest⟩ := runSteps_cons.mp hrun
    have hfresh := ih ((step_effect hnext).sound hsound) hrest
    intro task hfound
    obtain ⟨task', hfound', hmoves⟩ := (step_effect hnext).moves hsound hfound
    obtain ⟨slot, hopening⟩ := hfresh task' hfound'
    rw [hopening] at hmoves
    exact ⟨slot, hmoves.opening_eq⟩

/-- A connection that begins with `BootstrapHello` is over when that has been answered. -/
theorem firstMessage_bootstrap {message : WireMessage} {identityVerified : Bool}
    (hstep : s.step (.firstMessage id message identityVerified) = some s')
    (hbootstrap : message.kind.isBootstrapHello = true) : Fresh id s ∧ Refused id s' := by
  change s.firstMessage id message identityVerified = some s' at hstep
  -- the handshake never makes a peer of it
  have hhandshake : ∀ nodeId format,
      incomingHandshake s.config.serializationFormat message ≠ .ok (.peer nodeId format) := by
    intro nodeId format heq
    unfold incomingHandshake at heq
    split at heq
    next hkind =>
      rw [hkind] at hbootstrap
      cases hbootstrap
    next =>
      cases hnegotiate : negotiate s.config.serializationFormat _ _ with
      | error error =>
        rw [hnegotiate] at heq
        cases heq
      | ok format =>
        rw [hnegotiate] at heq
        cases heq
    next => cases heq
    next => cases heq
  unfold firstMessage at hstep
  split at hstep
  next task found =>
    split at hstep
    next slot hphase =>
      have hrefused : Refused id (s.refuse id task) := by
        unfold refuse
        obtain ⟨attempts, heq⟩ := returned_eq id task
        rw [heq]
        exact ⟨_, getElem?_setPhase_self found, rfl⟩
      refine ⟨?_, ?_⟩
      · intro other hother
        cases found.symm.trans hother
        exact ⟨slot, hphase⟩
      · split at hstep
        next hpeer => exact absurd hpeer (hhandshake _ _)
        next =>
          cases hstep
          exact hrefused
    next => cases hstep
  next => cases hstep

theorem run_sound (hrun : (new config).run steps = some s) : s.Sound :=
  runSteps_keeps (fun _ => True)
    (fun _ _ _ _ hsound hstep => (step_effect hstep).sound hsound) (fun _ _ => trivial)
    (sound_new config) hrun

/-- Neither before nor after its first message is such a connection in the map. -/
theorem bootstrap_not_present {before after : List TransportStep} {middle : Transport}
    (hbefore : (new config).run before = some middle) (hafter : middle.run after = some s)
    {message : WireMessage} {identityVerified : Bool}
    (hmem : .firstMessage id message identityVerified ∈ before ++ after)
    (hbootstrap : message.kind.isBootstrapHello = true)
    (hentry : middle.peers[addr]? = some entry) : entry.instanceId ≠ id := by
  have hsound := run_sound hbefore
  rintro rfl
  rcases List.mem_append.mp hmem with hold | hnew
  · obtain ⟨early, late, rfl⟩ := List.append_of_mem hold
    obtain ⟨start, hstart, hrest⟩ := runSteps_append.mp hbefore
    obtain ⟨next, hnext, hlate⟩ := runSteps_cons.mp hrest
    have hrefused := (firstMessage_bootstrap hnext hbootstrap).2
    have hnextSound := (step_effect hnext).sound (run_sound hstart)
    have hkept := runSteps_keeps (P := fun t => t.Sound ∧ Refused entry.instanceId t)
      (fun _ => True)
      (fun _ _ _ _ h hstep => ⟨(step_effect hstep).sound h.1, h.2.step h.1 hstep⟩)
      (fun _ _ => trivial) ⟨hnextSound, hrefused⟩ hlate
    exact hsound.not_refused hentry hkept.2
  · obtain ⟨early, late, rfl⟩ := List.append_of_mem hnew
    obtain ⟨later, hlater, hrest⟩ := runSteps_append.mp hafter
    obtain ⟨next, hnext, -⟩ := runSteps_cons.mp hrest
    have hfresh := (firstMessage_bootstrap hnext hbootstrap).1
    exact hsound.not_fresh hentry (hfresh.of_run hsound hlater)

/-! ## The table -/

/-- What holds of the table after the steps, and of the events sent on the way. -/
structure TableSafe (config : NodeConfig) (steps : List TransportStep) (s : Transport) :
    Prop where
  bounded : s.peers.size ≤ config.maxPeers
  /-- An entry owns one permit; the others are free, or with a task in its handshake. -/
  permit : ∀ (addr : String) (entry : PeerEntry), s.peers[addr]? = some entry →
    entry.slot.permits = 1
  conserved : s.available + s.heldPermits + s.peers.size = config.maxPeers
  returned : ∀ a s', s.step a = some s' →
    ∀ (addr : String) (entry : PeerEntry), s.peers[addr]? = some entry →
      s'.peers[addr]? ≠ some entry → s.available + entry.slot.permits ≤ s'.available
  /-- Clean-up leaves the entries of other instances alone. -/
  cleanUp : ∀ a s' i, s.step a = some s' → s.cleansUp a = some i →
    ∀ (addr : String) (entry : PeerEntry), s.peers[addr]? = some entry →
      entry.instanceId ≠ i → s'.peers[addr]? = some entry
  /-- An instance has at most one `PeerDisconnected`, sent after it was in the map. -/
  once : (disconnects ((new config).sentAlong steps)).Nodup
  after : ∀ owed ∈ (new config).sentAlong steps, owed.event.announces = false →
    ∃ before after middle, steps = before ++ after ∧ (new config).run before = some middle ∧
      (∃ entry, middle.peers[owed.event.addr]? = some entry ∧
        entry.instanceId = owed.instanceId) ∧
      owed ∈ middle.sentAlong after
  /-- No state of the run has an entry of a bootstrap connection. -/
  bootstrap : ∀ id message identityVerified,
    .firstMessage id message identityVerified ∈ steps → message.kind.isBootstrapHello = true →
    ∀ before after middle, steps = before ++ after → (new config).run before = some middle →
      ∀ (addr : String) (entry : PeerEntry), middle.peers[addr]? = some entry →
        entry.instanceId ≠ id

/-- **The connection table is safe** in every interleaving. -/
theorem run_tableSafe {config : NodeConfig} {steps : List TransportStep}
    (hrun : (new config).run steps = some s) : TableSafe config steps s := by
  have hkept := runSteps_invariant sent
    (P := fun events t => t.Sound ∧ t.config = config ∧ Reported events t)
    (fun events t a t' h hstep => ⟨(step_effect hstep).sound h.1,
      (step_effect hstep).config_eq.trans h.2.1, h.2.2.step h.1 hstep⟩) []
    ⟨sound_new config, rfl, reported_new config⟩ hrun
  obtain ⟨hsound, hconfig, hreported⟩ := hkept
  have hconserved := hsound.conserved
  rw [hconfig] at hconserved
  exact {
    bounded := by omega
    permit := fun _ _ => hsound.permit
    conserved := hconserved
    returned := fun _ _ hstep _ _ => (step_effect hstep).permit_returned
    cleanUp := fun _ _ _ hstep hclean _ _ => hsound.cleansUp_keeps hstep hclean
    once := by
      have hnodup := hreported.nodup
      rw [disconnects_append] at hnodup
      exact (List.nodup_append.mp hnodup).1
    after := fun _ => present_before_sent hrun
    bootstrap := by
      rintro id message identityVerified hmem hbootstrap before after middle rfl hbefore addr entry
      obtain ⟨found, hfound, hafter⟩ := runSteps_append.mp hrun
      cases hbefore.symm.trans hfound
      exact bootstrap_not_present hbefore hafter hmem hbootstrap }

def twoPeers : NodeConfig := ⟨2, .bincode, 16, .unverified⟩

def helloFrom (nodeId : NodeId) : WireMessage :=
  ⟨.hello nodeId protocolVersion [.bincode, .json] .bincode⟩

/-- A peer that connects again from the same address, a write to the connection that was
replaced, the ends of both, and a bootstrap client. -/
def replacedPeer : List TransportStep :=
  [.accept "peer", .firstMessage 0 (helloFrom "a") true, .checkRoom 0, .ackWritten 0, .insert 0,
    .send 0, .sendTo "peer",
    .accept "peer", .firstMessage 1 (helloFrom "a") true, .checkRoom 1, .ackWritten 1, .insert 1,
    .wrote 0 false, .readerExit 0, .send 0, .readerExit 1, .send 0,
    .accept "client",
    .firstMessage 2 (.bootstrapHello "c" [.bincode] .bincode "cluster" none 4) true]

theorem replacedPeer_tableSafe :
    disconnects ((new twoPeers).sentAlong replacedPeer) = [1] ∧
      ∃ s, (new twoPeers).run replacedPeer = some s ∧ TableSafe twoPeers replacedPeer s := by
  have hsome : ((new twoPeers).run replacedPeer).isSome = true := by decide +kernel
  obtain ⟨s, hrun⟩ := Option.isSome_iff_exists.mp hsome
  exact ⟨by decide +kernel, s, hrun, run_tableSafe hrun⟩

end Transport

end Numax
