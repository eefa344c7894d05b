import Numax.Core.Reconnect
import Numax.Base.Journal
import Numax.Base.Transition

/-!
# When the reconnect loop dials

What the loop has done to a peer, as its journal tells, determines when the peer may be
dialed again: the abstract schedule of the peer (`PeerSchedule`) counts the plain failures
since the last reset and computes the delay in closed form. The loop's own state follows
that schedule through every run (`Scheduled.step`), whatever the candidates, the outcomes
and the clock are.
-/

open Base

namespace Numax

/-! ## The schedule of a peer -/

/-- Plain failures since the last reset, when the next attempt is due, and whether there
will be none. -/
structure PeerSchedule where
  failures : Nat
  due : Nat
  stopped : Bool
deriving DecidableEq, Repr

section Schedule

variable (latest : Nat) (config : ReconnectConfig)

/-- The delay after `k` plain failures since the last reset. -/
def reconnectDelay (k : Nat) : Nat := backoff config.initial config.cap k

namespace PeerSchedule

/-- Wait so long from now on, or stop if that is not a time. -/
def retry (s : PeerSchedule) (now delay failures : Nat) : PeerSchedule :=
  match checkedAdd latest now delay with
  | none => { s with stopped := true }
  | some due => { s with failures, due }

/-- What the end of a dial means for the schedule. -/
def outcome (s : PeerSchedule) (clock : Nat) : Option ConfiguredPeerConnectOutcome → PeerSchedule
  | none => s
  | some .connected => ⟨0, clock, false⟩
  | some .alreadyConnected => ⟨0, clock, false⟩
  | some .slotLimitReached => s
  | some .failed => s.retry latest clock (reconnectDelay config s.failures) (s.failures + 1)
  | some (.retryAfter delay) =>
    s.retry latest clock (min (max delay nanosPerMilli) config.cap) s.failures
  | some .fatal => { s with stopped := true }

/-- What an entry of the journal means for the schedule of its peer. -/
def apply : Option PeerSchedule → ReconnectEntry → Option PeerSchedule
  | _, .joined _ now => some ⟨0, now, false⟩
  | none, _ => none
  | some _, .seen _ clock => some ⟨0, clock, false⟩
  | some s, .dialed _ _ outcome clock _ => some (s.outcome latest config clock outcome)

/-- The wait that a dial with this outcome is followed by. -/
def wait (s : PeerSchedule) (clock : Nat) : Option ConfiguredPeerConnectOutcome → Option Nat
  | some .failed =>
    (checkedAdd latest clock (reconnectDelay config s.failures)).map fun _ =>
      reconnectDelay config s.failures
  | some (.retryAfter delay) =>
    (checkedAdd latest clock (min (max delay nanosPerMilli) config.cap)).map fun _ =>
      min (max delay nanosPerMilli) config.cap
  | _ => none

/-- What the loop may do to a peer with this schedule: nothing but start it afresh once it
is stopped, and dial it only when it is due. -/
def Allows : Option PeerSchedule → ReconnectEntry → Prop
  | _, .joined _ _ => True
  | schedule, .seen _ _ => ∃ s, schedule = some s ∧ s.stopped = false
  | schedule, .dialed _ dialedAt outcome clock wait =>
    ∃ s, schedule = some s ∧ s.stopped = false ∧ s.due ≤ dialedAt ∧
      wait = s.wait latest config clock outcome

/-- The state of the loop says the same as the schedule. -/
def Describes (schedule : Option PeerSchedule) (peer : PeerReconnectState) : Prop :=
  ∃ s, schedule = some s ∧ peer.nextAttemptAt = s.due ∧ peer.stopped = s.stopped ∧
    peer.delay = reconnectDelay config s.failures

end PeerSchedule

/-- The schedule of a peer as the journal tells. -/
def scheduleOf (log : List ReconnectEntry) (addr : String) : Option PeerSchedule :=
  journalState ReconnectEntry.addr (PeerSchedule.apply latest config) none log addr

end Schedule

namespace ReconnectConfig

variable (config : ReconnectConfig)

theorem initial_le_cap : config.initial ≤ config.cap := le_max_right _ _

theorem initial_pos : 0 < config.initial :=
  lt_of_lt_of_le (by decide) (le_max_right config.initialDelay nanosPerMilli)

theorem cap_le : config.cap ≤ durationMax := by
  have hinitial := config.initialDelay_le
  have hmax := config.maxDelay_le
  have hmilli : nanosPerMilli ≤ durationMax := by decide
  exact max_le hmax (max_le hinitial hmilli)

end ReconnectConfig

variable {entry : ReconnectEntry} {outcome : Option ConfiguredPeerConnectOutcome}
  {wait : Option Nat}

section Visits

variable {latest : Nat} {config : ReconnectConfig}

theorem reconnectDelay_zero : reconnectDelay config 0 = config.initial :=
  backoff_zero config.initial_le_cap

/-- The cap of the code is relative to the current delay, which never exceeds it. -/
theorem nextReconnectDelay_eq (k : Nat) :
    nextReconnectDelay (reconnectDelay config k) config.cap = reconnectDelay config (k + 1) := by
  have hle : reconnectDelay config k ≤ config.cap := backoff_le _ _ k
  rw [nextReconnectDelay, max_eq_left hle]
  exact saturatingDouble_backoff config.cap_le k

theorem reconnectDelay_pos (k : Nat) : 0 < reconnectDelay config k :=
  backoff_pos config.initial_pos (lt_of_lt_of_le config.initial_pos config.initial_le_cap) k

/-- A wait is at least a millisecond and at most the cap, twice over. -/
theorem normalize_boundedRetryAfter (delay : Nat) :
    normalizeReconnectDelay (boundedRetryAfter delay config.cap) =
      min (max delay nanosPerMilli) config.cap := by
  have hcap : nanosPerMilli ≤ config.cap := (le_max_right _ _).trans config.initial_le_cap
  rw [normalizeReconnectDelay, boundedRetryAfter, normalizeReconnectDelay]
  omega

/-! ## One visit -/

namespace PeerSchedule

variable {s : PeerSchedule} {peer : PeerReconnectState} {now clock : Nat}

theorem apply_joined (schedule : Option PeerSchedule) (addr : String) (now : Nat) :
    apply latest config schedule (.joined addr now) = some ⟨0, now, false⟩ := by
  cases schedule with
  | none => rfl
  | some s => rfl

theorem describes_reset (peer : PeerReconnectState) (clock : Nat) :
    Describes config (some ⟨0, clock, false⟩) (peer.reset config.initial clock) :=
  ⟨_, rfl, rfl, rfl, reconnectDelay_zero.symm⟩

theorem describes_stop (h : Describes config (some s) peer) :
    Describes config (some { s with stopped := true }) peer.stop := by
  obtain ⟨_, ⟨⟩, hdue, -, hdelay⟩ := h
  exact ⟨_, rfl, hdue, rfl, hdelay⟩

theorem describes_recordFailure (h : Describes config (some s) peer) :
    (peer.recordFailure latest config.cap clock).2 = s.wait latest config clock (some .failed) ∧
      Describes config (some (s.outcome latest config clock (some .failed)))
        (peer.recordFailure latest config.cap clock).1 := by
  have hstop := describes_stop h
  obtain ⟨_, ⟨⟩, hdue, hstopped, hdelay⟩ := h
  simp only [PeerReconnectState.recordFailure, PeerReconnectState.scheduleRetry, wait, outcome,
    retry, hdelay]
  cases checkedAdd latest clock (reconnectDelay config s.failures) with
  | none => exact ⟨rfl, hstop⟩
  | some deadline => exact ⟨rfl, _, rfl, rfl, hstopped, nextReconnectDelay_eq s.failures⟩

theorem describes_recordRetryAfter (h : Describes config (some s) peer) (delay : Nat) :
    (peer.recordRetryAfter latest (boundedRetryAfter delay config.cap) clock).2 =
        s.wait latest config clock (some (.retryAfter delay)) ∧
      Describes config (some (s.outcome latest config clock (some (.retryAfter delay))))
        (peer.recordRetryAfter latest (boundedRetryAfter delay config.cap) clock).1 := by
  have hstop := describes_stop h
  obtain ⟨_, ⟨⟩, hdue, hstopped, hdelay⟩ := h
  simp only [PeerReconnectState.recordRetryAfter, PeerReconnectState.scheduleRetry, wait, outcome,
    retry, normalize_boundedRetryAfter]
  cases checkedAdd latest clock (min (max delay nanosPerMilli) config.cap) with
  | none => exact ⟨rfl, hstop⟩
  | some deadline => exact ⟨rfl, _, rfl, rfl, hstopped, hdelay⟩

end PeerSchedule

open PeerSchedule

@[simp] theorem addr_recordFailure (peer : PeerReconnectState) (clock : Nat) :
    (peer.recordFailure latest config.cap clock).1.addr = peer.addr := by
  unfold PeerReconnectState.recordFailure PeerReconnectState.scheduleRetry
  cases checkedAdd latest clock peer.delay with
  | none => rfl
  | some deadline => rfl

@[simp] theorem addr_recordRetryAfter (peer : PeerReconnectState) (delay clock : Nat) :
    (peer.recordRetryAfter latest delay clock).1.addr = peer.addr := by
  unfold PeerReconnectState.recordRetryAfter PeerReconnectState.scheduleRetry
  cases checkedAdd latest clock (normalizeReconnectDelay delay) with
  | none => rfl
  | some deadline => rfl

/-- A peer that is looked at is skipped, found connected, or dialed when it is due. -/
theorem visitPeer_cases (now : Nat) (peer : PeerReconnectState) (look : Look) :
    (∃ wait, visitPeer latest config now peer look = ⟨peer, wait, .next, none⟩) ∨
    (peer.stopped = false ∧ visitPeer latest config now peer look =
      ⟨peer.reset config.initial look.clock, none, .next, some (.seen peer.addr look.clock)⟩) ∨
    (peer.stopped = false ∧ peer.nextAttemptAt ≤ now ∧ ∃ after wait turn,
      visitPeer latest config now peer look = ⟨after, wait, turn,
        some (.dialed peer.addr look.dialedAt look.outcome look.clock wait)⟩ ∧
      after.addr = peer.addr ∧
      ∀ s, Describes config (some s) peer → wait = s.wait latest config look.clock look.outcome ∧
        Describes config (some (s.outcome latest config look.clock look.outcome)) after) := by
  unfold visitPeer
  split
  · exact .inl ⟨none, rfl⟩
  · next hrunning =>
      have hstopped : peer.stopped = false := Bool.eq_false_iff.mpr hrunning
      split
      · exact .inr (.inl ⟨hstopped, rfl⟩)
      · split
        · exact .inl ⟨_, rfl⟩
        · next hdue =>
            refine .inr (.inr ⟨hstopped, Nat.le_of_not_lt hdue, ?_⟩)
            -- one case for each outcome of the dial
            rcases look.outcome with _ | (_ | _ | _ | _ | delay | _)
            · exact ⟨_, _, _, rfl, rfl, fun s hs => ⟨rfl, hs⟩⟩
            · exact ⟨_, _, _, rfl, rfl, fun s hs => ⟨rfl, describes_reset peer _⟩⟩
            · exact ⟨_, _, _, rfl, rfl, fun s hs => ⟨rfl, describes_reset peer _⟩⟩
            · exact ⟨_, _, _, rfl, rfl, fun s hs => ⟨rfl, hs⟩⟩
            · exact ⟨_, _, _, rfl, addr_recordFailure _ _, fun s hs => describes_recordFailure hs⟩
            · exact ⟨_, _, _, rfl, addr_recordRetryAfter _ _ _,
                fun s hs => describes_recordRetryAfter hs delay⟩
            · exact ⟨_, _, _, rfl, rfl, fun s hs => ⟨rfl, describes_stop hs⟩⟩

variable (latest config) in
/-- A visit as a relation: the peer after it and the entry it writes. -/
def Visits (round : Round) (peer after : PeerReconnectState) (entry : Option ReconnectEntry) :
    Prop :=
  ∃ k, (visitPeer latest config round.now peer (round.look k)).peer = after ∧
    (visitPeer latest config round.now peer (round.look k)).entry = entry

theorem visitOk (round : Round) :
    VisitOk (Visits latest config round) ReconnectEntry.addr (apply latest config)
      (Allows latest config) PeerReconnectState.addr (Describes config) where
  keeps peer after entry := by
    rintro ⟨k, rfl, rfl⟩
    rcases @visitPeer_cases latest config round.now peer (round.look k) with
      ⟨_, heq⟩ | ⟨-, heq⟩ | ⟨-, -, _, _, _, heq, haddr, -⟩ <;> rw [heq]
    · rfl
    · exact haddr
  own peer after entry := by
    rintro ⟨k, rfl, hentry⟩
    rcases @visitPeer_cases latest config round.now peer (round.look k) with
      ⟨_, heq⟩ | ⟨-, heq⟩ | ⟨-, -, _, _, _, heq, -, -⟩ <;> rw [heq] at hentry <;> cases hentry
    · rfl
    · rfl
  silent schedule peer after := by
    rintro ⟨k, rfl, hentry⟩ htracks
    rcases @visitPeer_cases latest config round.now peer (round.look k) with
      ⟨_, heq⟩ | ⟨-, heq⟩ | ⟨-, -, _, _, _, heq, -, -⟩ <;> rw [heq] at hentry ⊢
    · exact htracks
    · cases hentry
    · cases hentry
  spoken schedule peer after entry := by
    rintro ⟨k, rfl, hentry⟩ htracks
    obtain ⟨s, rfl, hdue, hstopped, hdelay⟩ := htracks
    rcases @visitPeer_cases latest config round.now peer (round.look k) with
      ⟨_, heq⟩ | ⟨hrunning, heq⟩ | ⟨hrunning, hnow, after, wait, _, heq, -, hstep⟩ <;>
      rw [heq] at hentry ⊢ <;> cases hentry
    · exact ⟨⟨s, rfl, hstopped.symm.trans hrunning⟩, describes_reset peer _⟩
    · obtain ⟨hwait, hafter⟩ := hstep s ⟨s, rfl, hdue, hstopped, hdelay⟩
      refine ⟨⟨s, rfl, hstopped.symm.trans hrunning, ?_, hwait⟩, hafter⟩
      have hforward := round.forward k
      omega

/-! ## A round -/

theorem pass_visitPeers (round : Round) (k : Nat) (peers : List PeerReconnectState)
    (sleepFor : Option Nat) :
    Pass (Visits latest config round) peers
      (visitPeers latest config round k peers sleepFor).peers
      (visitPeers latest config round k peers sleepFor).entries := by
  induction peers generalizing k sleepFor with
  | nil => exact .done []
  | cons peer rest ih =>
    have hvisit : Visits latest config round peer _ _ := ⟨k, rfl, rfl⟩
    simp only [visitPeers]
    cases (visitPeer latest config round.now peer (round.look k)).turn with
    | next => exact .next hvisit (ih _ _)
    | leave => simpa using Pass.next hvisit (.done rest)
    | shutdown => simpa using Pass.next hvisit (.done rest)

/-! ## Candidates -/

section Candidates

variable {peers : List PeerReconnectState} {candidates : List String} {now : Nat}

/-- With distinct candidates it does not matter that each takes its state out of the map. -/
theorem takeCandidates_eq (hcandidates : candidates.Nodup)
    (existing : OrdMap String PeerReconnectState) (initialDelay : Nat) :
    takeCandidates initialDelay now existing candidates =
      candidates.map fun addr => existing[addr]?.getD (.new addr initialDelay now) := by
  induction candidates generalizing existing with
  | nil => rfl
  | cons addr rest ih =>
    obtain ⟨hnew, hrest⟩ := List.nodup_cons.mp hcandidates
    simp only [takeCandidates, List.map_cons]
    cases existing[addr]? with
    | none => simp only [ih hrest, Option.getD_none]
    | some peer =>
      simp only [ih hrest, Option.getD_some]
      refine congrArg _ (List.map_congr_left fun other hother => ?_)
      have hne : addr ≠ other := fun heq => hnew (heq ▸ hother)
      rw [OrdMap.get_erase, if_neg hne]

/-- The state a candidate has after the update. -/
theorem reconcile_eq (hpeers : (peers.map (·.addr)).Nodup) (hcandidates : candidates.Nodup) :
    ∃ stateAt : String → PeerReconnectState,
      reconcile config peers candidates now = candidates.map stateAt ∧
      (∀ peer ∈ peers, stateAt peer.addr = peer) ∧
      ∀ addr, addr ∉ peers.map (·.addr) → stateAt addr = .new addr config.initial now := by
  refine ⟨_, takeCandidates_eq hcandidates _ _, fun peer hpeer => ?_, fun addr hnew => ?_⟩
  · have hget : (OrdMap.insertAll ∅ (peers.map fun peer => (peer.addr, peer)))[peer.addr]? =
        some peer := by
      refine OrdMap.get_insertAll_of_mem _ _ ?_ (List.mem_map.mpr ⟨peer, hpeer, rfl⟩)
      rwa [List.map_map]
    rw [hget, Option.getD_some]
  · have hget : (OrdMap.insertAll ∅ (peers.map fun peer => (peer.addr, peer)))[addr]? = none := by
      refine (OrdMap.get_insertAll_of_not_mem _ _ _ ?_).trans (by simp)
      rwa [List.map_map]
    rw [hget, Option.getD_none]

theorem mem_reconcile (hpeers : (peers.map (·.addr)).Nodup) (hcandidates : candidates.Nodup)
    {peer : PeerReconnectState} (hpeer : peer ∈ reconcile config peers candidates now) :
    peer ∈ peers ∨ peer.addr ∉ peers.map (·.addr) ∧ peer.addr ∈ candidates ∧
      peer = .new peer.addr config.initial now := by
  obtain ⟨stateAt, heq, hold, hnew⟩ := @reconcile_eq config peers candidates now hpeers hcandidates
  rw [heq] at hpeer
  obtain ⟨addr, haddr, rfl⟩ := List.mem_map.mp hpeer
  by_cases hknown : addr ∈ peers.map (·.addr)
  · obtain ⟨old, hin, rfl⟩ := List.mem_map.mp hknown
    rw [hold old hin]
    exact .inl hin
  · rw [hnew addr hknown]
    exact .inr ⟨hknown, haddr, rfl⟩

/-- A peer that is still a candidate keeps its state. -/
theorem mem_reconcile_of_mem (hpeers : (peers.map (·.addr)).Nodup) (hcandidates : candidates.Nodup)
    {peer : PeerReconnectState} (hpeer : peer ∈ peers) (hkept : peer.addr ∈ candidates) :
    peer ∈ reconcile config peers candidates now := by
  obtain ⟨stateAt, heq, hold, -⟩ := @reconcile_eq config peers candidates now hpeers hcandidates
  rw [heq]
  exact List.mem_map.mpr ⟨peer.addr, hkept, hold peer hpeer⟩

theorem map_addr_reconcile (hpeers : (peers.map (·.addr)).Nodup) (hcandidates : candidates.Nodup) :
    (reconcile config peers candidates now).map (·.addr) = candidates := by
  obtain ⟨stateAt, heq, hold, hnew⟩ := @reconcile_eq config peers candidates now hpeers hcandidates
  have haddr : ∀ addr ∈ candidates, (stateAt addr).addr = addr := by
    intro addr _
    by_cases hknown : addr ∈ peers.map (·.addr)
    · obtain ⟨old, hin, rfl⟩ := List.mem_map.mp hknown
      rw [hold old hin]
    · rw [hnew addr hknown]
      rfl
  rw [heq, List.map_map]
  exact (List.map_congr_left haddr).trans (List.map_id _)

theorem mem_joiners :
    entry ∈ joiners peers candidates now ↔
      ∃ addr ∈ candidates, addr ∉ peers.map (·.addr) ∧ entry = .joined addr now := by
  unfold joiners
  simp only [List.mem_map, List.mem_filter, decide_eq_true_eq]
  constructor
  · rintro ⟨addr, ⟨hcandidate, hnew⟩, rfl⟩
    exact ⟨addr, hcandidate, hnew, rfl⟩
  · rintro ⟨addr, hcandidate, hnew, rfl⟩
    exact ⟨addr, ⟨hcandidate, hnew⟩, rfl⟩

end Candidates

/-! ## Runs -/

variable (latest config) in
/-- The peers of the loop have distinct addresses and the state that the journal tells, and
the journal has nothing in it that was not allowed. -/
structure Scheduled (log : List ReconnectEntry) (loop : ReconnectLoop) : Prop where
  distinct : (loop.peers.map (·.addr)).Nodup
  lawful : Lawful ReconnectEntry.addr (apply latest config) none (Allows latest config) log
  tracks : ∀ peer ∈ loop.peers, Describes config (scheduleOf latest config log peer.addr) peer

theorem Scheduled.round {log : List ReconnectEntry} {loop : ReconnectLoop}
    (h : Scheduled latest config log loop) (round : Round) (phase : ReconnectPhase) :
    Scheduled latest config
      (log ++ (visitPeers latest config round 0 loop.peers none).entries)
      ⟨(visitPeers latest config round 0 loop.peers none).peers, phase⟩ := by
  have hpass := @pass_visitPeers latest config round 0 loop.peers none
  obtain ⟨hlawful, htracks⟩ := hpass.tracks (visitOk round) h.distinct h.lawful h.tracks
  refine ⟨?_, hlawful, htracks⟩
  rw [hpass.map_keyOf (visitOk round)]
  exact h.distinct

variable {loop : ReconnectLoop}

theorem Scheduled.reconcile {log : List ReconnectEntry} (h : Scheduled latest config log loop)
    {candidates : List String} (hdistinct : candidates.Nodup) (now : Nat) (phase : ReconnectPhase) :
    Scheduled latest config (log ++ joiners loop.peers candidates now)
      ⟨reconcile config loop.peers candidates now, phase⟩ := by
  refine ⟨?_, h.lawful.append fun entry hentry schedule => ?_, fun peer hpeer => ?_⟩
  · rw [map_addr_reconcile h.distinct hdistinct]
    exact hdistinct
  · obtain ⟨addr, -, -, rfl⟩ := mem_joiners.mp hentry
    exact trivial
  · rcases mem_reconcile h.distinct hdistinct hpeer with hold | ⟨hnew, hcandidate, heq⟩
    · -- the entries are about others
      rw [scheduleOf, journalState_append_of_ne]
      · exact h.tracks peer hold
      · intro entry hentry haddr
        obtain ⟨addr, -, hother, rfl⟩ := mem_joiners.mp hentry
        rw [show addr = peer.addr from haddr] at hother
        exact hother (List.mem_map_of_mem hold)
    · -- a peer that is new has no other entry behind its joining
      rw [scheduleOf, journalState_append_of_const (some ⟨0, now, false⟩)]
      · rw [heq]
        exact ⟨_, rfl, rfl, rfl, reconnectDelay_zero.symm⟩
      · intro entry hentry haddr schedule
        obtain ⟨addr, -, -, rfl⟩ := mem_joiners.mp hentry
        exact apply_joined schedule addr now
      · exact ⟨_, mem_joiners.mpr ⟨peer.addr, hcandidate, hnew, rfl⟩, rfl⟩

/-- Updates bring distinct candidates. -/
def ReconnectEvent.DistinctCandidates : ReconnectEvent → Prop
  | .updated candidates _ => candidates.Nodup
  | _ => True

theorem Scheduled.step {log : List ReconnectEntry} {next : ReconnectLoop} {event : ReconnectEvent}
    (h : Scheduled latest config log loop) (hdistinct : event.DistinctCandidates)
    (hstep : loop.step latest config event = some next) :
    Scheduled latest config (log ++ loop.entries latest config event) next := by
  -- steps that only change the phase
  have hquiet : next.peers = loop.peers → Scheduled latest config (log ++ []) next := by
    intro hpeers
    rw [List.append_nil]
    exact ⟨hpeers ▸ h.distinct, h.lawful, hpeers ▸ h.tracks⟩
  obtain ⟨peers, phase⟩ := loop
  cases event with
  | round round =>
    cases phase with
    | awake =>
      cases hstep
      exact h.round round _
    | asleep deadline => cases hstep
    | terminated => cases hstep
  | updated candidates now =>
    cases phase with
    | awake => cases hstep
    | asleep deadline =>
      cases hstep
      exact h.reconcile hdistinct now _
    | terminated => cases hstep
  | woke now =>
    cases phase with
    | awake => cases hstep
    | asleep deadline =>
      obtain ⟨-, heq⟩ := Option.ite_none_right_eq_some.mp hstep
      cases heq
      exact hquiet rfl
    | terminated => cases hstep
  | shutdown =>
    cases phase with
    | awake =>
      cases hstep
      exact hquiet rfl
    | asleep deadline =>
      cases hstep
      exact hquiet rfl
    | terminated => cases hstep

theorem Scheduled.run {candidates : List String} {now : Nat} {events : List ReconnectEvent}
    {loop : ReconnectLoop} (hcandidates : candidates.Nodup)
    (hupdates : ∀ event ∈ events, event.DistinctCandidates)
    (hrun : runSteps (ReconnectLoop.step latest config) (.start config candidates now) events =
      some loop) :
    Scheduled latest config (joiners [] candidates now ++
      outputs (ReconnectLoop.step latest config) (ReconnectLoop.entries latest config)
        (.start config candidates now) events) loop := by
  have hempty : Scheduled latest config [] ⟨[], .awake⟩ :=
    ⟨List.nodup_nil, lawful_nil, fun peer hpeer => nomatch hpeer⟩
  have hstart : Scheduled latest config (joiners [] candidates now)
      (.start config candidates now) :=
    hempty.reconcile hcandidates now .awake
  exact runSteps_invariant_on (ReconnectLoop.entries latest config)
    ReconnectEvent.DistinctCandidates
    (fun log loop event next hevent h hstep => h.step hevent hstep)
    hupdates _ hstart hrun

/-- A peer is dialed in a round if it has not stopped and is due. -/
theorem due_of_dialed {round : Round} {addr : String} {dialedAt clock : Nat}
    (h : .dialed addr dialedAt outcome clock wait ∈ loop.entries latest config (.round round)) :
    ∃ peer ∈ loop.peers, peer.addr = addr ∧ peer.stopped = false ∧
      peer.nextAttemptAt ≤ dialedAt := by
  obtain ⟨peer, hpeer, after, k, -, hentry⟩ :=
    (pass_visitPeers round 0 loop.peers none).mem_entries _ h
  rcases @visitPeer_cases latest config round.now peer (round.look k) with
    ⟨_, heq⟩ | ⟨-, heq⟩ | ⟨hrunning, hdue, _, _, _, heq, -, -⟩ <;> rw [heq] at hentry <;>
    cases hentry
  exact ⟨peer, hpeer, rfl, hrunning, hdue.trans (round.forward k)⟩

end Visits

/-! ## What the journal tells -/

/-- Entries that start the count of failures of a peer again. -/
def ReconnectEntry.Resets (addr : String) : ReconnectEntry → Prop
  | .joined a _ => a = addr
  | .seen a _ => a = addr
  | .dialed a _ outcome _ _ =>
    a = addr ∧ (outcome = some .connected ∨ outcome = some .alreadyConnected)

/-- Entries after which a peer is not dialed again: a fatal outcome, or a wait for a
deadline that is not a time. -/
def ReconnectEntry.Ends (addr : String) : ReconnectEntry → Prop
  | .dialed a _ outcome _ wait =>
    a = addr ∧ (outcome = some .fatal ∨
      wait = none ∧ (outcome = some .failed ∨ ∃ delay, outcome = some (.retryAfter delay)))
  | _ => False

/-- Count plain failures. -/
def countFailure (n : Nat) : ReconnectEntry → Nat
  | .joined _ _ => 0
  | .seen _ _ => 0
  | .dialed _ _ (some .connected) _ _ => 0
  | .dialed _ _ (some .alreadyConnected) _ _ => 0
  | .dialed _ _ (some .failed) _ _ => n + 1
  | .dialed _ _ _ _ _ => n

/-- The plain failures of a peer since its last reset. -/
def plainFailures (log : List ReconnectEntry) (addr : String) : Nat :=
  journalState ReconnectEntry.addr countFailure 0 log addr

section Journals

variable {latest : Nat} {config : ReconnectConfig} {log more : List ReconnectEntry} {addr : String}
  {s : PeerSchedule}

open PeerSchedule

theorem retry_cases (now delay failures : Nat) :
    s.retry latest now delay failures = { s with stopped := true } ∨
      (s.retry latest now delay failures).failures = failures := by
  unfold retry
  cases checkedAdd latest now delay with
  | none => exact .inl rfl
  | some due => exact .inr rfl

/-- Without a reset failures only add up. -/
theorem failures_le_apply {entry : ReconnectEntry} (h : ¬ entry.Resets entry.addr) :
    ∃ s', apply latest config (some s) entry = some s' ∧ s.failures ≤ s'.failures := by
  cases entry with
  | joined a now => exact absurd rfl h
  | seen a clock => exact absurd rfl h
  | dialed a dialedAt outcome clock wait =>
    refine ⟨_, rfl, ?_⟩
    rcases outcome with _ | (_ | _ | _ | _ | delay | _)
    · exact le_rfl
    · exact absurd ⟨rfl, .inl rfl⟩ h
    · exact absurd ⟨rfl, .inr rfl⟩ h
    · exact le_rfl
    · rcases @retry_cases latest s clock (reconnectDelay config s.failures) (s.failures + 1) with
        heq | heq
      · exact (congrArg PeerSchedule.failures heq).ge
      · exact (Nat.le_succ _).trans heq.ge
    · rcases @retry_cases latest s clock (min (max delay nanosPerMilli) config.cap)
        s.failures with
        heq | heq
      · exact (congrArg PeerSchedule.failures heq).ge
      · exact heq.ge
    · exact le_rfl

/-- As long as there is a next attempt, the schedule counts what is in the journal. -/
theorem failures_outcome {a : String} {dialedAt clock : Nat}
    (h : (s.outcome latest config clock outcome).stopped = false) :
    (s.outcome latest config clock outcome).failures =
      countFailure s.failures (.dialed a dialedAt outcome clock wait) := by
  rcases outcome with _ | (_ | _ | _ | _ | delay | _)
  · rfl
  · rfl
  · rfl
  · rfl
  · rcases @retry_cases latest s clock (reconnectDelay config s.failures) (s.failures + 1) with
      heq | heq
    · exact absurd ((congrArg PeerSchedule.stopped heq).symm.trans h) (by simp)
    · exact heq
  · rcases @retry_cases latest s clock (min (max delay nanosPerMilli) config.cap) s.failures with
      heq | heq
    · exact absurd ((congrArg PeerSchedule.stopped heq).symm.trans h) (by simp)
    · exact heq
  · cases h

/-- A peer that has stopped is left alone until it joins again. -/
theorem scheduleOf_of_stopped
    (hlawful : Lawful ReconnectEntry.addr (apply latest config) none (Allows latest config)
      (log ++ more))
    (h : scheduleOf latest config log addr = some s) (hstopped : s.stopped = true)
    (hnever : ∀ now, .joined addr now ∉ more) :
    scheduleOf latest config (log ++ more) addr = some s := by
  refine hlawful.keeps (· = some s) (fun entry hentry haddr state hallowed hstate => ?_) h
  subst hstate
  -- a stopped peer allows no entry but a joining
  cases entry with
  | joined a now =>
    cases haddr
    exact absurd hentry (hnever now)
  | seen a clock =>
    obtain ⟨_, ⟨⟩, hrunning⟩ := hallowed
    rw [hstopped] at hrunning
    cases hrunning
  | dialed a dialedAt outcome clock wait =>
    obtain ⟨_, ⟨⟩, hrunning, -⟩ := hallowed
    rw [hstopped] at hrunning
    cases hrunning

theorem failures_le_of_no_reset (h : scheduleOf latest config log addr = some s)
    (hnever : ∀ entry ∈ more, ¬ entry.Resets addr) :
    ∃ s', scheduleOf latest config (log ++ more) addr = some s' ∧ s.failures ≤ s'.failures := by
  refine journalState_keeps (fun state => ∃ s', state = some s' ∧ s.failures ≤ s'.failures)
    (fun entry hentry haddr state hstate => ?_) ⟨s, h, le_rfl⟩
  obtain ⟨s', rfl, hle⟩ := hstate
  obtain ⟨s'', hs'', hle'⟩ :=
    @failures_le_apply latest config s' entry (haddr ▸ hnever entry hentry)
  exact ⟨s'', hs'', hle.trans hle'⟩

theorem failures_eq_plainFailures
    (hlawful : Lawful ReconnectEntry.addr (apply latest config) none (Allows latest config) log)
    (h : scheduleOf latest config log addr = some s) (hrunning : s.stopped = false) :
    s.failures = plainFailures log addr := by
  induction log using List.reverseRecOn generalizing s with
  | nil => cases h
  | append_singleton log entry ih =>
    by_cases haddr : entry.addr = addr
    · subst haddr
      have hallowed := hlawful.last
      rw [scheduleOf, journalState_concat] at h
      rw [plainFailures, journalState_concat]
      cases entry with
      | joined a now =>
        rw [apply_joined] at h
        cases h
        rfl
      | seen a clock =>
        obtain ⟨s', hs', -⟩ := hallowed
        rw [hs'] at h
        cases h
        rfl
      | dialed a dialedAt outcome clock wait =>
        obtain ⟨s', hs', hrunning', -⟩ := hallowed
        rw [hs'] at h
        cases h
        rw [failures_outcome hrunning, ih hlawful.left hs' hrunning']
        rfl
    · rw [scheduleOf, journalState_append_of_ne (by simpa using haddr)] at h
      rw [plainFailures, journalState_append_of_ne (by simpa using haddr)]
      exact ih hlawful.left h hrunning

theorem ReconnectEntry.Ends.eq_dialed (h : entry.Ends addr) :
    ∃ dialedAt outcome clock wait, entry = .dialed addr dialedAt outcome clock wait := by
  cases entry with
  | joined a now => cases h
  | seen a clock => cases h
  | dialed a dialedAt outcome clock wait => exact ⟨dialedAt, outcome, clock, wait, by rw [h.1]⟩

theorem stopped_of_ends (hallowed : Allows latest config (some s) entry) (h : entry.Ends addr) :
    ∃ s', apply latest config (some s) entry = some s' ∧ s'.stopped = true := by
  obtain ⟨dialedAt, outcome, clock, wait, rfl⟩ := h.eq_dialed
  obtain ⟨_, ⟨⟩, -, -, hwait⟩ := hallowed
  -- no wait means that there was no deadline
  have hretry : ∀ delay failures, (checkedAdd latest clock delay).map (fun _ => delay) = none →
      (s.retry latest clock delay failures).stopped = true := by
    intro delay failures hnone
    rw [retry, Option.map_eq_none_iff.mp hnone]
  refine ⟨_, rfl, ?_⟩
  rcases h with ⟨-, rfl | ⟨rfl, rfl | ⟨delay, rfl⟩⟩⟩
  · rfl
  · exact hretry _ _ hwait.symm
  · exact hretry _ _ hwait.symm

variable {earlier between later : List ReconnectEntry} {dialedAt clock delay : Nat}

theorem joined_of_dialed_after_end {ending : ReconnectEntry}
    (hlawful : Lawful ReconnectEntry.addr (apply latest config) none (Allows latest config)
      (earlier ++ ending :: (between ++ .dialed addr dialedAt outcome clock wait :: later)))
    (hends : ending.Ends addr) : ∃ at', .joined addr at' ∈ between := by
  by_contra hnever
  obtain ⟨startedAt, how, endedAt, waited, rfl⟩ := hends.eq_dialed
  have hallowed := hlawful _ _ _ rfl
  obtain ⟨s, hs, -⟩ := id hallowed
  rw [hs] at hallowed
  obtain ⟨s', hs', hstopped⟩ := stopped_of_ends hallowed hends
  -- the ending stops the peer, and it stays stopped up to the second dial
  have hended : scheduleOf latest config
      (earlier ++ [.dialed addr startedAt how endedAt waited]) addr = some s' :=
    journalState_concat.trans ((congrArg (apply latest config · _) hs).trans hs')
  rw [List.append_cons, ← List.append_assoc] at hlawful
  have hkept := scheduleOf_of_stopped hlawful.left hended hstopped fun at' hin => hnever ⟨at', hin⟩
  obtain ⟨s'', hs'', hrunning, -⟩ := hlawful _ _ _ rfl
  cases hkept.symm.trans hs''
  rw [hstopped] at hrunning
  cases hrunning

/-- A plain failure waits as long as the failures before it say, and counts. -/
theorem failed_delay
    (hlawful : Lawful ReconnectEntry.addr (apply latest config) none (Allows latest config)
      (earlier ++ .dialed addr dialedAt (some .failed) clock (some delay) :: later)) :
    ∃ s, scheduleOf latest config earlier addr = some s ∧ s.stopped = false ∧
      delay = reconnectDelay config s.failures ∧
      ∃ s', scheduleOf latest config
        (earlier ++ [.dialed addr dialedAt (some .failed) clock (some delay)]) addr = some s' ∧
        s'.failures = s.failures + 1 := by
  obtain ⟨s, hs, hrunning, -, hwait⟩ := hlawful _ _ _ rfl
  obtain ⟨due, hdue, rfl⟩ := Option.map_eq_some_iff.mp hwait.symm
  refine ⟨s, hs, hrunning, rfl, _,
    journalState_concat.trans (congrArg (apply latest config · _) hs), ?_⟩
  simp only [outcome, retry, hdue]

theorem delay_le_of_no_reset {dialedAt' clock' delay' : Nat}
    (hlawful : Lawful ReconnectEntry.addr (apply latest config) none (Allows latest config)
      (earlier ++ .dialed addr dialedAt (some .failed) clock (some delay) ::
        (between ++ .dialed addr dialedAt' (some .failed) clock' (some delay') :: later)))
    (hnever : ∀ entry ∈ between, ¬ entry.Resets addr) : delay ≤ delay' := by
  obtain ⟨s, -, -, rfl, s₁, hs₁, hfailures⟩ := failed_delay hlawful
  rw [List.append_cons, ← List.append_assoc] at hlawful
  obtain ⟨s₂, hs₂, -, rfl, -⟩ := failed_delay hlawful
  -- the failures before the second dial are more, and the backoff is monotone
  obtain ⟨s₃, hs₃, hle⟩ := failures_le_of_no_reset hs₁ hnever
  cases hs₂.symm.trans hs₃
  exact backoff_mono _ _ (by omega)

end Journals

/-- In every run of the reconnect loop with distinct candidates, for the peers in its list
and its journal:

* the next round dials a peer only if it has not stopped and its `next_attempt_at` is not
  later than the dial, and that time is the one the journal tells;
* after a fatal outcome, or a wait for a deadline that is not a time, a peer is not dialed
  again unless it has joined anew;
* an update keeps the state of every peer that stays, and only others join;
* the wait after the `k`-th plain failure since the last reset is the initial delay doubled
  `k - 1` times and cut at the maximum; it is not zero;
* it does not get shorter until the next reset. -/
theorem reconnect_schedule (latest : Nat) (config : ReconnectConfig) {candidates : List String}
    {now : Nat} {events : List ReconnectEvent} {loop : ReconnectLoop} {log : List ReconnectEntry}
    (hcandidates : candidates.Nodup) (hupdates : ∀ event ∈ events, event.DistinctCandidates)
    (hrun : runSteps (ReconnectLoop.step latest config) (.start config candidates now) events =
      some loop)
    (hlog : log = joiners [] candidates now ++ outputs (ReconnectLoop.step latest config)
      (ReconnectLoop.entries latest config) (.start config candidates now) events) :
    (∀ (round : Round) (addr : String) (dialedAt : Nat) outcome (clock : Nat) wait,
      .dialed addr dialedAt outcome clock wait ∈ loop.entries latest config (.round round) →
      ∃ peer ∈ loop.peers, peer.addr = addr ∧ peer.stopped = false ∧
        peer.nextAttemptAt ≤ dialedAt) ∧
    (∀ peer ∈ loop.peers, ∃ s, scheduleOf latest config log peer.addr = some s ∧
      peer.nextAttemptAt = s.due ∧ peer.stopped = s.stopped) ∧
    (∀ (earlier : List ReconnectEntry) (addr : String) (dialedAt : Nat) outcome (clock : Nat) wait
        (later : List ReconnectEntry),
      log = earlier ++ .dialed addr dialedAt outcome clock wait :: later →
      ∃ s, scheduleOf latest config earlier addr = some s ∧ s.stopped = false ∧ s.due ≤ dialedAt) ∧
    (∀ (earlier : List ReconnectEntry) (ending : ReconnectEntry) (between : List ReconnectEntry)
        (addr : String) (dialedAt : Nat) outcome (clock : Nat) wait (later : List ReconnectEntry),
      log = earlier ++ ending :: (between ++ .dialed addr dialedAt outcome clock wait :: later) →
      ending.Ends addr → ∃ at', .joined addr at' ∈ between) ∧
    (∀ (candidates' : List String) (now' : Nat) (next : ReconnectLoop), candidates'.Nodup →
      loop.step latest config (.updated candidates' now') = some next →
      (∀ peer ∈ loop.peers, peer.addr ∈ candidates' → peer ∈ next.peers) ∧
      ∀ addr at', .joined addr at' ∈ loop.entries latest config (.updated candidates' now') →
        ∀ peer ∈ loop.peers, peer.addr ≠ addr) ∧
    (∀ (earlier : List ReconnectEntry) (addr : String) (dialedAt clock delay : Nat)
        (later : List ReconnectEntry) (k : Nat),
      log = earlier ++ .dialed addr dialedAt (some .failed) clock (some delay) :: later →
      k = plainFailures earlier addr + 1 →
      delay = min (min (max config.initialDelay nanosPerMilli * 2 ^ (k - 1)) durationMax)
        (max config.maxDelay (max config.initialDelay nanosPerMilli)) ∧ 0 < delay) ∧
    (∀ (earlier : List ReconnectEntry) (addr : String) (dialedAt clock delay : Nat)
        (between : List ReconnectEntry) (dialedAt' clock' delay' : Nat)
        (later : List ReconnectEntry),
      log = earlier ++ .dialed addr dialedAt (some .failed) clock (some delay) ::
        (between ++ .dialed addr dialedAt' (some .failed) clock' (some delay') :: later) →
      (∀ entry ∈ between, ¬ entry.Resets addr) → delay ≤ delay') := by
  subst hlog
  have h := Scheduled.run hcandidates hupdates hrun
  generalize joiners [] candidates now ++ outputs (ReconnectLoop.step latest config)
    (ReconnectLoop.entries latest config) (.start config candidates now) events = log at h
  refine ⟨fun round addr dialedAt outcome clock wait hentry => due_of_dialed hentry, ?_, ?_, ?_, ?_,
    ?_, ?_⟩
  · -- the journal tells the state of every peer
    intro peer hpeer
    obtain ⟨s, hs, hdue, hstopped, -⟩ := h.tracks peer hpeer
    exact ⟨s, hs, hdue, hstopped⟩
  · intro earlier addr dialedAt outcome clock wait later heq
    obtain ⟨s, hs, hrunning, hdue, -⟩ := h.lawful _ _ _ heq
    exact ⟨s, hs, hrunning, hdue⟩
  · rintro earlier ending between addr dialedAt outcome clock wait later rfl hends
    exact joined_of_dialed_after_end h.lawful hends
  · -- an update is only taken while the loop is asleep
    intro candidates' now' next hdistinct hstep
    obtain ⟨peers, phase⟩ := loop
    cases phase with
    | awake => cases hstep
    | terminated => cases hstep
    | asleep deadline =>
      cases hstep
      refine ⟨fun peer hpeer hkept => mem_reconcile_of_mem h.distinct hdistinct hpeer hkept,
        fun addr at' hjoined peer hpeer heq => ?_⟩
      obtain ⟨other, -, hnew, hsame⟩ := mem_joiners.mp hjoined
      cases hsame
      exact hnew (heq ▸ List.mem_map_of_mem hpeer)
  · -- the failures the loop counts are those of the journal
    rintro earlier addr dialedAt clock delay later k rfl rfl
    obtain ⟨s, hs, hrunning, rfl, -⟩ := failed_delay h.lawful
    rw [failures_eq_plainFailures h.lawful.left hs hrunning, Nat.add_sub_cancel]
    exact ⟨backoff_eq_saturated config.cap_le _, reconnectDelay_pos _⟩
  · rintro earlier addr dialedAt clock delay between dialedAt' clock' delay' later rfl hnever
    exact delay_le_of_no_reset h.lawful hnever

/-! Two failures in a row with delays of at least one and at most three milliseconds; the
second comes when the first wait is over. -/

theorem briefDelays_initial : 0 ≤ durationMax := Nat.zero_le _

theorem briefDelays_max : 3000000 ≤ durationMax := by decide

def briefDelays : ReconnectConfig := ⟨0, 3000000, briefDelays_initial, briefDelays_max⟩

/-- Every dial starts with the round and fails at once. -/
def failingRound (now : Nat) : Round :=
  ⟨now, fun _ => ⟨false, now, some .failed, now⟩, now, fun _ => Nat.le_refl now⟩

def failingRun : List ReconnectEvent :=
  [.round (failingRound 5), .woke 1000005, .round (failingRound 1000005),
    .updated ["a", "b"] 1000006]

theorem failingRun_distinct : ∀ event ∈ failingRun, event.DistinctCandidates := by
  simp [failingRun, ReconnectEvent.DistinctCandidates]

theorem reconnect_schedule_failing :
    ∃ loop, runSteps (ReconnectLoop.step (10 ^ 12) briefDelays) (.start briefDelays ["a"] 0)
        failingRun = some loop ∧
      loop.peers = [⟨"a", 3000000, 3000005, false⟩, ⟨"b", 1000000, 1000006, false⟩] ∧
      ∀ peer ∈ loop.peers, ∃ s, scheduleOf (10 ^ 12) briefDelays
          (joiners [] ["a"] 0 ++ outputs (ReconnectLoop.step (10 ^ 12) briefDelays)
            (ReconnectLoop.entries (10 ^ 12) briefDelays) (.start briefDelays ["a"] 0) failingRun)
          peer.addr = some s ∧ peer.nextAttemptAt = s.due ∧ peer.stopped = s.stopped := by
  have hrun : (runSteps (ReconnectLoop.step (10 ^ 12) briefDelays) (.start briefDelays ["a"] 0)
      failingRun).any (fun loop => loop.peers =
        [⟨"a", 3000000, 3000005, false⟩, ⟨"b", 1000000, 1000006, false⟩]) = true := by
    decide +kernel
  obtain ⟨loop, hloop, hpeers⟩ := (Option.any_eq_true _ _).mp hrun
  exact ⟨loop, hloop, of_decide_eq_true hpeers, (reconnect_schedule (10 ^ 12) briefDelays (by simp)
    failingRun_distinct hloop rfl).2.1⟩

end Numax
