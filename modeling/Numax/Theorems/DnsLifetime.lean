import Numax.Base.Transition
import Numax.Discovery.DnsRefresh
import Numax.Theorems.DynamicState
import Numax.Theorems.SrvRecords

/-!
# DNS views and their lifetime

The refresh loop watches the lifetime of its view in four places: in the time of the next
refresh, while a lookup is pending, when it fails, and when its answer is already over.
One invariant covers them (`Fresh`): a view that is not empty is that of the last accepted
answer, its lifetime is the one the loop knows, and a sleeping loop wakes up before it is
over.

All of that is up to the last revision of the provider. Then changes are rejected, so that
a view stays as it is.
-/

open Base

namespace Numax

open DiscoveryWorld

/-! ## The invariant -/

variable {world : DiscoveryWorld} {now : Nat}

section Loop

variable {dns : DnsNames} {v6 : Ipv6Text} {debug : List Char → String} {latest : Nat}
  {config : DnsSrvDiscoveryConfig}

variable (v6 debug config) in
/-- Until the revisions are used up: without a lifetime the view is empty; otherwise the
lifetime is that of the last accepted answer, a view that is not empty is its view, and a
sleeping loop wakes up in time. -/
structure Fresh (accepted : List (SrvAnswer dns)) (loop : DnsRefresh) : Prop where
  expired : loop.validUntil = none → loop.world.state.revision < u64Max →
    loop.world.state.peers = []
  current : ∀ deadline, loop.validUntil = some deadline →
    ∃ answer, accepted.getLast? = some answer ∧ answer.validUntil = deadline ∧
      (loop.world.state.revision < u64Max → loop.world.state.peers ≠ [] →
        loop.world.state.peers = answer.peers v6 debug config)
  timely : ∀ nextRefresh deadline, loop.phase = .sleeping nextRefresh →
    loop.validUntil = some deadline → loop.world.state.revision < u64Max →
    loop.world.state.peers ≠ [] → nextRefresh ≤ deadline

variable {accepted : List (SrvAnswer dns)} {loop next : DnsRefresh}

theorem fresh_start (hempty : world.state.peers = []) (now : Nat) :
    Fresh v6 debug config ([] : List (SrvAnswer dns)) (.start world now) where
  expired _ _ := hempty
  current _ h := nomatch h
  timely _ _ _ h := nomatch h

/-- A change of the phase, away from sleep. -/
theorem Fresh.awake (h : Fresh v6 debug config accepted loop) {phase : DnsPhase}
    (hphase : ∀ nextRefresh, phase ≠ .sleeping nextRefresh) :
    Fresh v6 debug config accepted { loop with phase } where
  expired := h.expired
  current := h.current
  timely nextRefresh _ heq := absurd heq (hphase nextRefresh)

/-- The view is cleared; the lifetime stays or is forgotten. -/
theorem Fresh.cleared (h : Fresh v6 debug config accepted loop)
    (hworld : world.state.revision < u64Max → world.state.peers = []) {validUntil : Option Nat}
    (hvalid : validUntil = none ∨ validUntil = loop.validUntil) (phase : DnsPhase) :
    Fresh v6 debug config accepted ⟨world, validUntil, phase⟩ where
  expired _ hroom := hworld hroom
  current deadline heq := by
    rcases hvalid with rfl | rfl
    · cases heq
    · obtain ⟨answer, hlast, hdeadline, -⟩ := h.current deadline heq
      exact ⟨answer, hlast, hdeadline, fun hroom hview => absurd (hworld hroom) hview⟩
  timely _ _ _ _ hroom hview := absurd (hworld hroom) hview

variable (latest config) in
/-- A failed lookup clears a view whose lifetime is over, and sleeps at most for a retry. -/
theorem DnsRefresh.failed_eq (loop : DnsRefresh) (error : DiscoveryError) (now : Nat) :
    ∃ phase, loop.failed latest config error now =
        ⟨if loop.validUntil.any fun deadline => decide (now ≥ deadline) then
          loop.world.replace [] fun _ => now else loop.world, loop.validUntil, phase⟩ ∧
      ∀ nextRefresh, phase = .sleeping nextRefresh →
        retryDeadline latest config now loop.validUntil = .ok nextRefresh := by
  unfold DnsRefresh.failed
  extract_lets world fatal
  split
  · exact ⟨_, rfl, nofun⟩
  · split
    · exact ⟨_, rfl, nofun⟩
    · next retry hretry =>
        refine ⟨_, rfl, fun nextRefresh heq => ?_⟩
        cases heq
        exact hretry

theorem retryDeadline_le {deadline nextRefresh : Nat}
    (h : retryDeadline latest config now (some deadline) = .ok nextRefresh)
    (hlive : now < deadline) : nextRefresh ≤ deadline := by
  unfold retryDeadline at h
  cases hretry : checkedDeadline latest now config.retryInterval DnsSrvDiscoveryConfig.provider
      "retry_interval" with
  | error error =>
    rw [hretry] at h
    cases h
  | ok retry =>
    have hfilter : (some deadline).filter (fun deadline => decide (deadline > now)) =
        some deadline := Option.filter_some_pos (decide_eq_true hlive)
    rw [hretry, hfilter] at h
    cases h
    exact min_le_left _ _

theorem Fresh.failed (h : Fresh v6 debug config accepted loop) (error : DiscoveryError)
    (now : Nat) : Fresh v6 debug config accepted (loop.failed latest config error now) := by
  obtain ⟨phase, heq, hphase⟩ := DnsRefresh.failed_eq latest config loop error now
  rw [heq]
  by_cases hover : (loop.validUntil.any fun deadline => decide (now ≥ deadline)) = true
  · rw [if_pos hover]
    exact h.cleared peers_replace (.inr rfl) phase
  · rw [if_neg hover]
    refine { h with timely := fun nextRefresh deadline hsleep hvalid _ _ => ?_ }
    have hvalid : loop.validUntil = some deadline := hvalid
    have hretry := hphase nextRefresh hsleep
    rw [hvalid] at hretry hover
    -- the lifetime is not over, so that it bounds the retry
    refine retryDeadline_le hretry (Nat.lt_of_not_le fun hle => hover ?_)
    exact decide_eq_true hle

theorem fresh_answered (world : DiscoveryWorld) (previous : Option Nat) (answer : SrvAnswer dns)
    (observedAt refresh : Nat) (clock : Nat → Nat) :
    Fresh v6 debug config (accepted ++ [answer])
      ⟨if previous.any fun previous => decide (answer.validUntil ≤ previous) then
        world.replace (answer.peers v6 debug config) clock
        else world.observe (answer.peers v6 debug config) observedAt,
      some answer.validUntil, .sleeping (min answer.validUntil refresh)⟩ := by
  refine ⟨nofun, fun deadline heq => ?_, fun nextRefresh deadline heq hvalid _ _ => ?_⟩
  · cases heq
    refine ⟨answer, List.getLast?_concat .., rfl, fun hroom _ => ?_⟩
    dsimp only at hroom ⊢
    split at hroom
    · next hrenewed =>
        simp only [if_pos hrenewed]
        exact peers_replace hroom
    · next hrenewed =>
        simp only [if_neg hrenewed]
        exact peers_observe hroom
  · cases heq
    cases hvalid
    exact min_le_left _ _

theorem Fresh.step {event : DnsEvent dns} (h : Fresh v6 debug config accepted loop)
    (hstep : loop.step v6 debug latest config event = some next) :
    Fresh v6 debug config (accepted ++ loop.accepted latest config event) next := by
  obtain ⟨world, validUntil, phase⟩ := loop
  cases event with
  | wake now =>
    simp only [DnsRefresh.accepted, List.append_nil]
    cases phase with
    | sleeping nextRefresh =>
      simp only [DnsRefresh.step] at hstep
      split at hstep
      · cases hstep
        exact h.awake fun _ => nofun
      · cases hstep
    | pending => cases hstep
    | returned result => cases hstep
  | shutdown =>
    simp only [DnsRefresh.accepted, List.append_nil]
    cases phase with
    | sleeping nextRefresh =>
      cases hstep
      exact h.awake fun _ => nofun
    | pending =>
      cases hstep
      exact h.awake fun _ => nofun
    | returned result => cases hstep
  | expire now =>
    simp only [DnsRefresh.accepted, List.append_nil]
    cases phase with
    | sleeping nextRefresh => cases hstep
    | pending =>
      simp only [DnsRefresh.step] at hstep
      split at hstep
      · cases hstep
        exact h.cleared peers_replace (.inl rfl) _
      · cases hstep
    | returned result => cases hstep
  | fail error now =>
    simp only [DnsRefresh.accepted, List.append_nil]
    cases phase with
    | sleeping nextRefresh => cases hstep
    | pending =>
      cases hstep
      exact h.failed error now
    | returned result => cases hstep
  | answer answer now observedAt clock =>
    cases phase with
    | sleeping nextRefresh => cases hstep
    | returned result => cases hstep
    | pending =>
      simp only [DnsRefresh.step, applyDnsAnswer] at hstep
      simp only [DnsRefresh.accepted]
      -- over already, refused for want of a deadline, or accepted
      by_cases hover : answer.validUntil ≤ now
      · simp only [if_pos hover] at hstep ⊢
        rw [List.append_nil]
        cases hretry : checkedDeadline latest now config.retryInterval
            DnsSrvDiscoveryConfig.provider "retry_interval" with
        | error error =>
          rw [hretry] at hstep
          cases hstep
          exact h.cleared peers_replace (.inr rfl) _
        | ok retry =>
          rw [hretry] at hstep
          cases hstep
          exact h.cleared peers_replace (.inl rfl) _
      · simp only [if_neg hover] at hstep ⊢
        cases hrefresh : checkedDeadline latest now config.maxRefreshInterval
            DnsSrvDiscoveryConfig.provider "max_refresh_interval" with
        | error error =>
          simp only [hrefresh] at hstep ⊢
          cases hstep
          rw [List.append_nil]
          exact h.awake fun _ => nofun
        | ok refresh =>
          simp only [hrefresh] at hstep ⊢
          cases hstep
          exact fresh_answered world validUntil answer observedAt refresh clock

/-! ## Whole runs -/

/-- No timer of the loop is due at the time. -/
def DnsRefresh.Handled (loop : DnsRefresh) (time : Nat) : Prop :=
  match loop.phase with
  | .sleeping nextRefresh => time < nextRefresh
  | .pending => ∀ deadline, loop.validUntil = some deadline → time < deadline
  | .returned _ => False

theorem Fresh.lifetime (h : Fresh v6 debug config accepted loop)
    (hroom : loop.world.state.revision < u64Max) {time : Nat} (hhandled : loop.Handled time)
    (hview : loop.world.state.peers ≠ []) :
    ∃ answer, accepted.getLast? = some answer ∧ time < answer.validUntil ∧
      loop.world.state.peers = answer.peers v6 debug config := by
  cases hvalid : loop.validUntil with
  | none => exact absurd (h.expired hvalid hroom) hview
  | some deadline =>
    obtain ⟨answer, hlast, hdeadline, hpeers⟩ := h.current deadline hvalid
    refine ⟨answer, hlast, ?_, hpeers hroom hview⟩
    -- the refresh is due no later than the lifetime ends, so either timer will do
    rw [hdeadline]
    unfold DnsRefresh.Handled at hhandled
    cases hphase : loop.phase with
    | sleeping nextRefresh =>
      rw [hphase] at hhandled
      exact Nat.lt_of_lt_of_le hhandled
        (h.timely nextRefresh deadline hphase hvalid hroom hview)
    | pending =>
      rw [hphase] at hhandled
      exact hhandled deadline hvalid
    | returned result =>
      rw [hphase] at hhandled
      exact hhandled.elim

/-- An answer that ends no later than the last one renews nothing. -/
theorem Fresh.observedAt (h : Fresh v6 debug config accepted loop) {answer : SrvAnswer dns}
    (hshort : ∀ last, accepted.getLast? = some last → answer.validUntil ≤ last.validUntil)
    {observedAt : Nat} {clock : Nat → Nat} {peer : String} (hbefore : peer ∈ loop.world.state.peers)
    (hafter : peer ∈ (applyDnsAnswer v6 debug latest config loop.world answer loop.validUntil now
      observedAt clock).1.state.peers) :
    (applyDnsAnswer v6 debug latest config loop.world answer loop.validUntil now observedAt
      clock).1.state.observedAt peer = loop.world.state.observedAt peer := by
  unfold applyDnsAnswer at hafter ⊢
  by_cases hover : answer.validUntil ≤ now
  · simp only [if_pos hover] at hafter ⊢
    exact observedAt_replace hbefore hafter
  · simp only [if_neg hover] at hafter ⊢
    cases hrefresh : checkedDeadline latest now config.maxRefreshInterval
        DnsSrvDiscoveryConfig.provider "max_refresh_interval" with
    | error error => rfl
    | ok refresh =>
      simp only [hrefresh] at hafter ⊢
      cases hvalid : loop.validUntil with
      | none =>
        -- a view without a lifetime is empty, or can no longer be changed
        by_cases hroom : loop.world.state.revision < u64Max
        · rw [h.expired hvalid hroom] at hbefore
          cases hbefore
        · rw [hvalid] at hafter
          simp only [Option.any_none, Bool.false_eq_true, if_false]
          rw [show loop.world.observe _ observedAt = loop.world from
            change_of_exhausted (Nat.le_of_not_lt hroom) (.observe _ observedAt)]
      | some deadline =>
        obtain ⟨last, hlast, rfl, -⟩ := h.current deadline hvalid
        have hrenewed : ((some last.validUntil).any fun previous =>
            decide (answer.validUntil ≤ previous)) = true :=
          decide_eq_true (hshort last hlast)
        rw [hvalid] at hafter
        simp only [if_pos hrenewed] at hafter ⊢
        exact observedAt_replace hbefore hafter

theorem DnsRefresh.world_of_answer {answer : SrvAnswer dns} {observedAt : Nat} {clock : Nat → Nat}
    (h : loop.step v6 debug latest config (.answer answer now observedAt clock) = some next) :
    next.world = (applyDnsAnswer v6 debug latest config loop.world answer loop.validUntil now
      observedAt clock).1 := by
  obtain ⟨world, validUntil, phase⟩ := loop
  cases phase with
  | sleeping nextRefresh => cases h
  | returned result => cases h
  | pending =>
    simp only [DnsRefresh.step] at h
    split at h
    · next heq =>
        cases h
        rw [heq]
    · next heq =>
        cases h
        rw [heq]

/-- A run of the refresh loop, from an empty view: as long as there are revisions, the view
is that of the last accepted answer, and every timer that would have ended it is still to
come; at its end the supervisor clears the view. Answers that end no later than the last
one keep the observation times. -/
theorem dnsView_within_lifetime {world : DiscoveryWorld} (hempty : world.state.peers = [])
    (now : Nat) {events : List (DnsEvent dns)}
    (hrun : runSteps (DnsRefresh.step v6 debug latest config) (.start world now) events =
      some loop) :
    (loop.world.state.revision < u64Max →
      (∀ time, loop.Handled time → loop.world.state.peers ≠ [] →
        ∃ answer, (outputs (DnsRefresh.step v6 debug latest config)
            (DnsRefresh.accepted latest config) (.start world now) events).getLast? = some answer ∧
          time < answer.validUntil ∧ loop.world.state.peers = answer.peers v6 debug config) ∧
      ∀ unexpected, (loop.world.finish unexpected).state.peers = []) ∧
    ∀ (answer : SrvAnswer dns) now' observedAt clock next,
      loop.step v6 debug latest config (.answer answer now' observedAt clock) = some next →
      (∀ last, (outputs (DnsRefresh.step v6 debug latest config)
          (DnsRefresh.accepted latest config) (.start world now) events).getLast? = some last →
        answer.validUntil ≤ last.validUntil) →
      ∀ peer ∈ loop.world.state.peers, peer ∈ next.world.state.peers →
        next.world.state.observedAt peer = loop.world.state.observedAt peer := by
  have hfresh : Fresh v6 debug config _ loop :=
    runSteps_invariant (DnsRefresh.accepted latest config)
      (fun _ _ _ _ hfresh hstep => hfresh.step hstep) [] (fresh_start hempty now) hrun
  rw [List.nil_append] at hfresh
  refine ⟨fun hroom => ⟨fun time => hfresh.lifetime hroom, peers_finish hroom⟩, ?_⟩
  intro answer now' observedAt clock next hstep hshort peer hbefore hafter
  rw [DnsRefresh.world_of_answer hstep] at hafter ⊢
  exact hfresh.observedAt hshort hbefore hafter

end Loop

/-! ## The last revision -/

/-- Every answer is out of date after a nanosecond. -/
def restless : DnsSrvDiscoveryConfig where
  serviceName := "_n._tcp.a."
  clusterId := "c"
  retryInterval := 1
  maxRefreshInterval := 1
  maxCandidates := 1
  eventCapacity := 1

def oneRecord (validUntil : Nat) : SrvAnswer textNames := ⟨[⟨0, 0, 9000, "a."⟩], validUntil⟩

theorem restless_valid :
    restless.validateConfig (fun _ => true) (2 ^ 80) 0 = .ok () := by decide +kernel

theorem oneRecord_peers (validUntil : Nat) :
    (oneRecord validUntil).peers loopbackV6 String.ofList restless = ["a:9000"] := by
  rw [SrvAnswer.peers, oneRecord, recordsToPeers, List.mergeSort_singleton]
  decide +kernel

/-- After so many refreshes, one in every nanosecond. -/
structure Refreshed (n : Nat) (loop : DnsRefresh) : Prop where
  phase : loop.phase = .sleeping n
  revision : loop.world.state.revision = n
  observations : ∀ time ∈ loop.world.state.observations, time < n
  validUntil : ∀ deadline, loop.validUntil = some deadline → deadline ≤ n + 1

def restlessStep : DnsRefresh → DnsEvent textNames → Option DnsRefresh :=
  DnsRefresh.step loopbackV6 String.ofList (2 ^ 80) restless

def restlessAccepted : DnsRefresh → DnsEvent textNames → List (SrvAnswer textNames) :=
  DnsRefresh.accepted (2 ^ 80) restless

def refreshAt (n : Nat) : List (DnsEvent textNames) :=
  [.wake n, .answer (oneRecord (n + 2)) n n id]

variable {n : Nat}

theorem checkedDeadline_restless (hn : n < u64Max) (provider field : String) :
    checkedDeadline (2 ^ 80) n 1 provider field = .ok (n + 1) := by
  have hle : n + 1 ≤ 2 ^ 80 := by
    unfold u64Max at hn
    omega
  rw [checkedDeadline, checkedAdd, if_pos hle]

theorem restlessStep_wake {validUntil : Option Nat} {nextRefresh : Nat} (h : nextRefresh ≤ now) :
    restlessStep ⟨world, validUntil, .sleeping nextRefresh⟩ (.wake now) =
      some ⟨world, validUntil, .pending⟩ := if_pos h

theorem state_observe {w : DiscoveryWorld} (hroom : w.state.revision < u64Max)
    (hnew : ∀ time ∈ w.state.observations, time < n) (peer : String) :
    (w.observe [peer] n).state =
      { w.state with
        revision := w.state.revision + 1
        peers := [peer]
        observations := [n]
        aligned := rfl } := by
  -- the observation is newer than all before, so the view is another one
  have hother : ¬ (w.state.peers = [peer] ∧ w.state.observations = [n]) := by
    rintro ⟨-, hobs⟩
    have hlt := hnew n (by rw [hobs]; exact List.mem_cons_self)
    exact Nat.lt_irrefl n hlt
  rw [observe, observeAt]
  simp only [List.map_cons, List.map_nil, if_neg hother]
  exact state_publish hroom _ _ _

theorem Refreshed.next {n : Nat} {loop : DnsRefresh} (h : Refreshed n loop) (hn : n < u64Max) :
    ∃ next, runSteps restlessStep loop (refreshAt n) = some next ∧ Refreshed (n + 1) next ∧
      next.world.state.peers = ["a:9000"] ∧ next.validUntil = some (n + 2) ∧
      outputs restlessStep restlessAccepted loop (refreshAt n) = [oneRecord (n + 2)] := by
  obtain ⟨world, validUntil, phase⟩ := loop
  obtain ⟨rfl, hrevision, hobservations, hvalid⟩ := h
  have hwake : restlessStep ⟨world, validUntil, .sleeping n⟩ (.wake n) =
      some ⟨world, validUntil, .pending⟩ := restlessStep_wake (Nat.le_refl n)
  have hlive : ¬ (oneRecord (n + 2)).validUntil ≤ n := by
    simp [oneRecord]
  -- the new answer lives longer than the one before
  have hlonger : (validUntil.any fun previous =>
      decide ((oneRecord (n + 2)).validUntil ≤ previous)) = false := by
    cases validUntil with
    | none => rfl
    | some deadline =>
      have hle := hvalid deadline rfl
      exact decide_eq_false (Nat.not_le.mpr (Nat.lt_succ_of_le hle))
  have hanswer : restlessStep ⟨world, validUntil, .pending⟩
      (.answer (oneRecord (n + 2)) n n id) =
      some ⟨world.observe ["a:9000"] n, some (n + 2), .sleeping (min (n + 2) (n + 1))⟩ := by
    simp only [restlessStep, DnsRefresh.step, applyDnsAnswer, if_neg hlive,
      show restless.maxRefreshInterval = 1 from rfl, checkedDeadline_restless hn, hlonger,
      oneRecord_peers]
    rfl
  have haccepted : restlessAccepted ⟨world, validUntil, .pending⟩
      (.answer (oneRecord (n + 2)) n n id) = [oneRecord (n + 2)] := by
    simp only [restlessAccepted, DnsRefresh.accepted, if_neg hlive,
      show restless.maxRefreshInterval = 1 from rfl, checkedDeadline_restless hn]
  have hroom : world.state.revision < u64Max := by rwa [hrevision]
  have hstate := state_observe hroom hobservations "a:9000"
  refine ⟨⟨world.observe ["a:9000"] n, some (n + 2), .sleeping (min (n + 2) (n + 1))⟩,
    runSteps_cons.mpr ⟨_, hwake, runSteps_cons.mpr ⟨_, hanswer, rfl⟩⟩, ⟨?_, ?_, ?_, ?_⟩, ?_, rfl,
    ?_⟩
  · rw [Nat.min_eq_right (Nat.le_succ _)]
  · rw [hstate, hrevision]
  · rw [hstate]
    simp
  · rintro deadline heq
    cases heq
    exact Nat.le_refl _
  · rw [hstate]
  · rw [refreshAt, outputs_cons hwake, outputs_cons hanswer, haccepted]
    rfl

def restlessStart : DnsRefresh := .start (.new 1) 0

theorem refreshed_start : Refreshed 0 restlessStart where
  phase := rfl
  revision := rfl
  observations _ h := nomatch h
  validUntil _ h := nomatch h

theorem exists_refreshed (hn : n ≤ u64Max) :
    ∃ events loop, runSteps restlessStep restlessStart events = some loop ∧ Refreshed n loop := by
  induction n with
  | zero => exact ⟨[], restlessStart, rfl, refreshed_start⟩
  | succ n ih =>
    obtain ⟨events, loop, hrun, hloop⟩ := ih (Nat.le_of_succ_le hn)
    obtain ⟨next, hnext, hrefreshed, -⟩ := hloop.next hn
    exact ⟨events ++ refreshAt n, next, runSteps_append.mpr ⟨loop, hrun, hnext⟩, hrefreshed⟩

/-- One refresh, and its answer is still good. -/
theorem dnsView_within_lifetime_refreshed :
    ∃ loop, runSteps restlessStep restlessStart (refreshAt 0) = some loop ∧
      loop.world.state.peers = ["a:9000"] ∧ loop.Handled 0 ∧
      ∃ answer, (outputs restlessStep restlessAccepted restlessStart (refreshAt 0)).getLast? =
          some answer ∧
        0 < answer.validUntil ∧
        loop.world.state.peers = answer.peers loopbackV6 String.ofList restless := by
  obtain ⟨loop, hrun, hloop, hpeers, -, -⟩ := refreshed_start.next (by decide)
  have hhandled : loop.Handled 0 := by
    rw [DnsRefresh.Handled, hloop.phase]
    exact Nat.one_pos
  have hroom : loop.world.state.revision < u64Max := by
    rw [hloop.revision]
    decide
  refine ⟨loop, hrun, hpeers, hhandled, ?_⟩
  exact ((dnsView_within_lifetime rfl 0 hrun).1 hroom).1 0 hhandled (by rw [hpeers]; exact nofun)

/-- The last revision lists a peer. The lifetime of its answer is over, the loop has
noticed, and the peer stays. -/
theorem lastRevision_outlives_answer :
    ∃ events loop answer time,
      restless.validateConfig (fun _ => true) (2 ^ 80) 0 = .ok () ∧
      runSteps restlessStep restlessStart events = some loop ∧ loop.Handled time ∧
      loop.world.state.peers ≠ [] ∧
      (outputs restlessStep restlessAccepted restlessStart events).getLast? = some answer ∧
      answer.validUntil ≤ time := by
  -- all revisions but one are used up, and the next answer takes the last
  obtain ⟨events, loop, hrun, hloop⟩ := exists_refreshed (n := u64Max - 1) (Nat.sub_le _ _)
  obtain ⟨last, hlast, hrefreshed, hpeers, hvalid, haccepted⟩ := hloop.next (by decide)
  obtain ⟨world, validUntil, phase⟩ := last
  obtain ⟨rfl, hrevision, -, -⟩ := hrefreshed
  cases hvalid
  have hwake : restlessStep ⟨world, some (u64Max - 1 + 2), .sleeping (u64Max - 1 + 1)⟩
      (.wake (u64Max + 1)) = some ⟨world, some (u64Max - 1 + 2), .pending⟩ :=
    restlessStep_wake (by decide)
  have hexpire : restlessStep ⟨world, some (u64Max - 1 + 2), .pending⟩ (.expire (u64Max + 1)) =
      some ⟨world, none, .pending⟩ := by
    have hover : ((some (u64Max - 1 + 2)).any fun deadline =>
        decide (deadline ≤ u64Max + 1)) = true := by decide
    simp only [restlessStep, DnsRefresh.step, if_pos hover]
    -- the loop clears the view, and nothing happens
    have hexhausted : u64Max ≤ world.state.revision := by
      rw [hrevision]
      decide
    rw [show world.replace [] _ = world from change_of_exhausted hexhausted (.replace [] _)]
  refine ⟨events ++ (refreshAt (u64Max - 1) ++ [.wake (u64Max + 1), .expire (u64Max + 1)]),
    ⟨world, none, .pending⟩, oneRecord (u64Max - 1 + 2), u64Max + 1, restless_valid, ?_, nofun, ?_,
    ?_, ?_⟩
  · refine runSteps_append.mpr ⟨loop, hrun, runSteps_append.mpr ⟨_, hlast, ?_⟩⟩
    exact runSteps_cons.mpr ⟨_, hwake, runSteps_cons.mpr ⟨_, hexpire, rfl⟩⟩
  · rw [hpeers]
    exact nofun
  · rw [outputs_append hrun, outputs_append hlast, haccepted, outputs_cons hwake,
      outputs_cons hexpire]
    exact List.getLast?_concat ..
  · decide

end Numax
