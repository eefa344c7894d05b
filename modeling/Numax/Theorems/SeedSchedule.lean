import Numax.Base.Journal
import Numax.Base.Transition
import Numax.Discovery.BootstrapGossip
import Numax.Store.Access

/-!
# When bootstrap seeds are asked

The journal of the gossip loop determines a plan for every seed (`SeedPlan`): how many
failures in a row, when the next probe is due, before when the seed must not be asked, and
whether it may be asked at all. The schedules of the loop follow the plans through every
run (`Planned.step`), so a query is never earlier than the plan says.
-/

open Base

namespace Numax

theorem checkedDeadline_cases (latest now duration : Nat) (provider field : String) :
    now + duration ≤ latest ∧
        checkedDeadline latest now duration provider field = .ok (now + duration) ∨
      latest < now + duration ∧ ∃ error, checkedDeadline latest now duration provider field =
        .error error := by
  unfold checkedDeadline checkedAdd
  by_cases h : now + duration ≤ latest
  · rw [if_pos h]
    exact .inl ⟨h, rfl⟩
  · rw [if_neg h]
    exact .inr ⟨Nat.lt_of_not_le h, _, rfl⟩

/-! ## The plan for a seed -/

/-- Failures in a row, when the next probe is due, before when the seed must not be asked,
and whether it must not be asked at all. -/
structure SeedPlan where
  failures : Nat
  due : Nat
  barrier : Nat
  disabled : Bool
deriving DecidableEq, Repr

section Plan

variable (latest : Nat) (config : BootstrapGossipDiscoveryConfig)

/-- The delay after `k` failures in a row. -/
def seedDelay (k : Nat) : Nat := backoff config.retryInitial config.retryMax k

/-- How long the server asks to wait, up to the configured cap. -/
def serverDelay (error : SeedQueryError) : Nat :=
  min ((bootstrapRetryAfter error).getD 0) config.retryMax

namespace SeedPlan

def start (now : Nat) : SeedPlan := ⟨0, now, now, false⟩

/-- A failure; it is the last one if it is fatal or one of the deadlines is not a time. -/
def failed (s : SeedPlan) (error : SeedQueryError) (clock : Nat) : SeedPlan where
  failures := s.failures + 1
  due := clock + seedDelay config s.failures
  barrier := clock + serverDelay config error
  disabled := bootstrapErrorIsFatal error || decide (latest < clock + serverDelay config error) ||
    decide (latest < clock + seedDelay config s.failures)

/-- An answer; the barrier of the last failure stays. -/
def answered (s : SeedPlan) (response : BootstrapResponse) (clock : Nat) : SeedPlan where
  failures := 0
  due := clock + config.refreshInterval
  barrier := s.barrier
  disabled := s.disabled || decide (latest < clock + config.refreshInterval) ||
    decide (latest < clock + min response.candidateTtl config.staleAfter)

def apply (s : SeedPlan) : SeedEntry → SeedPlan
  | .announced _ now => { s with due := now }
  | .queried _ _ none _ => s
  | .queried _ _ (some (.error error)) clock => s.failed latest config error clock
  | .queried _ _ (some (.ok response)) clock => s.answered latest config response clock

/-- A seed is asked only when it is due and no barrier stands. -/
def Allows (s : SeedPlan) : SeedEntry → Prop
  | .announced _ _ => True
  | .queried _ now _ _ => s.disabled = false ∧ s.due ≤ now ∧ s.barrier ≤ now

/-- As long as the seed may be asked, its schedule says the same as the plan. -/
def Describes (s : SeedPlan) (slot : SeedSlot) : Prop :=
  slot.schedule.disabled = s.disabled ∧ (s.disabled = false →
    slot.schedule.nextProbe = s.due ∧ slot.schedule.notBefore = s.barrier ∧
      slot.schedule.retryDelay = seedDelay config s.failures)

end SeedPlan

/-- The plan for a seed as the journal tells, in a run that started at this time. -/
def planOf (startedAt : Nat) (log : List SeedEntry) (position : Nat) : SeedPlan :=
  journalState SeedEntry.position (SeedPlan.apply latest config) (.start startedAt) log position

end Plan

section Visits

variable {latest : Nat} {config : BootstrapGossipDiscoveryConfig}

/-! ## One visit -/

namespace SeedPlan

variable {s : SeedPlan} {slot : SeedSlot} {clock : Nat}

theorem describes_failed (h : Describes config s slot) (hrunning : s.disabled = false)
    (error : SeedQueryError) :
    Describes config (s.failed latest config error clock)
      { slot with schedule := (slot.schedule.failed latest config error clock).1 } := by
  obtain ⟨-, hfields⟩ := h
  obtain ⟨-, -, hdelay⟩ := hfields hrunning
  unfold Describes SeedSchedule.failed failed serverDelay
  simp only [hdelay]
  -- the barrier, then the retry; a time that does not exist disables the seed
  generalize min ((bootstrapRetryAfter error).getD 0) config.retryMax = wait
  rcases checkedDeadline_cases latest clock wait
    BootstrapGossipDiscoveryConfig.provider "retry_after" with ⟨hbarrier, heq⟩ | ⟨hbarrier, _, heq⟩
  · rcases checkedDeadline_cases latest clock (seedDelay config s.failures)
      BootstrapGossipDiscoveryConfig.provider "retry_delay" with ⟨hdue, heq'⟩ | ⟨hdue, _, heq'⟩
    · simp only [heq, heq']
      refine ⟨?_, fun _ => ⟨trivial, trivial, saturatingDouble_backoff config.retryMax_le _⟩⟩
      rw [decide_eq_false (Nat.not_lt.mpr hbarrier), decide_eq_false (Nat.not_lt.mpr hdue),
        Bool.or_false, Bool.or_false]
    · simp only [heq, heq']
      rw [decide_eq_true hdue, Bool.or_true]
      exact ⟨rfl, nofun⟩
  · simp only [heq]
    rw [decide_eq_true hbarrier, Bool.or_true, Bool.true_or]
    exact ⟨rfl, nofun⟩

theorem describes_answered (hinitial : config.retryInitial ≤ config.retryMax)
    (h : Describes config s slot) (hrunning : s.disabled = false) (response : BootstrapResponse) :
    Describes config (s.answered latest config response clock)
      { slot with schedule := (slot.schedule.answered latest config response clock).1 } := by
  obtain ⟨hdisabled, hfields⟩ := h
  obtain ⟨-, hbarrier, -⟩ := hfields hrunning
  unfold Describes SeedSchedule.answered answered seedDeadlines
  rcases checkedDeadline_cases latest clock config.refreshInterval
    BootstrapGossipDiscoveryConfig.provider "refresh_interval" with
    ⟨hrefresh, heq⟩ | ⟨hrefresh, _, heq⟩
  · rcases checkedDeadline_cases latest clock (min response.candidateTtl config.staleAfter)
      BootstrapGossipDiscoveryConfig.provider "candidate_ttl" with
      ⟨hexpiry, heq'⟩ | ⟨hexpiry, _, heq'⟩
    · rw [heq, heq']
      refine ⟨?_, fun _ => ⟨rfl, hbarrier, (backoff_zero hinitial).symm⟩⟩
      rw [decide_eq_false (Nat.not_lt.mpr hrefresh), decide_eq_false (Nat.not_lt.mpr hexpiry),
        Bool.or_false, Bool.or_false]
      exact hdisabled
    · rw [heq, heq', decide_eq_true hexpiry, Bool.or_true]
      exact ⟨rfl, nofun⟩
  · rw [heq, decide_eq_true hrefresh, Bool.or_true, Bool.true_or]
    exact ⟨rfl, nofun⟩

end SeedPlan

open SeedPlan

/-- A seed is skipped, or it is asked when its schedule allows it. -/
theorem visitSeed_cases (hinitial : config.retryInitial ≤ config.retryMax) (round : GossipRound)
    (slot : SeedSlot) (v : GossipViews) (look : SeedLook) :
    ((visitSeed latest config round slot v look).slot = slot ∧
      (visitSeed latest config round slot v look).entry = none) ∨
    ((visitSeed latest config round slot v look).slot.position = slot.position ∧
      (visitSeed latest config round slot v look).entry =
        some (.queried slot.position look.now look.result look.clock) ∧
      ∀ s, Describes config s slot →
        Allows s (.queried slot.position look.now look.result look.clock) ∧
        Describes config
          (s.apply latest config (.queried slot.position look.now look.result look.clock))
          (visitSeed latest config round slot v look).slot) := by
  unfold visitSeed
  split
  · exact .inl ⟨rfl, rfl⟩
  · next hdue =>
      right
      -- the deadline is the later of the two times of the plan
      have hallows : ∀ s, Describes config s slot →
          s.disabled = false ∧ s.due ≤ look.now ∧ s.barrier ≤ look.now := by
        rintro s ⟨hdisabled, hfields⟩
        unfold SeedSchedule.deadline at hdue
        split at hdue
        · exact absurd rfl hdue
        · next hrunning =>
            have hplan : s.disabled = false := hdisabled ▸ Bool.eq_false_iff.mpr hrunning
            obtain ⟨hnext, hbarrier, -⟩ := hfields hplan
            have hmax : max s.due s.barrier ≤ look.now := by
              rw [← hnext, ← hbarrier]
              simpa using hdue
            exact ⟨hplan, (le_max_left _ _).trans hmax, (le_max_right _ _).trans hmax⟩
      rcases hresult : look.result with _ | (error | response)
      · exact ⟨rfl, rfl, fun s hs => ⟨hallows s hs, hs⟩⟩
      · exact ⟨rfl, rfl, fun s hs => ⟨hallows s hs, describes_failed hs (hallows s hs).1 error⟩⟩
      · exact ⟨rfl, rfl, fun s hs =>
          ⟨hallows s hs, describes_answered hinitial hs (hallows s hs).1 response⟩⟩

variable (latest config) in
/-- A visit as a relation: the slot after it and the entry it writes. -/
def SeedVisits (round : GossipRound) (slot after : SeedSlot) (entry : Option SeedEntry) : Prop :=
  ∃ v look, (visitSeed latest config round slot v look).slot = after ∧
    (visitSeed latest config round slot v look).entry = entry

theorem seedVisitOk (hinitial : config.retryInitial ≤ config.retryMax) (round : GossipRound) :
    VisitOk (SeedVisits latest config round) SeedEntry.position (apply latest config) Allows
      SeedSlot.position (Describes config) where
  keeps slot after entry := by
    rintro ⟨v, look, rfl, rfl⟩
    rcases @visitSeed_cases latest config hinitial round slot v look with ⟨heq, -⟩ | ⟨heq, -⟩
    · rw [heq]
    · exact heq
  own slot after entry := by
    rintro ⟨v, look, rfl, hentry⟩
    rcases @visitSeed_cases latest config hinitial round slot v look with ⟨-, heq⟩ | ⟨-, heq, -⟩
    · cases heq.symm.trans hentry
    · cases heq.symm.trans hentry
      rfl
  silent s slot after := by
    rintro ⟨v, look, rfl, hentry⟩ htracks
    rcases @visitSeed_cases latest config hinitial round slot v look with ⟨hslot, -⟩ | ⟨-, heq, -⟩
    · rwa [hslot]
    · cases heq.symm.trans hentry
  spoken s slot after entry := by
    rintro ⟨v, look, rfl, hentry⟩ htracks
    rcases @visitSeed_cases latest config hinitial round slot v look with ⟨-, heq⟩ | ⟨-, heq, hstep⟩
    · cases heq.symm.trans hentry
    · cases heq.symm.trans hentry
      exact hstep s htracks

/-- An announcement as a visit of every slot. -/
def SeedAnnounced (now : Nat) (slot after : SeedSlot) (entry : Option SeedEntry) : Prop :=
  after = { slot with schedule := slot.schedule.announce now } ∧
    entry = some (.announced slot.position now)

theorem seedAnnouncedOk (now : Nat) :
    VisitOk (SeedAnnounced now) SeedEntry.position (apply latest config) Allows SeedSlot.position
      (Describes config) where
  keeps slot after entry := by
    rintro ⟨rfl, -⟩
    rfl
  own slot after entry := by
    rintro ⟨-, heq⟩
    cases heq
    rfl
  silent s slot after := by
    rintro ⟨-, heq⟩
    cases heq
  spoken s slot after entry := by
    rintro ⟨rfl, heq⟩ ⟨hdisabled, hfields⟩
    cases heq
    refine ⟨trivial, hdisabled, fun hrunning => ?_⟩
    obtain ⟨-, hbarrier, hdelay⟩ := hfields hrunning
    exact ⟨rfl, hbarrier, hdelay⟩

/-! ## Passes over the seeds -/

theorem pass_visitSeeds (round : GossipRound) (slots : List SeedSlot) (v : GossipViews) :
    Pass (SeedVisits latest config round) slots (visitSeeds latest config round slots v).slots
      (visitSeeds latest config round slots v).entries := by
  induction slots generalizing v with
  | nil => exact .done []
  | cons slot rest ih =>
    have hvisit : SeedVisits latest config round slot _ _ :=
      ⟨v, round.look slot.position, rfl, rfl⟩
    simp only [visitSeeds]
    split
    · simpa using Pass.next hvisit (.done rest)
    · exact .next hvisit (ih _)

theorem pass_announce (now : Nat) (slots : List SeedSlot) :
    Pass (SeedAnnounced now) slots
      (slots.map fun slot => { slot with schedule := slot.schedule.announce now })
      (slots.map fun slot => .announced slot.position now) := by
  induction slots with
  | nil => exact .done []
  | cons slot rest ih => exact .next ⟨rfl, rfl⟩ ih

/-! ## Runs -/

variable (latest config) in
/-- The slots have distinct positions and follow their plans, and no seed was asked that
the plan did not allow. -/
structure Planned (startedAt : Nat) (log : List SeedEntry) (loop : GossipLoop) : Prop where
  distinct : (loop.slots.map SeedSlot.position).Nodup
  lawful : Lawful SeedEntry.position (apply latest config) (.start startedAt) Allows log
  tracks : ∀ slot ∈ loop.slots,
    Describes config (planOf latest config startedAt log slot.position) slot

variable {startedAt : Nat} {log : List SeedEntry} {loop next : GossipLoop}

theorem Planned.pass {visit : SeedSlot → SeedSlot → Option SeedEntry → Prop}
    (hok : VisitOk visit SeedEntry.position (apply latest config) Allows SeedSlot.position
      (Describes config))
    {after : List SeedSlot} {entries : List SeedEntry} (hpass : Pass visit loop.slots after entries)
    (h : Planned latest config startedAt log loop) (views : GossipViews) (phase : GossipPhase) :
    Planned latest config startedAt (log ++ entries) ⟨after, views, phase⟩ := by
  obtain ⟨hlawful, htracks⟩ := hpass.tracks hok h.distinct h.lawful h.tracks
  refine ⟨?_, hlawful, htracks⟩
  rw [hpass.map_keyOf hok]
  exact h.distinct

theorem Planned.step (hinitial : config.retryInitial ≤ config.retryMax) {event : GossipEvent}
    (h : Planned latest config startedAt log loop)
    (hstep : loop.step latest config event = some next) :
    Planned latest config startedAt (log ++ loop.entries latest config event) next := by
  -- steps that only change the phase
  have hquiet : next.slots = loop.slots → Planned latest config startedAt (log ++ []) next := by
    intro hslots
    rw [List.append_nil]
    exact ⟨hslots ▸ h.distinct, h.lawful, hslots ▸ h.tracks⟩
  obtain ⟨slots, views, phase⟩ := loop
  cases event with
  | round round =>
    cases phase with
    | awake =>
      have hpass := @pass_visitSeeds latest config round slots views
      simp only [GossipLoop.step] at hstep
      split at hstep
      · cases hstep
        exact h.pass (seedVisitOk hinitial round) hpass _ _
      · cases hstep
        exact h.pass (seedVisitOk hinitial round) hpass _ _
    | asleep deadline => cases hstep
    | terminated => cases hstep
  | announced now =>
    cases phase with
    | awake => cases hstep
    | asleep deadline =>
      cases hstep
      exact h.pass (seedAnnouncedOk now) (pass_announce now slots) _ _
    | terminated => cases hstep
  | woke now =>
    cases phase with
    | awake => cases hstep
    | asleep deadline =>
      simp only [GossipLoop.step] at hstep
      split at hstep
      · cases hstep
        exact hquiet rfl
      · cases hstep
    | terminated => cases hstep
  | shutdown requested =>
    cases phase with
    | awake =>
      cases requested with
      | false => cases hstep
      | true =>
        cases hstep
        exact hquiet rfl
    | asleep deadline =>
      cases hstep
      exact hquiet rfl
    | terminated => cases hstep

theorem planned_start (hinitial : config.retryInitial ≤ config.retryMax) (views : GossipViews)
    (startedAt : Nat) : Planned latest config startedAt [] (.start config views startedAt) := by
  refine ⟨?_, lawful_nil, fun slot hslot => ?_⟩
  · have hrange : ((GossipLoop.start config views startedAt).slots.map SeedSlot.position) =
        List.range config.seeds.length := by
      refine List.ext_getElem ?_ fun i hi hi' => ?_
      · simp [GossipLoop.start]
      · simp [GossipLoop.start]
    rw [hrange]
    exact List.nodup_range
  · obtain ⟨position, hlt, rfl⟩ := List.mem_mapIdx.mp hslot
    exact ⟨rfl, fun _ => ⟨rfl, rfl, (backoff_zero hinitial).symm⟩⟩

theorem Planned.run (hinitial : config.retryInitial ≤ config.retryMax) {views : GossipViews}
    {events : List GossipEvent}
    (hrun : runSteps (GossipLoop.step latest config) (.start config views startedAt) events =
      some loop) :
    Planned latest config startedAt
      (outputs (GossipLoop.step latest config) (GossipLoop.entries latest config)
        (.start config views startedAt) events) loop :=
  runSteps_invariant (GossipLoop.entries latest config)
    (fun _ _ _ _ h hstep => h.step hinitial hstep) [] (planned_start hinitial views startedAt) hrun

end Visits

/-! ## What the journal tells -/

/-- Count failures in a row. -/
def countSeedFailure (n : Nat) : SeedEntry → Nat
  | .announced _ _ => n
  | .queried _ _ none _ => n
  | .queried _ _ (some (.error _)) _ => n + 1
  | .queried _ _ (some (.ok _)) _ => 0

/-- The failures of a seed since its last answer. -/
def failuresInARow (log : List SeedEntry) (position : Nat) : Nat :=
  journalState SeedEntry.position countSeedFailure 0 log position

/-- The result ends the probes of a seed that has failed so often in a row: a fatal error,
or a deadline that is not a time. -/
def EndsSeed (latest : Nat) (config : BootstrapGossipDiscoveryConfig) (failures : Nat)
    (result : Option (Except SeedQueryError BootstrapResponse)) (clock : Nat) : Prop :=
  match result with
  | none => False
  | some (.error error) =>
    bootstrapErrorIsFatal error = true ∨
      latest < clock + min ((bootstrapRetryAfter error).getD 0) config.retryMax ∨
      latest < clock + min (config.retryInitial * 2 ^ failures) config.retryMax
  | some (.ok response) =>
    latest < clock + config.refreshInterval ∨
      latest < clock + min response.candidateTtl config.staleAfter

section Journals

variable {latest : Nat} {config : BootstrapGossipDiscoveryConfig} {startedAt position : Nat}
  {log more : List SeedEntry}

open SeedPlan

theorem planOf_queried (now : Nat) (result : Option (Except SeedQueryError BootstrapResponse))
    (clock : Nat) :
    planOf latest config startedAt (log ++ [.queried position now result clock]) position =
      (planOf latest config startedAt log position).apply latest config
        (.queried position now result clock) :=
  journalState_concat

/-- A failed query of the seed. -/
def SeedEntry.FailureOf (position : Nat) (entry : SeedEntry) : Prop :=
  ∃ now error clock, entry = .queried position now (some (.error error)) clock

/-- Only a failure moves the barrier. -/
theorem barrier_append (h : ∀ entry ∈ more, ¬ entry.FailureOf position) :
    (planOf latest config startedAt (log ++ more) position).barrier =
      (planOf latest config startedAt log position).barrier := by
  refine journalState_keeps
    (fun plan : SeedPlan => plan.barrier = (planOf latest config startedAt log position).barrier)
    (fun entry hentry hposition plan hplan => ?_) rfl
  cases entry with
  | announced _ now => exact hplan
  | queried _ now result clock =>
    cases hposition
    rcases result with _ | (error | response)
    · exact hplan
    · exact absurd ⟨now, error, clock, rfl⟩ (h _ hentry)
    · exact hplan

/-- A seed that must not be asked is not asked again. -/
theorem disabled_append
    (hlawful : Lawful SeedEntry.position (apply latest config) (.start startedAt) Allows
      (log ++ more))
    (h : (planOf latest config startedAt log position).disabled = true) :
    (planOf latest config startedAt (log ++ more) position).disabled = true := by
  refine hlawful.keeps (·.disabled = true) (fun entry _ _ plan hallowed hplan => ?_) h
  -- an announcement does not enable the seed, and a query is not allowed
  cases entry with
  | announced position now => exact hplan
  | queried position now result clock =>
    exact absurd (hallowed.1.symm.trans hplan) Bool.false_ne_true

/-- The plan counts what is in the journal. -/
theorem failures_eq_failuresInARow :
    (planOf latest config startedAt log position).failures = failuresInARow log position := by
  induction log using List.reverseRecOn with
  | nil => rfl
  | append_singleton log entry ih =>
    by_cases hposition : entry.position = position
    · subst hposition
      rw [planOf, failuresInARow, journalState_concat, journalState_concat]
      cases entry with
      | announced position now => exact ih
      | queried position now result clock =>
        rcases result with _ | (error | response)
        · exact ih
        · exact congrArg (· + 1) ih
        · rfl
    · rw [planOf, failuresInARow, journalState_append_of_ne (by simpa using hposition),
        journalState_append_of_ne (by simpa using hposition)]
      exact ih

/-- What the plan says at the second of two entries. -/
theorem allowed_after {earlier between later : List SeedEntry} {entry : SeedEntry}
    {now clock : Nat} {result : Option (Except SeedQueryError BootstrapResponse)}
    (h : Lawful SeedEntry.position (apply latest config) (.start startedAt) Allows
      (earlier ++ entry :: (between ++ .queried position now result clock :: later))) :
    Lawful SeedEntry.position (apply latest config) (.start startedAt) Allows
        (earlier ++ [entry] ++ between) ∧
      Allows (planOf latest config startedAt (earlier ++ [entry] ++ between) position)
        (.queried position now result clock) := by
  rw [List.append_cons, ← List.append_assoc] at h
  exact ⟨h.left, h _ _ _ rfl⟩

theorem disabled_of_ends {now clock : Nat}
    {result : Option (Except SeedQueryError BootstrapResponse)}
    (h : EndsSeed latest config (failuresInARow log position) result clock) :
    (planOf latest config startedAt (log ++ [.queried position now result clock])
      position).disabled = true := by
  rw [planOf_queried]
  rcases result with _ | (error | response)
  · cases h
  · rw [apply, failed, failures_eq_failuresInARow]
    rcases h with hfatal | hbarrier | hdelay
    · simp [hfatal]
    · simp [serverDelay, hbarrier]
    · simp [seedDelay, backoff, hdelay]
  · rw [apply, answered]
    rcases h with hrefresh | hexpiry
    · simp [hrefresh]
    · simp [hexpiry]

end Journals

theorem validateConfig_retry {latest now : Nat} {config : BootstrapGossipDiscoveryConfig}
    (h : config.validateConfig latest now = .ok ()) : config.retryInitial ≤ config.retryMax := by
  unfold BootstrapGossipDiscoveryConfig.validateConfig at h
  simp only [bind, Except.bind] at h
  split at h
  · cases h
  · split at h
    · cases h
    · split at h
      · cases h
      · split at h
        · cases h
        · split at h
          · cases h
          · next hconsistent =>
              simp only [not_or] at hconsistent
              exact Nat.le_of_not_lt hconsistent.2.2.1

/-- In every run of the gossip loop under a valid configuration:

* a seed is not asked before the barrier of its last failure, whatever was announced and
  answered since;
* after a fatal error, or a deadline that is not a time, it is not asked again;
* the `k`-th failure in a row is followed by a wait of at least the initial delay doubled
  `k - 1` times and cut at the maximum, unless there is an announcement. -/
theorem seedSchedule_never_early (latest validatedAt : Nat)
    (config : BootstrapGossipDiscoveryConfig)
    (hconfig : config.validateConfig latest validatedAt = .ok ()) {views : GossipViews}
    {startedAt : Nat} {events : List GossipEvent} {loop : GossipLoop} {log : List SeedEntry}
    (hrun : runSteps (GossipLoop.step latest config) (.start config views startedAt) events =
      some loop)
    (hlog : log = outputs (GossipLoop.step latest config) (GossipLoop.entries latest config)
      (.start config views startedAt) events) :
    (∀ (earlier : List SeedEntry) (position now : Nat) (error : SeedQueryError) (clock : Nat)
        (between : List SeedEntry) (now' : Nat) result' (clock' : Nat) (later : List SeedEntry),
      log = earlier ++ .queried position now (some (.error error)) clock ::
        (between ++ .queried position now' result' clock' :: later) →
      (∀ entry ∈ between, ¬ entry.FailureOf position) →
      clock + min ((bootstrapRetryAfter error).getD 0) config.retryMax ≤ now') ∧
    (∀ (earlier : List SeedEntry) (position now : Nat) result (clock : Nat)
        (between : List SeedEntry) (now' : Nat) result' (clock' : Nat) (later : List SeedEntry),
      log = earlier ++ .queried position now result clock ::
        (between ++ .queried position now' result' clock' :: later) →
      ¬ EndsSeed latest config (failuresInARow earlier position) result clock) ∧
    (∀ (earlier : List SeedEntry) (position now : Nat) (error : SeedQueryError) (clock : Nat)
        (between : List SeedEntry) (now' : Nat) result' (clock' : Nat) (later : List SeedEntry)
        (k : Nat),
      log = earlier ++ .queried position now (some (.error error)) clock ::
        (between ++ .queried position now' result' clock' :: later) →
      (∀ entry ∈ between, entry.position ≠ position) → k = failuresInARow earlier position + 1 →
      clock + min (config.retryInitial * 2 ^ (k - 1)) config.retryMax ≤ now') := by
  have hinitial := validateConfig_retry hconfig
  have h := Planned.run hinitial hrun
  rw [← hlog] at h
  refine ⟨?_, ?_, ?_⟩
  · -- the barrier stays until the next failure
    rintro earlier position now error clock between now' result' clock' later rfl hnever
    obtain ⟨-, -, -, hbarrier⟩ := allowed_after h.lawful
    rw [barrier_append hnever, planOf_queried] at hbarrier
    exact hbarrier
  · -- a seed that has ended stays disabled
    rintro earlier position now result clock between now' result' clock' later rfl hends
    obtain ⟨hlawful, hrunning, -⟩ := allowed_after h.lawful
    rw [disabled_append hlawful (disabled_of_ends hends)] at hrunning
    cases hrunning
  · -- nothing moves the deadline while the seed is left alone
    rintro earlier position now error clock between now' result' clock' later k rfl hnever rfl
    obtain ⟨-, -, hdue, -⟩ := allowed_after h.lawful
    rw [planOf, journalState_append_of_ne hnever, ← planOf, planOf_queried] at hdue
    rw [Nat.add_sub_cancel, ← @failures_eq_failuresInARow latest config startedAt]
    exact hdue

/-! One seed that is rate limited for a second, with retries after one to four seconds. -/

theorem oneSeed_retryMax : 4 * nanosPerSec ≤ durationMax := by decide

def oneSeed : BootstrapGossipDiscoveryConfig where
  seeds := ["s:1"]
  clusterId := "c"
  refreshInterval := 20 * nanosPerSec
  retryInitial := nanosPerSec
  retryMax := 4 * nanosPerSec
  staleAfter := 120 * nanosPerSec
  maxSeeds := 1
  maxCandidates := 8
  eventCapacity := 16
  retryMax_le := oneSeed_retryMax

def rateLimited : SeedQueryError := .exchange (.wire (.rateLimited (some 1000)))

/-- The seed is asked at this time and fails at once. -/
def limitedRound (now : Nat) : GossipRound :=
  ⟨none, fun _ => ⟨now, [], some (.error rateLimited), now, now, now⟩, now⟩

/-- An announcement after the first failure does not help. -/
def limitedRun : List GossipEvent :=
  [.round (limitedRound 5), .announced 6, .round (limitedRound 6),
    .woke (nanosPerSec + 5), .round (limitedRound (nanosPerSec + 5))]

theorem oneSeed_valid : oneSeed.validateConfig (10 ^ 15) 0 = .ok () := by decide +kernel

theorem limitedRun_possible :
    (runSteps (GossipLoop.step (10 ^ 15) oneSeed) (.start oneSeed ⟨∅, ∅, .new 16⟩ 5)
      limitedRun).isSome = true := by
  decide +kernel

theorem limitedRun_journal :
    outputs (GossipLoop.step (10 ^ 15) oneSeed) (GossipLoop.entries (10 ^ 15) oneSeed)
      (.start oneSeed ⟨∅, ∅, .new 16⟩ 5) limitedRun =
    [.queried 0 5 (some (.error rateLimited)) 5, .announced 0 6,
      .queried 0 (nanosPerSec + 5) (some (.error rateLimited)) (nanosPerSec + 5)] := by
  decide +kernel

theorem seedSchedule_never_early_limited :
    5 + min ((bootstrapRetryAfter rateLimited).getD 0) oneSeed.retryMax ≤ nanosPerSec + 5 := by
  obtain ⟨loop, hrun⟩ := Option.isSome_iff_exists.mp limitedRun_possible
  exact (seedSchedule_never_early (10 ^ 15) 0 oneSeed oneSeed_valid hrun rfl).1 [] 0 5 rateLimited 5
    [.announced 0 6] _ _ _ [] limitedRun_journal
    (by simp [SeedEntry.FailureOf])

end Numax
