import Numax.Core.AntiEntropy

/-!
# The anti-entropy cadence keeps its phase

`checkedAntiEntropyDeadline` returns the first tick after `now` of the cadence that ticked
last at `previous`, or `none` where the clock ends before that tick. Its division, its
subtraction and its casts are exact.

Over a whole run of the loop, every deadline is the first tick after the moment it was
planned, of the one cadence that began when the loop was started. The deadlines increase, and
no pull is sent before the deadline it is for.
-/

open Base

namespace Numax

variable {clock : Clock}

/-! ## One deadline -/

theorem toNanos_normalizeAntiEntropyInterval (interval : Duration) :
    (normalizeAntiEntropyInterval interval).toNanos = max interval.toNanos 1000000 := by
  rw [normalizeAntiEntropyInterval, Duration.toNanos_max, Duration.toNanos_fromMillis]
  rfl

theorem normalizeAntiEntropyInterval_pos (interval : Duration) :
    0 < (normalizeAntiEntropyInterval interval).toNanos := by
  rw [toNanos_normalizeAntiEntropyInterval]
  omega

/-- The loop normalizes its interval, and so does every deadline. -/
theorem normalizeAntiEntropyInterval_idem (interval : Duration) :
    normalizeAntiEntropyInterval (normalizeAntiEntropyInterval interval) =
      normalizeAntiEntropyInterval interval := by
  apply Duration.toNanos_inj
  simp only [toNanos_normalizeAntiEntropyInterval]
  omega

theorem checkedAntiEntropyDeadline_eq {previous now : Instant clock} (interval : Duration)
    (h : previous.nanos ≤ now.nanos) :
    checkedAntiEntropyDeadline previous interval now =
      .ok (clock.instant? (nextTick previous.nanos (normalizeAntiEntropyInterval interval).toNanos
        now.nanos)) := by
  have hpos := normalizeAntiEntropyInterval_pos interval
  simp only [checkedAntiEntropyDeadline, Instant.checkedAdd]
  generalize normalizeAntiEntropyInterval interval = step at hpos ⊢
  cases hnext : clock.instant? (previous.nanos + step.toNanos) with
  | none =>
    -- the clock ends within this step, so that `now` lies in it
    have hend := Clock.instant?_eq_none.mp hnext
    rw [nextTick_of_lt h (now.le_latest.trans_lt hend), hnext]
  | some next =>
    have hvalue := Clock.instant?_eq_some.mp hnext
    by_cases hlater : now.nanos < next.nanos
    · rw [nextTick_of_lt h (hvalue ▸ hlater), hnext]
      exact if_pos hlater
    · have hlt : (now.nanos - previous.nanos) % step.toNanos < step.toNanos := Nat.mod_lt _ hpos
      have hwait := Duration.toNanos_ofNanos ((Nat.sub_le step.toNanos
        ((now.nanos - previous.nanos) % step.toNanos)).trans step.toNanos_le)
      simp only [if_neg hlater, Duration.asNanos_eq, Instant.toNanos_durationSince,
        rem_of_pos hpos, bind, Except.bind, Duration.new_div_mod, Duration.sub_ofNanos hlt.le,
        hwait, nextTick]
      rfl

/-- The deadline is the first tick after `now`, if the clock has it, and `none` exactly where
it has not. Nothing panics: no division by zero, no underflow. The remainder is taken of the
true lengths, and its two parts fit the words they are cast to. -/
theorem checkedAntiEntropyDeadline_least (clock : Clock) (previous now : Instant clock)
    (interval : Duration) (h : previous.nanos ≤ now.nanos) :
    let step := max interval.toNanos 1000000
    let remainder := (now.durationSince previous).asNanos %
      (normalizeAntiEntropyInterval interval).asNanos
    (∃ next, IsLeast {t | ∃ k, 1 ≤ k ∧ t = previous.nanos + k * step ∧ now.nanos < t} next ∧
      (∀ hnext : next ≤ clock.latest,
        checkedAntiEntropyDeadline previous interval now = .ok (some ⟨next, hnext⟩)) ∧
      (checkedAntiEntropyDeadline previous interval now = .ok none ↔ clock.latest < next)) ∧
    (∀ panic, checkedAntiEntropyDeadline previous interval now ≠ .error panic) ∧
    remainder = (now.nanos - previous.nanos) % step ∧
    (UInt64.ofNat (remainder / 1000000000)).toNat = remainder / 1000000000 ∧
    (UInt32.ofNat (remainder % 1000000000)).toNat = remainder % 1000000000 := by
  have hpos := normalizeAntiEntropyInterval_pos interval
  have hle := (normalizeAntiEntropyInterval interval).toNanos_le
  intro step remainder
  have hstep : (normalizeAntiEntropyInterval interval).toNanos = step :=
    toNanos_normalizeAntiEntropyInterval interval
  have hremainder : remainder = (now.nanos - previous.nanos) % step := by
    simp only [remainder, Duration.asNanos_eq, Instant.toNanos_durationSince, hstep]
  rw [checkedAntiEntropyDeadline_eq interval h, hstep]
  rw [hstep] at hpos hle
  refine ⟨⟨nextTick previous.nanos step now.nanos, isLeast_nextTick hpos h, ?_, ?_⟩, ?_,
    hremainder, Duration.toNat_ofNat_secs ?_, Duration.toNat_ofNat_nanos _⟩
  · intro hnext
    rw [Clock.instant?_of_le hnext]
  · rw [Except.ok.injEq, Clock.instant?_eq_none]
  · rintro panic ⟨⟩
  · -- a remainder is below the interval, whose seconds fit
    rw [hremainder]
    exact (Nat.mod_lt _ hpos).le.trans hle

theorem minute_le_durationMax : 60000000000 ≤ durationMax := by decide

/-- A clock that ends after a minute. -/
def minuteClock : Clock := ⟨60000000000, minute_le_durationMax⟩

/-- Three ticks are missed, and the fourth is next. -/
theorem checkedAntiEntropyDeadline_least_skips :
    checkedAntiEntropyDeadline (⟨0, by decide⟩ : Instant minuteClock) (.fromMillis 10)
      ⟨35000000, by decide⟩ = .ok (some ⟨40000000, by decide⟩) := by
  obtain ⟨⟨next, hleast, hsome, -⟩, -⟩ := checkedAntiEntropyDeadline_least minuteClock
    ⟨0, by decide⟩ ⟨35000000, by decide⟩ (.fromMillis 10) (by decide)
  have hstep : max (Duration.fromMillis 10).toNanos 1000000 = 10000000 := by decide
  rw [hstep] at hleast
  have hnext : next = 40000000 := by
    apply hleast.unique
    refine ⟨⟨4, by decide, by decide, by decide⟩, ?_⟩
    rintro t ⟨k, -, rfl, hlt⟩
    simp only at hlt ⊢
    omega
  subst hnext
  exact hsome _

/-! ## Whole runs of the loop -/

/-- Everything a step of the loop can do, with what is seen of it. -/
inductive AntiEntropyLoop.Moves (interval : Duration) (s : AntiEntropyLoop clock) :
    AntiEntropyLoop clock → List (AntiEntropyEntry clock) → Prop
  | plan {previous now deadline : Instant clock} (hphase : s.phase = .planning previous)
      (htime : s.time.nanos ≤ now.nanos)
      (hdeadline : checkedAntiEntropyDeadline previous (normalizeAntiEntropyInterval interval) now =
        .ok (some deadline)) :
      Moves interval s ⟨now, .waiting deadline, s.syncErrors⟩ [.planned now deadline]
  | overflow {previous now : Instant clock} (hphase : s.phase = .planning previous)
      (htime : s.time.nanos ≤ now.nanos)
      (hdeadline : checkedAntiEntropyDeadline previous (normalizeAntiEntropyInterval interval) now =
        .ok none) :
      Moves interval s ⟨now, .terminated, s.syncErrors + 1⟩ []
  | panic {previous now : Instant clock} {panic : Panic} (hphase : s.phase = .planning previous)
      (htime : s.time.nanos ≤ now.nanos)
      (hdeadline : checkedAntiEntropyDeadline previous (normalizeAntiEntropyInterval interval) now =
        .error panic) :
      Moves interval s ⟨now, .panicked panic, s.syncErrors⟩ []
  | round {deadline woke now : Instant clock} {pulls : List Pull}
      (hphase : s.phase = .waiting deadline)
      (hdue : deadline.nanos ≤ woke.nanos ∧ woke.nanos ≤ now.nanos) :
      Moves interval s ⟨now, .planning deadline, s.syncErrors + failed pulls⟩
        (pulls.map (.pulled deadline woke))
  | shutdown {deadline woke now : Instant clock} {pulls : List Pull}
      (hphase : s.phase = .waiting deadline)
      (hdue : pulls = [] ∨ deadline.nanos ≤ woke.nanos ∧ woke.nanos ≤ now.nanos) :
      Moves interval s ⟨now, .terminated, s.syncErrors + failed pulls⟩
        (pulls.map (.pulled deadline woke))

namespace AntiEntropyLoop

variable {interval : Duration} {s s' : AntiEntropyLoop clock} {event : AntiEntropyEvent clock}

theorem moves_of_step (h : step interval s event = some s') :
    Moves interval s s' (entries interval s event) := by
  obtain ⟨time, phase, syncErrors⟩ := s
  unfold step at h
  split at h
  · cases h
  next htime =>
    have htime := Nat.not_lt.mp htime
    cases phase with
    | planning previous =>
      cases event with
      | plan now =>
        cases h
        simp only [entries, planned]
        cases hdeadline :
            checkedAntiEntropyDeadline previous (normalizeAntiEntropyInterval interval) now with
        | error panic => exact .panic rfl htime hdeadline
        | ok deadline =>
          cases deadline with
          | none => exact .overflow rfl htime hdeadline
          | some deadline => exact .plan rfl htime hdeadline
      | round woke now pulls => cases h
      | shutdown woke now pulls => cases h
    | waiting deadline =>
      cases event with
      | plan now => cases h
      | round woke now pulls =>
        obtain ⟨hdue, hnext⟩ := Option.ite_none_right_eq_some.mp h
        cases hnext
        exact .round rfl hdue
      | shutdown woke now pulls =>
        obtain ⟨hdue, hnext⟩ := Option.ite_none_right_eq_some.mp h
        cases hnext
        exact .shutdown rfl hdue
    | terminated => cases h
    | panicked panic => cases h

/-- The step of the cadence in nanoseconds. -/
def cadence (interval : Duration) : Nat := (normalizeAntiEntropyInterval interval).toNanos

/-- The tick the loop is at or goes to. -/
def lastTick : AntiEntropyPhase clock → Option (Instant clock)
  | .planning previous => some previous
  | .waiting deadline => some deadline
  | .terminated => none
  | .panicked _ => none

/-- The deadlines that have been planned, in order. -/
def deadlines (seen : List (AntiEntropyEntry clock)) : List Nat :=
  seen.filterMap fun
    | .planned _ deadline => some deadline.nanos
    | .pulled _ _ _ => none

theorem deadlines_append (before after : List (AntiEntropyEntry clock)) :
    deadlines (before ++ after) = deadlines before ++ deadlines after :=
  List.filterMap_append

@[simp] theorem deadlines_map_pulled (deadline now : Instant clock) (pulls : List Pull) :
    deadlines (pulls.map (.pulled deadline now)) = [] := by
  simp [deadlines]

/-- What holds of all that is seen of a loop that was started at `first`: a deadline is the
first tick after the moment it was planned and at most one step away, the deadlines increase,
and the pulls for a planned deadline start when it is due. -/
structure KeepsPhase (interval : Duration) (first : Instant clock)
    (seen : List (AntiEntropyEntry clock)) : Prop where
  least : ∀ now deadline, .planned now deadline ∈ seen →
    IsLeast {t | IsTick first.nanos (cadence interval) now.nanos t} deadline.nanos ∧
      deadline.nanos ≤ now.nanos + cadence interval
  increasing : (deadlines seen).Pairwise (· < ·)
  pulled : ∀ deadline woke pull, .pulled deadline woke pull ∈ seen →
    deadline.nanos ≤ woke.nanos ∧ ∃ planned, .planned planned deadline ∈ seen

/-- What holds of the loop itself. The tick it is at bounds the deadlines so far. -/
structure OnTick (interval : Duration) (first : Instant clock)
    (seen : List (AntiEntropyEntry clock)) (s : AntiEntropyLoop clock) : Prop where
  running : ∀ panic, s.phase ≠ .panicked panic
  passed : ∀ previous, s.phase = .planning previous → previous.nanos ≤ s.time.nanos
  tick : ∀ last, lastTick s.phase = some last →
    (∃ k, last.nanos = first.nanos + k * cadence interval) ∧ ∀ d ∈ deadlines seen, d ≤ last.nanos
  planned : ∀ deadline, s.phase = .waiting deadline → ∃ now, .planned now deadline ∈ seen

variable {first : Instant clock} {seen out : List (AntiEntropyEntry clock)}

/-- A deadline is a tick of the cadence the loop was started with. -/
theorem isLeast_of_deadline {previous now deadline : Instant clock} {k : Nat}
    (htick : previous.nanos = first.nanos + k * cadence interval)
    (hpast : previous.nanos ≤ now.nanos)
    (h : checkedAntiEntropyDeadline previous (normalizeAntiEntropyInterval interval) now =
      .ok (some deadline)) :
    IsLeast {t | IsTick first.nanos (cadence interval) now.nanos t} deadline.nanos ∧
      deadline.nanos ≤ now.nanos + cadence interval := by
  rw [checkedAntiEntropyDeadline_eq _ hpast, normalizeAntiEntropyInterval_idem, Except.ok.injEq,
    Clock.instant?_eq_some] at h
  have hleast := isLeast_nextTick (normalizeAntiEntropyInterval_pos interval) hpast
  have hsame : {t | IsTick first.nanos (cadence interval) now.nanos t} =
      {t | IsTick previous.nanos (cadence interval) now.nanos t} := by
    ext t
    rw [htick] at hpast ⊢
    exact (isTick_add_mul hpast).symm
  rw [hsame, h]
  exact ⟨hleast, nextTick_le⟩

/-- What is seen next has to be in phase itself. -/
theorem KeepsPhase.append (h : KeepsPhase interval first seen)
    (hleast : ∀ now deadline, .planned now deadline ∈ out →
      IsLeast {t | IsTick first.nanos (cadence interval) now.nanos t} deadline.nanos ∧
        deadline.nanos ≤ now.nanos + cadence interval)
    (hincreasing : (deadlines seen ++ deadlines out).Pairwise (· < ·))
    (hpulled : ∀ deadline now pull, .pulled deadline now pull ∈ out →
      deadline.nanos ≤ now.nanos ∧ ∃ planned, .planned planned deadline ∈ seen) :
    KeepsPhase interval first (seen ++ out) where
  least := by
    intro now deadline hmem
    rcases List.mem_append.mp hmem with hold | hnew
    · exact h.least now deadline hold
    · exact hleast now deadline hnew
  increasing := by rwa [deadlines_append]
  pulled := by
    intro deadline now pull hmem
    have hfrom : deadline.nanos ≤ now.nanos ∧ ∃ planned, .planned planned deadline ∈ seen := by
      rcases List.mem_append.mp hmem with hold | hnew
      · exact h.pulled deadline now pull hold
      · exact hpulled deadline now pull hnew
    obtain ⟨hdue, planned, hplanned⟩ := hfrom
    exact ⟨hdue, planned, List.mem_append_left _ hplanned⟩

theorem KeepsPhase.append_planned {now deadline : Instant clock}
    (h : KeepsPhase interval first seen)
    (hleast : IsLeast {t | IsTick first.nanos (cadence interval) now.nanos t} deadline.nanos ∧
      deadline.nanos ≤ now.nanos + cadence interval)
    (hlater : ∀ d ∈ deadlines seen, d < deadline.nanos) :
    KeepsPhase interval first (seen ++ [.planned now deadline]) := by
  apply h.append
  · intro plannedAt d hmem
    cases List.mem_singleton.mp hmem
    exact hleast
  · refine List.pairwise_append.mpr ⟨h.increasing, List.pairwise_singleton _ _, ?_⟩
    intro d hd d' hd'
    cases List.mem_singleton.mp hd'
    exact hlater d hd
  · intro d pulledAt pull hmem
    cases List.mem_singleton.mp hmem

theorem KeepsPhase.append_pulled {deadline woke : Instant clock} {pulls : List Pull}
    (h : KeepsPhase interval first seen)
    (hplanned : ∃ plannedAt, .planned plannedAt deadline ∈ seen)
    (hdue : pulls = [] ∨ deadline.nanos ≤ woke.nanos) :
    KeepsPhase interval first (seen ++ pulls.map (.pulled deadline woke)) := by
  apply h.append
  · intro plannedAt d hmem
    obtain ⟨pull, -, hpull⟩ := List.mem_map.mp hmem
    cases hpull
  · rw [deadlines_map_pulled, List.append_nil]
    exact h.increasing
  · intro d pulledAt pull hmem
    obtain ⟨sent, hsent, hpull⟩ := List.mem_map.mp hmem
    cases hpull
    refine ⟨?_, hplanned⟩
    -- shutdown before the deadline comes before the first pull
    rcases hdue with rfl | hdue
    · cases hsent
    · exact hdue

theorem inPhase_start (interval : Duration) (first : Instant clock) :
    KeepsPhase interval first [] ∧ OnTick interval first [] (start first) := by
  refine ⟨⟨nofun, List.Pairwise.nil, nofun⟩, nofun, ?_, ?_, nofun⟩
  · rintro previous ⟨⟩
    exact le_refl _
  · rintro last ⟨⟩
    exact ⟨⟨0, by rw [Nat.zero_mul, Nat.add_zero]⟩, nofun⟩

theorem inPhase_moves (hseen : KeepsPhase interval first seen) (hs : OnTick interval first seen s)
    (h : Moves interval s s' out) :
    KeepsPhase interval first (seen ++ out) ∧ OnTick interval first (seen ++ out) s' := by
  cases h with
  | @plan previous now deadline hphase htime hdeadline =>
    obtain ⟨⟨k, hk⟩, hbound⟩ := hs.tick previous (by rw [hphase, lastTick])
    have hpast := (hs.passed previous hphase).trans htime
    have hleast := isLeast_of_deadline hk hpast hdeadline
    obtain ⟨j, -, hj, hafter⟩ := hleast.1.1
    -- every deadline so far is at most the last tick, and that has passed
    have hlater : ∀ d ∈ deadlines seen, d < deadline.nanos :=
      fun d hd => ((hbound d hd).trans hpast).trans_lt hafter
    refine ⟨hseen.append_planned hleast hlater, nofun, nofun, ?_, ?_⟩
    · rintro last ⟨⟩
      refine ⟨⟨j, hj⟩, ?_⟩
      intro d hd
      rw [deadlines_append] at hd
      rcases List.mem_append.mp hd with hold | hnew
      · exact (hlater d hold).le
      · exact (List.mem_singleton.mp hnew).le
    · rintro d ⟨⟩
      exact ⟨now, List.mem_append_right _ (List.mem_singleton_self _)⟩
  | overflow hphase htime hdeadline =>
    rw [List.append_nil]
    exact ⟨hseen, nofun, nofun, nofun, nofun⟩
  | @panic previous now panic hphase htime hdeadline =>
    rw [checkedAntiEntropyDeadline_eq _ ((hs.passed previous hphase).trans htime)] at hdeadline
    cases hdeadline
  | @round deadline woke now pulls hphase hdue =>
    obtain ⟨hk, hbound⟩ := hs.tick deadline (by rw [hphase, lastTick])
    refine ⟨hseen.append_pulled (hs.planned deadline hphase) (.inr hdue.1), nofun, ?_, ?_, nofun⟩
    · rintro previous ⟨⟩
      exact hdue.1.trans hdue.2
    · rintro last ⟨⟩
      rw [deadlines_append, deadlines_map_pulled, List.append_nil]
      exact ⟨hk, hbound⟩
  | @shutdown deadline woke now pulls hphase hdue =>
    exact ⟨hseen.append_pulled (hs.planned deadline hphase) (hdue.imp_right And.left), nofun,
      nofun, nofun, nofun⟩

theorem run_inPhase {events : List (AntiEntropyEvent clock)}
    (hrun : runSteps (step interval) (start first) events = some s) :
    let seen := outputs (step interval) (entries interval) (start first) events
    KeepsPhase interval first seen ∧ OnTick interval first seen s := by
  have h := runSteps_invariant (entries interval)
    (P := fun seen s => KeepsPhase interval first seen ∧ OnTick interval first seen s)
    (fun seen s event s' hs hstep => inPhase_moves hs.1 hs.2 (moves_of_step hstep))
    [] (inPhase_start interval first) hrun
  rwa [List.nil_append] at h

/-- Whatever the clock reads, however long the rounds take and whichever pulls fail: the loop
never panics, and all that is seen of it keeps the phase it was started in. -/
theorem run_keepsPhase {events : List (AntiEntropyEvent clock)}
    (hrun : runSteps (step interval) (start first) events = some s) :
    KeepsPhase interval first
        (outputs (step interval) (entries interval) (start first) events) ∧
      ∀ panic, s.phase ≠ .panicked panic :=
  ⟨(run_inPhase hrun).1, (run_inPhase hrun).2.running⟩

/-- A round of 25 ms in a cadence of 10 ms, then the next deadline and shutdown before it. -/
def slowRound : List (AntiEntropyEvent minuteClock) :=
  [.plan ⟨0, by decide⟩,
    .round ⟨10000000, by decide⟩ ⟨35000000, by decide⟩
      [⟨"peer:4000", true⟩, ⟨"peer:4001", false⟩],
    .plan ⟨35000000, by decide⟩, .shutdown ⟨36000000, by decide⟩ ⟨36000000, by decide⟩ []]

/-- The ticks at 20 ms and 30 ms are skipped; the pull that could not be sent is counted. -/
theorem run_keepsPhase_slowRound :
    let first : Instant minuteClock := ⟨0, by decide⟩
    let seen := outputs (step (.fromMillis 10)) (entries (.fromMillis 10)) (start first) slowRound
    ∃ s, runSteps (step (.fromMillis 10)) (start first) slowRound = some s ∧ s.syncErrors = 1 ∧
      deadlines seen = [10000000, 40000000] ∧ KeepsPhase (.fromMillis 10) first seen ∧
      ∀ panic, s.phase ≠ .panicked panic := by
  intro first seen
  have herrors : (runSteps (step (.fromMillis 10)) (start first) slowRound).map
      AntiEntropyLoop.syncErrors = some 1 := by decide +kernel
  obtain ⟨s, hrun, hs⟩ := Option.map_eq_some_iff.mp herrors
  exact ⟨s, hrun, hs, by decide +kernel, run_keepsPhase hrun⟩

end AntiEntropyLoop

end Numax
