import Numax.Base.Transition
import Numax.Discovery.ProviderTask
import Numax.Theorems.DynamicState

/-!
# Generations do not overlap

Every generation but the last one is completed, and while a caller is about to spawn the
next one, the last one is completed too (`Provider.Sound`). A completed generation has no
step left. From its first finish on the shared state is closed until somebody activates
it, and a cleanup that has failed stays in the way of every later call.
-/

open Base

namespace Numax

/-! ## One generation -/

/-- No restart. -/
def TaskCompletion.Refused (completion : TaskCompletion) : Prop :=
  ∃ error, completion.restart = .error error ∧ Provider.retryable error = false

namespace SupervisorPhase

def Completed (phase : SupervisorPhase) : Prop := ∃ completion, phase = .completed completion

/-- The state has been finished, or the guard has done so. -/
def Finished : SupervisorPhase → Prop
  | .working => False
  | .joined _ _ _ => False
  | _ => True

/-- The cleanup has failed, or never ends. -/
def Blocked : SupervisorPhase → Prop
  | cleaned _ _ outcome => isErr outcome = true
  | disarmed completion => completion.Refused
  | completed completion => completion.Refused
  | aborted => True
  | _ => False

end SupervisorPhase

section Steps

variable {provider : String} {describe : DiscoveryError → String}

namespace Generation

open DiscoveryWorld

variable {g g' : Generation} {w w' : DiscoveryWorld} {step : SupervisorStep}

/-- A completed generation has no step left. -/
theorem step_of_completed (h : g.phase.Completed) (w : DiscoveryWorld) (step : SupervisorStep) :
    g.step provider describe w step = none := by
  obtain ⟨completion, hphase⟩ := h
  cases step <;> simp only [Generation.step, hphase]

variable (provider describe) in
/-- What a step can do. -/
inductive Moves (g : Generation) (w : DiscoveryWorld) :
    SupervisorStep → Generation → DiscoveryWorld → Prop
  | changed {change : ProviderChange}
      (hphase : g.phase = .working ∨ (∃ result restart, g.phase = .cleaning result restart) ∨
        g.phase = .aborted) :
      Moves g w (.change change) g (w.change change)
  | joined {outcome : TaskOutcome} {result restart : Except DiscoveryError Unit}
      (hphase : g.phase = .working) (houtcome : outcome.worker provider = (result, restart)) :
      Moves g w (.join outcome)
        { g with phase := .joined result restart (!g.stopRequested || isErr result) } w
  | finished {result restart : Except DiscoveryError Unit} {unexpected : Bool}
      (hphase : g.phase = .joined result restart unexpected) :
      Moves g w .finish { g with phase := .cleaning result restart } (w.finish unexpected)
  | cleaned {result restart : Except DiscoveryError Unit} {outcome : TaskOutcome}
      (hphase : g.phase = .cleaning result restart) :
      Moves g w (.cleanup outcome)
        { g with phase := .cleaned result restart (outcome.cleaned provider) } w
  | settled {result restart cleaned : Except DiscoveryError Unit}
      (hphase : g.phase = .cleaned result restart cleaned) :
      Moves g w .settle
        { g with
          phase := .disarmed ⟨if isErr result then result else cleaned,
            restartAfter provider restart describe cleaned⟩ }
        (if isErr cleaned then w.finish true else w)
  | published {completion : TaskCompletion} (hphase : g.phase = .disarmed completion) :
      Moves g w .publish { g with phase := .completed completion } w
  | dropped {completion : TaskCompletion} (hphase : g.phase = .disarmed completion) :
      Moves g w .abort { g with phase := .aborted } w
  | aborted (hactive : ¬ g.phase.Completed) :
      Moves g w .abort { g with phase := .aborted } (w.finish true)

theorem moves_of_step (h : g.step provider describe w step = some (g', w')) :
    g.Moves provider describe w step g' w' := by
  cases step with
  | change change =>
    simp only [Generation.step] at h
    split at h <;> cases h
    · next hphase => exact .changed (.inl hphase)
    · next hphase => exact .changed (.inr (.inl ⟨_, _, hphase⟩))
    · next hphase => exact .changed (.inr (.inr hphase))
  | join outcome =>
    simp only [Generation.step] at h
    split at h <;> cases h
    next hphase => exact .joined hphase rfl
  | finish =>
    simp only [Generation.step] at h
    split at h <;> cases h
    next hphase => exact .finished hphase
  | cleanup outcome =>
    simp only [Generation.step] at h
    split at h <;> cases h
    next hphase => exact .cleaned hphase
  | settle =>
    simp only [Generation.step] at h
    split at h <;> cases h
    next hphase => exact .settled hphase
  | publish =>
    simp only [Generation.step] at h
    split at h <;> cases h
    next hphase => exact .published hphase
  | abort =>
    simp only [Generation.step] at h
    split at h <;> cases h
    · next hphase => exact .dropped hphase
    · next hactive _ _ => exact .aborted fun ⟨completion, hphase⟩ => hactive completion hphase

/-- A step closes the state, or it leaves it as it is and is not the first finish. -/
theorem step_world (h : g.step provider describe w step = some (g', w')) :
    w'.state.available = false ∨
      w'.state.available = w.state.available ∧ (g'.phase.Finished → g.phase.Finished) := by
  cases moves_of_step h with
  | changed hphase => exact .inr ⟨available_change w _, id⟩
  | joined hphase => exact .inr ⟨rfl, False.elim⟩
  | finished hphase => exact .inl (available_finish w _)
  | cleaned hphase => exact .inr ⟨rfl, fun _ => by rw [hphase]; trivial⟩
  | settled hphase =>
    split
    · exact .inl (available_finish w true)
    · exact .inr ⟨rfl, fun _ => by rw [hphase]; trivial⟩
  | published hphase => exact .inr ⟨rfl, fun _ => by rw [hphase]; trivial⟩
  | dropped hphase => exact .inr ⟨rfl, fun _ => by rw [hphase]; trivial⟩
  | aborted => exact .inl (available_finish w true)

/-- From the first finish on the state is closed, whatever the generation does. -/
theorem step_closed (h : g.step provider describe w step = some (g', w'))
    (hclosed : g.phase.Finished → w.state.available = false) (hfinished : g'.phase.Finished) :
    w'.state.available = false := by
  rcases step_world h with hnow | ⟨hsame, hbefore⟩
  · exact hnow
  · rw [hsame]
    exact hclosed (hbefore hfinished)

/-- No step of a generation opens the state. -/
theorem step_available (h : g.step provider describe w step = some (g', w'))
    (hclosed : w.state.available = false) : w'.state.available = false := by
  rcases step_world h with hnow | ⟨hsame, -⟩
  · exact hnow
  · rwa [hsame]

/-- A failed cleanup is never forgotten. -/
theorem step_blocked (h : g.step provider describe w step = some (g', w'))
    (hblocked : g.phase.Blocked) : g'.phase.Blocked := by
  cases moves_of_step h with
  | changed => exact hblocked
  | joined hphase =>
    rw [hphase] at hblocked
    exact hblocked.elim
  | finished hphase =>
    rw [hphase] at hblocked
    exact hblocked.elim
  | cleaned hphase =>
    rw [hphase] at hblocked
    exact hblocked.elim
  | @settled _ _ cleaned hphase =>
    rw [hphase] at hblocked
    cases cleaned with
    | ok value => cases hblocked
    | error error => exact ⟨_, rfl, rfl⟩
  | published hphase => rwa [hphase] at hblocked
  | dropped => trivial
  | aborted => trivial

end Generation

/-! ## All generations -/

namespace Provider

open DiscoveryWorld

variable {s next : Provider} {event : ProviderEvent}

/-- A caller has seen that it may spawn, and has not done so. -/
def Spawning (s : Provider) : Prop := s.caller = some .spawning ∨ s.caller = some .activated

theorem not_spawning_of_free (h : s.caller = none) : ¬ s.Spawning := by
  rintro (hcaller | hcaller)
  · cases h.symm.trans hcaller
  · cases h.symm.trans hcaller

variable (provider describe) in
/-- What an event can do. -/
inductive Moves (s : Provider) : ProviderEvent → Provider → Prop
  | refused {error : DiscoveryError} (henter : s.enter provider = .error error) : Moves s .enter s
  | entered {phase : CallerPhase} (hfree : s.caller = none)
      (henter : s.enter provider = .ok phase) :
      Moves s .enter { s with caller := some phase }
  | checked (hcaller : s.caller = some .checking) : Moves s .check { s with caller := none }
  | activated (hcaller : s.caller = some .spawning) :
      Moves s .activate { s with world := s.world.activate, caller := some .activated }
  | started (hcaller : s.caller = some .activated) :
      Moves s .start { s with generations := s.generations ++ [⟨false, .working⟩], caller := none }
  | stopping : Moves s .requestShutdown s.requestShutdown
  | watched : Moves s .liveWatch { s with world := s.world.liveWatch }
  | received (i : Nat) : Moves s (.recv i) { s with world := s.world.recv i }
  | moved {i : Nat} {step : SupervisorStep} {g g' : Generation} {w : DiscoveryWorld}
      (hi : s.generations[i]? = some g)
      (hg : g.step provider describe s.world step = some (g', w)) :
      Moves s (.generation i step) { s with world := w, generations := s.generations.set i g' }

theorem moves_of_step (hstep : s.step provider describe event = some next) :
    s.Moves provider describe event next := by
  cases event with
  | enter =>
    simp only [Provider.step] at hstep
    split at hstep
    · cases hstep
    · next hfree =>
        split at hstep <;> cases hstep
        · next henter => exact .refused henter
        · next henter => exact .entered (Option.not_isSome_iff_eq_none.mp hfree) henter
  | check =>
    obtain ⟨hcaller, heq⟩ := Option.ite_none_right_eq_some.mp hstep
    cases heq
    exact .checked hcaller
  | activate =>
    obtain ⟨hcaller, heq⟩ := Option.ite_none_right_eq_some.mp hstep
    cases heq
    exact .activated hcaller
  | start =>
    obtain ⟨hcaller, heq⟩ := Option.ite_none_right_eq_some.mp hstep
    cases heq
    exact .started hcaller
  | requestShutdown =>
    simp only [Provider.step] at hstep
    split at hstep <;> cases hstep
    exact .stopping
  | liveWatch =>
    cases hstep
    exact .watched
  | recv i =>
    cases hstep
    exact .received i
  | generation i step =>
    obtain ⟨g, hi, hmap⟩ := Option.bind_eq_some_iff.mp hstep
    obtain ⟨⟨g', w⟩, hg, rfl⟩ := Option.map_eq_some_iff.mp hmap
    exact .moved hi hg

structure Sound (s : Provider) : Prop where
  /-- Only the last generation can be at work, and not while the next one is spawned. -/
  single : ∀ i g, s.generations[i]? = some g → ¬ g.phase.Completed →
    i + 1 = s.generations.length ∧ ¬ s.Spawning
  closed : ∀ g, s.generations.getLast? = some g → g.phase.Finished →
    s.caller ≠ some .activated → s.world.state.available = false

theorem sound_new (eventCapacity : Nat) : (new eventCapacity).Sound where
  single _ _ h := nomatch h
  closed _ h := nomatch h

theorem Sound.completed (h : s.Sound) (hspawning : s.Spawning) {g : Generation}
    (hg : g ∈ s.generations) : g.phase.Completed := by
  obtain ⟨i, hi⟩ := List.mem_iff_getElem?.mp hg
  by_contra hactive
  exact (h.single i g hi hactive).2 hspawning

/-- The last generation is completed when a caller is let through. -/
theorem completed_of_enter (h : s.enter provider = .ok .spawning) {g : Generation}
    (hlast : s.generations.getLast? = some g) : g.phase.Completed := by
  obtain ⟨stopRequested, phase⟩ := g
  unfold enter at h
  split at h
  · cases h
  · rw [hlast] at h
    cases phase <;> first | exact ⟨_, rfl⟩ | cases h

theorem enter_ne_activated : s.enter provider ≠ .ok .activated := by
  unfold enter
  intro h
  repeat' split at h
  all_goals cases h

theorem Sound.enter (h : s.Sound) (hfree : s.caller = none) {phase : CallerPhase}
    (henter : s.enter provider = .ok phase) : Sound { s with caller := some phase } where
  single i g hi hactive := by
    have hsingle := h.single i g hi hactive
    refine ⟨hsingle.1, ?_⟩
    rintro (hphase | hphase)
    · cases hphase
      -- the last generation is the one at work, and a caller is let through behind it
      have hlast : s.generations.getLast? = some g := by
        rw [List.getLast?_eq_getElem?, ← hsingle.1]
        exact hi
      exact hactive (completed_of_enter henter hlast)
    · cases hphase
      exact enter_ne_activated henter
  closed g hlast hfinished _ := h.closed g hlast hfinished (by rw [hfree]; exact nofun)

theorem Sound.start (h : s.Sound) (hspawning : s.Spawning) :
    Sound { s with generations := s.generations ++ [⟨false, .working⟩], caller := none } where
  single i g hi hactive := by
    refine ⟨?_, not_spawning_of_free rfl⟩
    have hlength : (s.generations ++ [(⟨false, .working⟩ : Generation)]).length =
        s.generations.length + 1 := by
      rw [List.length_append, List.length_singleton]
    have hlt : i < s.generations.length + 1 := hlength ▸ (List.getElem?_eq_some_iff.mp hi).1
    rcases Nat.lt_succ_iff_lt_or_eq.mp hlt with hearlier | rfl
    · -- the earlier ones are all completed
      rw [List.getElem?_append_left hearlier] at hi
      exact absurd (h.completed hspawning (List.mem_of_getElem? hi)) hactive
    · exact hlength.symm
  closed g hlast hfinished _ := by
    rw [List.getLast?_concat] at hlast
    cases hlast
    exact hfinished.elim

variable {i : Nat}

/-- The phases stay when the current generation is asked to stop. -/
theorem phase_requestShutdown {g : Generation} (h : s.requestShutdown.generations[i]? = some g) :
    ∃ g', s.generations[i]? = some g' ∧ g'.phase = g.phase := by
  rw [requestShutdown, List.getElem?_modify] at h
  obtain ⟨g', hg', heq⟩ := Option.map_eq_some_iff.mp h
  refine ⟨g', hg', ?_⟩
  rw [← heq]
  split <;> rfl

theorem length_requestShutdown :
    s.requestShutdown.generations.length = s.generations.length := List.length_modify ..

theorem Sound.requestShutdown (h : s.Sound) : s.requestShutdown.Sound where
  single i g hi hactive := by
    obtain ⟨g', hi', hphase⟩ := phase_requestShutdown hi
    rw [length_requestShutdown]
    exact h.single i g' hi' (by rwa [hphase])
  closed g hlast hfinished hcaller := by
    rw [List.getLast?_eq_getElem?] at hlast
    obtain ⟨g', hlast', hphase⟩ := phase_requestShutdown hlast
    rw [length_requestShutdown, ← List.getLast?_eq_getElem?] at hlast'
    exact h.closed g' hlast' (by rwa [hphase]) hcaller

/-- Only the last generation takes a step, and nobody is spawning then. -/
theorem Sound.current (h : s.Sound) {g : Generation} {step : SupervisorStep}
    {result : Generation × DiscoveryWorld} (hi : s.generations[i]? = some g)
    (hstep : g.step provider describe s.world step = some result) :
    i + 1 = s.generations.length ∧ ¬ s.Spawning := by
  refine h.single i g hi fun hcompleted => ?_
  rw [g.step_of_completed hcompleted] at hstep
  cases hstep

theorem Sound.generation (h : s.Sound) {g g' : Generation} {step : SupervisorStep}
    {w : DiscoveryWorld} (hi : s.generations[i]? = some g)
    (hstep : g.step provider describe s.world step = some (g', w)) :
    Sound { s with world := w, generations := s.generations.set i g' } where
  single j g'' hj hactive := by
    rw [List.length_set]
    have hcurrent := h.current hi hstep
    by_cases hji : i = j
    · subst hji
      exact hcurrent
    · rw [List.getElem?_set_ne hji] at hj
      exact ⟨(h.single j g'' hj hactive).1, hcurrent.2⟩
  closed g'' hlast hfinished hcaller := by
    obtain ⟨hlength, -⟩ := h.current hi hstep
    have hlt : i < s.generations.length := hlength ▸ Nat.lt_succ_self i
    have hprevious : s.generations.getLast? = some g := by
      rw [List.getLast?_eq_getElem?, ← hlength]
      exact hi
    rw [List.getLast?_eq_getElem?, List.length_set, ← hlength, Nat.add_sub_cancel,
      List.getElem?_set_self hlt] at hlast
    cases hlast
    exact g.step_closed hstep (fun hbefore => h.closed g hprevious hbefore hcaller) hfinished

theorem Sound.step (h : s.Sound) (hstep : s.step provider describe event = some next) :
    next.Sound := by
  cases moves_of_step hstep with
  | refused henter => exact h
  | entered hfree henter => exact h.enter hfree henter
  | checked hcaller =>
    exact ⟨fun i g hi hactive => ⟨(h.single i g hi hactive).1, not_spawning_of_free rfl⟩,
      fun g hlast hfinished _ => h.closed g hlast hfinished (by rw [hcaller]; exact nofun)⟩
  | activated hcaller =>
    refine ⟨fun i g hi hactive => ?_, fun _ _ _ hcaller => absurd rfl hcaller⟩
    exact absurd (h.completed (.inl hcaller) (List.mem_of_getElem? hi)) hactive
  | started hcaller => exact h.start (.inr hcaller)
  | stopping => exact h.requestShutdown
  | watched =>
    exact ⟨h.single, fun g hlast hfinished hcaller => by
      rw [state_liveWatch]
      exact h.closed g hlast hfinished hcaller⟩
  | received i =>
    exact ⟨h.single, fun g hlast hfinished hcaller => by
      rw [state_recv]
      exact h.closed g hlast hfinished hcaller⟩
  | moved hi hg => exact h.generation hi hg

theorem Sound.run (h : s.Sound) {events : List ProviderEvent}
    (hrun : runSteps (Provider.step provider describe) s events = some next) : next.Sound :=
  runSteps_keeps (fun _ => True) (fun _ _ _ _ hsound hstep => hsound.step hstep)
    (fun _ _ => trivial) h hrun

/-! ## Closed and blocked -/

/-- Only an activation opens the state. -/
theorem available_step (hstep : s.step provider describe event = some next)
    (hevent : event ≠ .activate) (h : s.world.state.available = false) :
    next.world.state.available = false := by
  cases moves_of_step hstep with
  | activated => exact absurd rfl hevent
  | watched => rwa [state_liveWatch]
  | received i => rwa [state_recv]
  | moved hi hg => exact Generation.step_available hg h
  | refused => exact h
  | entered => exact h
  | checked => exact h
  | started => exact h
  | stopping => exact h

/-- The cleanup of this generation has failed, and it is the last one. -/
structure Blocked (i : Nat) (s : Provider) : Prop where
  last : s.generations.length = i + 1
  blocked : ∀ g, s.generations[i]? = some g → g.phase.Blocked
  idle : ¬ s.Spawning
  closed : s.world.state.available = false

theorem Sound.blocked (h : s.Sound) {outcome : TaskOutcome}
    (hfailed : isErr (outcome.cleaned provider) = true)
    (hstep : s.step provider describe (.generation i (.cleanup outcome)) = some next) :
    next.Blocked i := by
  cases moves_of_step hstep with
  | @moved _ _ g g' w hi hg =>
    obtain ⟨hlength, hidle⟩ := h.current hi hg
    have hlast : s.generations.getLast? = some g := by
      rw [List.getLast?_eq_getElem?, ← hlength]
      exact hi
    have hlt : i < s.generations.length := hlength ▸ Nat.lt_succ_self i
    cases Generation.moves_of_step hg with
    | cleaned hphase =>
      have hfinished : g.phase.Finished := by
        rw [hphase]
        trivial
      refine ⟨(List.length_set ..).trans hlength.symm, fun g hg => ?_, hidle,
        h.closed _ hlast hfinished fun hcaller => hidle (.inr hcaller)⟩
      rw [List.getElem?_set_self hlt] at hg
      cases hg
      exact hfailed

/-- A blocked generation lets nobody through. -/
theorem Blocked.enter (h : s.Blocked i) {phase : CallerPhase}
    (henter : s.enter provider = .ok phase) : phase = .checking := by
  unfold Provider.enter at henter
  split at henter
  · cases henter
  · have hlast : s.generations.getLast? = s.generations[i]? := by
      rw [List.getLast?_eq_getElem?, h.last, Nat.add_sub_cancel]
    cases hg : s.generations[i]? with
    | none =>
      rw [List.getElem?_eq_none_iff, h.last] at hg
      exact absurd hg (Nat.not_succ_le_self i)
    | some g =>
      have hblocked := h.blocked g hg
      rw [hlast, hg] at henter
      obtain ⟨stopRequested, phase⟩ := g
      cases phase with
      | completed done =>
        obtain ⟨error, hrestart, hfatal⟩ := hblocked
        simp only [hrestart, hfatal] at henter
        cases henter
      | aborted => cases henter
      -- the completion is still to come: the caller checks the state
      | cleaned result restart cleaned =>
        cases henter
        rfl
      | disarmed completion =>
        cases henter
        rfl
      | working => exact hblocked.elim
      | joined result restart unexpected => exact hblocked.elim
      | cleaning result restart => exact hblocked.elim

theorem Blocked.step (h : s.Blocked i) (hsound : s.Sound)
    (hstep : s.step provider describe event = some next) :
    next.Blocked i ∧ ∀ result ∈ s.returned provider event, isErr result = true := by
  have hclosed : event ≠ .activate → next.world.state.available = false :=
    fun hevent => available_step hstep hevent h.closed
  cases moves_of_step hstep with
  | refused henter => exact ⟨h, by simp [returned, henter, isErr]⟩
  | entered hfree henter =>
    cases h.enter henter
    refine ⟨⟨h.last, h.blocked, ?_, h.closed⟩, by simp [returned, henter]⟩
    rintro (hphase | hphase) <;> cases hphase
  | checked hcaller =>
    exact ⟨⟨h.last, h.blocked, not_spawning_of_free rfl, h.closed⟩,
      by simp [returned, checkAvailable, h.closed, isErr]⟩
  | activated hcaller => exact absurd (.inl hcaller) h.idle
  | started hcaller => exact absurd (.inr hcaller) h.idle
  | stopping =>
    refine ⟨⟨length_requestShutdown.trans h.last, fun g hg => ?_, h.idle, h.closed⟩, nofun⟩
    obtain ⟨g', hg', hphase⟩ := phase_requestShutdown hg
    exact hphase ▸ h.blocked g' hg'
  | watched => exact ⟨⟨h.last, h.blocked, h.idle, hclosed nofun⟩, nofun⟩
  | received j => exact ⟨⟨h.last, h.blocked, h.idle, hclosed nofun⟩, nofun⟩
  | @moved j step g g' w hj hg =>
    obtain ⟨hlength, -⟩ := hsound.current hj hg
    -- only the last generation can move, and that is the blocked one
    have hji : j = i := Nat.succ_injective (hlength.trans h.last)
    subst hji
    refine ⟨⟨(List.length_set ..).trans h.last, fun g'' hg'' => ?_, h.idle, hclosed nofun⟩, nofun⟩
    rw [List.getElem?_set_self (hlength ▸ Nat.lt_succ_self j)] at hg''
    cases hg''
    exact g.step_blocked hg (h.blocked g hj)

theorem Blocked.run {i : Nat} (h : s.Blocked i) (hsound : s.Sound) {events : List ProviderEvent}
    (hrun : runSteps (Provider.step provider describe) s events = some next) :
    next.Sound ∧ next.Blocked i ∧
      ∀ result ∈ outputs (Provider.step provider describe) (Provider.returned provider) s events,
        isErr result = true := by
  have hkept := runSteps_invariant (Provider.returned provider)
    (P := fun results s => s.Sound ∧ s.Blocked i ∧ ∀ result ∈ results, isErr result = true)
    (fun results s event next hs hstep => by
      obtain ⟨hsound, hblocked, herrors⟩ := hs
      obtain ⟨hnext, hreturned⟩ := hblocked.step hsound hstep
      refine ⟨hsound.step hstep, hnext, fun result hresult => ?_⟩
      rcases List.mem_append.mp hresult with hold | hnew
      · exact herrors result hold
      · exact hreturned result hnew)
    [] ⟨hsound, h, nofun⟩ hrun
  rwa [List.nil_append] at hkept

/-- Whoever activates the state or spawns a generation has been let through. -/
theorem spawning_of_spawn (hstep : s.step provider describe event = some next)
    (hspawn : event = .activate ∨ s.generations.length < next.generations.length) :
    s.Spawning := by
  cases moves_of_step hstep with
  | activated hcaller => exact .inl hcaller
  | started hcaller => exact .inr hcaller
  | stopping => simp [length_requestShutdown] at hspawn
  | moved hi hg => simp at hspawn
  | refused => simp at hspawn
  | entered => simp at hspawn
  | checked => simp at hspawn
  | watched => simp at hspawn
  | received => simp at hspawn

/-- After the first finish of a generation, or the end of its supervisor. -/
theorem Sound.closed_of_finish (h : s.Sound) {step : SupervisorStep}
    (hfinish : step = .finish ∨ step = .abort)
    (hstep : s.step provider describe (.generation i step) = some next) :
    next.world.state.available = false := by
  have hnext := h.step hstep
  cases moves_of_step hstep with
  | @moved _ _ g g' w hi hg =>
    obtain ⟨hlength, hidle⟩ := h.current hi hg
    have hfinished : g'.phase.Finished := by
      rcases hfinish with rfl | rfl
      · cases Generation.moves_of_step hg with
        | finished => trivial
      · cases Generation.moves_of_step hg with
        | dropped => trivial
        | aborted => trivial
    refine hnext.closed g' ?_ hfinished fun hcaller => hidle (.inr hcaller)
    rw [List.getLast?_eq_getElem?, List.length_set, ← hlength, Nat.add_sub_cancel]
    exact List.getElem?_set_self (hlength ▸ Nat.lt_succ_self i)

end Provider

/-- In every run of a provider, with callers, watchers and the tasks of its generations in
any order:

* a caller activates the state and spawns a generation only when all earlier ones have
  published their completion;
* a generation with a successor, or about to get one, has no step left;
* between the first finish of a generation and the next activation `live_watch` gives
  no watch;
* after a failed cleanup no generation is spawned, and every call of `ensure_started` that
  returns, returns an error. -/
theorem generations_never_overlap (provider : String) (describe : DiscoveryError → String)
    (eventCapacity : Nat) {events : List ProviderEvent} {s : Provider}
    (hrun : runSteps (Provider.step provider describe) (.new eventCapacity) events = some s) :
    (∀ event next, s.step provider describe event = some next →
      event = .activate ∨ s.generations.length < next.generations.length →
      ∀ g ∈ s.generations, ∃ completion, g.phase = .completed completion) ∧
    (∀ i g, s.generations[i]? = some g →
      i + 1 < s.generations.length ∨ s.caller = some .activated →
      ∀ step, s.step provider describe (.generation i step) = none) ∧
    (∀ (before : List ProviderEvent) (i : Nat) (step : SupervisorStep) (after : List ProviderEvent),
      events = before ++ .generation i step :: after → step = .finish ∨ step = .abort →
      .activate ∉ after → s.world.liveWatch = s.world) ∧
    ∀ (before : List ProviderEvent) (i : Nat) (outcome : TaskOutcome) (after : List ProviderEvent)
        (s' : Provider),
      events = before ++ .generation i (.cleanup outcome) :: after →
      runSteps (Provider.step provider describe) (.new eventCapacity)
        (before ++ [.generation i (.cleanup outcome)]) = some s' →
      isErr (outcome.cleaned provider) = true →
      s.generations.length = s'.generations.length ∧
      ∀ result ∈ outputs (Provider.step provider describe) (Provider.returned provider) s' after,
        isErr result = true := by
  have hsound := (Provider.sound_new eventCapacity).run hrun
  refine ⟨?_, ?_, ?_, ?_⟩
  · intro event next hstep hspawn g hg
    exact hsound.completed (Provider.spawning_of_spawn hstep hspawn) hg
  · intro i g hi hlater step
    have hcompleted : g.phase.Completed := by
      by_contra hactive
      obtain ⟨hlast, hidle⟩ := hsound.single i g hi hactive
      rcases hlater with hlt | hcaller
      · exact Nat.lt_irrefl _ (hlast ▸ hlt)
      · exact hidle (.inr hcaller)
    simp only [Provider.step, hi, Option.bind_some, g.step_of_completed hcompleted, Option.map_none]
  · rintro before i step after rfl hfinish hactivate
    obtain ⟨s₀, hbefore, hrest⟩ := runSteps_append.mp hrun
    obtain ⟨s₁, hstep, hafter⟩ := runSteps_cons.mp hrest
    -- closed by the finish, and nothing but an activation opens the state
    have hclosed := ((Provider.sound_new eventCapacity).run hbefore).closed_of_finish hfinish hstep
    refine DiscoveryWorld.liveWatch_of_unavailable ?_
    exact runSteps_keeps (P := fun s : Provider => s.world.state.available = false) (· ≠ .activate)
      (fun s event next hevent hs hnext => Provider.available_step hnext hevent hs)
      (fun event hevent heq => by subst heq; exact hactivate hevent) hclosed hafter
  · rintro before i outcome after s' rfl hfront hfailed
    obtain ⟨s₀, hbefore, hcleanup⟩ := runSteps_append.mp hfront
    obtain ⟨s₁, hstep, hdone⟩ := runSteps_cons.mp hcleanup
    cases hdone
    have hafter : runSteps (Provider.step provider describe) s' after = some s := by
      rw [← List.singleton_append, ← List.append_assoc] at hrun
      obtain ⟨s₁, hfirst, hrest⟩ := runSteps_append.mp hrun
      rw [hfront] at hfirst
      cases hfirst
      exact hrest
    have hsound₀ := (Provider.sound_new eventCapacity).run hbefore
    obtain ⟨-, hblocked, herrors⟩ := Provider.Blocked.run (hsound₀.blocked hfailed hstep)
      (hsound₀.step hstep) hafter
    exact ⟨hblocked.last.trans (hsound₀.blocked hfailed hstep).last.symm, herrors⟩

end Steps

/-! A generation that lists a peer and returns, and whose cleanup panics. -/

def spawnFirst : List ProviderEvent :=
  [.enter, .activate, .start, .generation 0 (.change (.observe ["a"] 1)),
    .generation 0 (.join (.returned (.ok ())))]

def retire : List ProviderEvent :=
  [.generation 0 .settle, .enter, .generation 0 .publish, .check, .liveWatch, .enter]

def failedCleanup : List ProviderEvent :=
  spawnFirst ++ .generation 0 .finish :: .generation 0 (.cleanup (.failed "p")) :: retire

theorem failedCleanup_possible :
    (runSteps (Provider.step "dns-srv" fun _ => "e") (.new 4) failedCleanup).any (fun s =>
      decide (s.generations.length = 1)) = true := by
  decide +kernel

/-- No watch, and no second generation. -/
theorem generations_never_overlap_failedCleanup :
    ∃ s, runSteps (Provider.step "dns-srv" fun _ => "e") (.new 4) failedCleanup = some s ∧
      s.generations.length = 1 ∧ s.world.liveWatch = s.world := by
  obtain ⟨s, hrun, hlength⟩ := (Option.any_eq_true _ _).mp failedCleanup_possible
  refine ⟨s, hrun, of_decide_eq_true hlength, ?_⟩
  exact (generations_never_overlap "dns-srv" (fun _ => "e") 4 hrun).2.2.1 spawnFirst 0 .finish _ rfl
    (.inl rfl) (by simp [retire])

end Numax
