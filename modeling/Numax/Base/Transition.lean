import Mathlib.Data.List.Basic

/-!
# Runs of partial steps, and what they put out

A step of the machine may be impossible in a state. A run is possible if every step
of it is. Along a run the machine puts out items, and an invariant may speak of the
state together with everything put out so far (`runSteps_invariant`).

In a history of states, `since` says from which one on something has been there.
-/

namespace Base

variable {σ α β : Type} (step : σ → α → Option σ) (out : σ → α → List β)

def runSteps : σ → List α → Option σ
  | s, [] => some s
  | s, a :: rest => (step s a).bind fun next => runSteps next rest

/-- What is put out along a run, up to the first impossible step. -/
def outputs : σ → List α → List β
  | _, [] => []
  | s, a :: rest =>
    match step s a with
    | none => []
    | some next => out s a ++ outputs next rest

variable {step out} {s s' : σ} {steps before after : List α} {a : α}

@[simp] theorem runSteps_nil : runSteps step s [] = some s := rfl

theorem runSteps_cons :
    runSteps step s (a :: steps) = some s' ↔
      ∃ next, step s a = some next ∧ runSteps step next steps = some s' :=
  Option.bind_eq_some_iff

theorem outputs_cons {next : σ} (h : step s a = some next) :
    outputs step out s (a :: steps) = out s a ++ outputs step out next steps := by
  rw [outputs, h]

theorem runSteps_append :
    runSteps step s (before ++ after) = some s' ↔
      ∃ middle, runSteps step s before = some middle ∧ runSteps step middle after = some s' := by
  induction before generalizing s with
  | nil => simp
  | cons a before ih =>
    rw [List.cons_append, runSteps_cons]
    simp only [ih, runSteps_cons]
    exact ⟨fun ⟨next, hnext, middle, hbefore, hafter⟩ => ⟨middle, ⟨next, hnext, hbefore⟩, hafter⟩,
      fun ⟨middle, ⟨next, hnext, hbefore⟩, hafter⟩ => ⟨next, hnext, middle, hbefore, hafter⟩⟩

theorem outputs_append {middle : σ} (h : runSteps step s before = some middle) :
    outputs step out s (before ++ after) =
      outputs step out s before ++ outputs step out middle after := by
  induction before generalizing s with
  | nil =>
    cases h
    rfl
  | cons a before ih =>
    obtain ⟨next, hnext, hrest⟩ := runSteps_cons.mp h
    rw [List.cons_append, outputs_cons hnext, outputs_cons hnext, ih hrest, List.append_assoc]

/-- Whatever is put out is put out by a step, in a state of the run. -/
theorem mem_outputs {b : β} (h : runSteps step s steps = some s')
    (hb : b ∈ outputs step out s steps) :
    ∃ before a after middle, steps = before ++ a :: after ∧
      runSteps step s before = some middle ∧ b ∈ out middle a := by
  induction steps generalizing s with
  | nil => cases hb
  | cons a steps ih =>
    obtain ⟨next, hnext, hrest⟩ := runSteps_cons.mp h
    rw [outputs_cons hnext] at hb
    rcases List.mem_append.mp hb with hhere | hlater
    · exact ⟨[], a, steps, s, rfl, rfl, hhere⟩
    · obtain ⟨before, c, after, middle, rfl, hbefore, hc⟩ := ih hrest hlater
      exact ⟨a :: before, c, after, middle, rfl, runSteps_cons.mpr ⟨next, hnext, hbefore⟩, hc⟩

/-- What every step keeps holds after a run, of the state and all that was put out, if
the steps of the run are of the kind that keeps it. -/
theorem runSteps_invariant_on (out : σ → α → List β) {P : List β → σ → Prop} (allowed : α → Prop)
    (hstep : ∀ seen s a s', allowed a → P seen s → step s a = some s' → P (seen ++ out s a) s')
    (hsteps : ∀ a ∈ steps, allowed a) (seen : List β) (h : P seen s)
    (hrun : runSteps step s steps = some s') : P (seen ++ outputs step out s steps) s' := by
  induction steps generalizing s seen with
  | nil =>
    cases hrun
    rwa [outputs, List.append_nil]
  | cons a steps ih =>
    obtain ⟨next, hnext, hrest⟩ := runSteps_cons.mp hrun
    have hkept := hstep seen s a next (hsteps a List.mem_cons_self) h hnext
    rw [outputs_cons hnext, ← List.append_assoc]
    exact ih (fun b hb => hsteps b (List.mem_cons_of_mem _ hb)) _ hkept hrest

theorem runSteps_invariant (out : σ → α → List β) {P : List β → σ → Prop}
    (hstep : ∀ seen s a s', P seen s → step s a = some s' → P (seen ++ out s a) s')
    (seen : List β) (h : P seen s) (hrun : runSteps step s steps = some s') :
    P (seen ++ outputs step out s steps) s' :=
  runSteps_invariant_on out (fun _ => True) (fun seen s a s' _ => hstep seen s a s')
    (fun _ _ => trivial) seen h hrun

/-- The same of the state alone. -/
theorem runSteps_keeps {P : σ → Prop} (allowed : α → Prop)
    (hstep : ∀ s a s', allowed a → P s → step s a = some s' → P s')
    (hsteps : ∀ a ∈ steps, allowed a) (h : P s) (hrun : runSteps step s steps = some s') : P s' :=
  runSteps_invariant_on (P := fun _ => P) (fun _ _ => ([] : List Unit)) allowed
    (fun _ s a s' => hstep s a s') hsteps [] h hrun

/-- What every step takes back holds before a run if it holds after it. -/
theorem runSteps_back {Q : σ → Prop} (hback : ∀ s a s', step s a = some s' → Q s' → Q s)
    (hrun : runSteps step s steps = some s') (hlast : Q s') : Q s := by
  induction steps generalizing s with
  | nil =>
    cases hrun
    exact hlast
  | cons a steps ih =>
    obtain ⟨next, hnext, hrest⟩ := runSteps_cons.mp hrun
    exact hback s a next hnext (ih hrest)

/-- What every step keeps under such a condition holds after a run that ends with it. -/
theorem runSteps_keeps_back {P Q : σ → Prop} (hback : ∀ s a s', step s a = some s' → Q s' → Q s)
    (hlast : Q s') (hstep : ∀ s a s', step s a = some s' → Q s' → P s → P s') (h : P s)
    (hrun : runSteps step s steps = some s') : P s' := by
  induction steps generalizing s with
  | nil =>
    cases hrun
    exact h
  | cons a steps ih =>
    obtain ⟨next, hnext, hrest⟩ := runSteps_cons.mp hrun
    exact ih (hstep s a next hnext (runSteps_back hback hrest hlast) h) hrest

/-! ## Since when -/

/-- The number of states up to the last one without the property. -/
def since (present : σ → Bool) (history : List σ) : Nat :=
  (history.reverse.dropWhile present).length

variable {present : σ → Bool} {history : List σ}

theorem since_append_of_present (h : present s = true) :
    since present (history ++ [s]) = since present history := by
  rw [since, List.reverse_append, List.reverse_singleton, List.singleton_append,
    List.dropWhile_cons_of_pos h]
  rfl

/-- What comes into the last state has been there for the shortest time. -/
theorem since_of_absent (hlast : history.getLast? = some s) (h : present s = false) :
    since present history = history.length := by
  obtain ⟨init, rfl⟩ := List.getLast?_eq_some_iff.mp hlast
  rw [since, List.reverse_append, List.reverse_singleton, List.singleton_append,
    List.dropWhile_cons_of_neg (by rw [h]; exact Bool.false_ne_true)]
  simp

theorem since_lt_of_present (hlast : history.getLast? = some s) (h : present s = true) :
    since present history < history.length := by
  obtain ⟨init, rfl⟩ := List.getLast?_eq_some_iff.mp hlast
  rw [since_append_of_present h, since, List.length_append]
  have hle := (List.dropWhile_sublist present (l := init.reverse)).length_le
  rw [List.length_reverse] at hle
  exact Nat.lt_succ_of_le hle

end Base
