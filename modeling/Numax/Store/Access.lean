import Numax.Store.Store

/-!
# Code over a store

Code that reads the store, writes batches and may fail in between, as explicit
state passing: a failure ends the code, and what was written before it stays
written. The storage engine may fail at any access; which accesses fail is
given from outside by a function from the accesses a piece of code makes.
-/

open Base Std

namespace Numax

/-- Code over a store that ends with a result or a failure. -/
abbrev StoreM (ε α : Type) := ExceptT ε (StateM Store) α

namespace StoreM

variable {ε α β : Type}

/-- Run the code on a store. -/
def exec (x : StoreM ε α) (s : Store) : Except ε α × Store := StateT.run (ExceptT.run x) s

/-- A computation that does not touch the store. -/
def ofExcept (r : Except ε α) : StoreM ε α := ExceptT.mk (pure r)

/-- One reading access. -/
def read (wrap : StoreError → ε) (access : Store → Except StoreError α) : StoreM ε α :=
  ExceptT.mk fun s => ((access s).mapError wrap, s)

/-- One writing access; a failed one leaves the store alone. -/
def write (wrap : StoreError → ε) (access : Store → Except StoreError Store) : StoreM ε Unit :=
  ExceptT.mk fun s =>
    match access s with
    | .ok s' => (.ok (), s')
    | .error e => (.error (wrap e), s)

@[simp] theorem exec_pure (a : α) (s : Store) :
    (pure a : StoreM ε α).exec s = (.ok a, s) := rfl

@[simp] theorem exec_throw (e : ε) (s : Store) :
    (throw e : StoreM ε α).exec s = (.error e, s) := rfl

@[simp] theorem exec_ofExcept (r : Except ε α) (s : Store) : (ofExcept r).exec s = (r, s) := rfl

@[simp] theorem exec_read (wrap : StoreError → ε) (access : Store → Except StoreError α)
    (s : Store) : (read wrap access).exec s = ((access s).mapError wrap, s) := rfl

@[simp] theorem exec_write (wrap : StoreError → ε) (access : Store → Except StoreError Store)
    (s : Store) :
    (write wrap access).exec s =
      match access s with
      | .ok s' => (.ok (), s')
      | .error e => (.error (wrap e), s) := rfl

theorem exec_bind (x : StoreM ε α) (f : α → StoreM ε β) (s : Store) :
    (x >>= f).exec s =
      match x.exec s with
      | (.ok a, s') => (f a).exec s'
      | (.error e, s') => (.error e, s') := by
  change (StateT.run (ExceptT.run x >>= ExceptT.bindCont f) s) = _
  rw [StateT.run_bind]
  change (match StateT.run (ExceptT.run x) s with
    | (r, s') => StateT.run (ExceptT.bindCont f r) s') = _
  rw [exec]
  rcases StateT.run (ExceptT.run x) s with ⟨_ | _, s'⟩ <;> rfl

variable {wrap : StoreError → ε} {f : α → StoreM ε β} {s s' : Store}

theorem exec_read_bind_eq_ok {access : Store → Except StoreError α} {r : β}
    (h : (read wrap access >>= f).exec s = (.ok r, s')) :
    ∃ a, access s = .ok a ∧ (f a).exec s = (.ok r, s') := by
  rw [exec_bind, exec_read] at h
  cases hacc : access s with
  | error e => simp [hacc, Except.mapError] at h
  | ok a => exact ⟨a, rfl, by simpa [hacc, Except.mapError] using h⟩

theorem exec_ofExcept_bind_eq_ok {x : Except ε α} {r : β}
    (h : (ofExcept x >>= f).exec s = (.ok r, s')) :
    ∃ a, x = .ok a ∧ (f a).exec s = (.ok r, s') := by
  rw [exec_bind, exec_ofExcept] at h
  cases x with
  | error e => cases h
  | ok a => exact ⟨a, rfl, h⟩

theorem exec_write_bind_eq_ok {access : Store → Except StoreError Store} {f : Unit → StoreM ε β}
    {r : β} (h : (write wrap access >>= f).exec s = (.ok r, s')) :
    ∃ s₁, access s = .ok s₁ ∧ (f ()).exec s₁ = (.ok r, s') := by
  rw [exec_bind, exec_write] at h
  cases hacc : access s with
  | error e => simp [hacc] at h
  | ok s₁ => exact ⟨s₁, rfl, by simpa [hacc] using h⟩

theorem exec_read_bind {access : Store → Except StoreError α} {a : α} (h : access s = .ok a) :
    (read wrap access >>= f).exec s = (f a).exec s := by
  rw [exec_bind, exec_read, h]
  rfl

theorem exec_ofExcept_bind {x : Except ε α} {a : α} (h : x = .ok a) :
    (ofExcept x >>= f).exec s = (f a).exec s := by
  rw [exec_bind, exec_ofExcept, h]

theorem exec_write_bind {access : Store → Except StoreError Store} {f : Unit → StoreM ε β}
    {s₁ : Store} (h : access s = .ok s₁) :
    (write wrap access >>= f).exec s = (f ()).exec s₁ := by
  rw [exec_bind, exec_write, h]

/-! ## Code that only reads, and code that fails without a trace -/

/-- The store is the same afterwards, whatever the result. -/
def ReadOnly (x : StoreM ε α) : Prop := ∀ s, (x.exec s).2 = s

/-- A failure leaves the store as it was. -/
def FailsClean (x : StoreM ε α) : Prop := ∀ s e s', x.exec s = (.error e, s') → s' = s

theorem readOnly_pure (a : α) : ReadOnly (pure a : StoreM ε α) := fun _ => rfl

theorem readOnly_throw (e : ε) : ReadOnly (throw e : StoreM ε α) := fun _ => rfl

theorem readOnly_ofExcept (r : Except ε α) : ReadOnly (ofExcept r) := fun _ => rfl

theorem readOnly_read (wrap : StoreError → ε) (access : Store → Except StoreError α) :
    ReadOnly (read wrap access) := fun _ => rfl

variable {x : StoreM ε α}

theorem ReadOnly.bind (hx : ReadOnly x) (hf : ∀ a, ReadOnly (f a)) : ReadOnly (x >>= f) := by
  intro s
  have hs := hx s
  rw [exec_bind]
  rcases hrun : x.exec s with ⟨_ | a, s₁⟩
  · rw [hrun] at hs
    exact hs
  · rw [hrun] at hs
    exact (hf a s₁).trans hs

theorem ReadOnly.failsClean (hx : ReadOnly x) : FailsClean x := by
  intro s e s' h
  have hs := hx s
  rw [h] at hs
  exact hs

theorem failsClean_write (wrap : StoreError → ε) (access : Store → Except StoreError Store) :
    FailsClean (write wrap access) := by
  intro s e s' h
  rw [exec_write] at h
  split at h
  · cases h
  · cases h
    rfl

/-- Reading first does not spoil a clean failure later. -/
theorem FailsClean.bind_read (hx : ReadOnly x) (hf : ∀ a, FailsClean (f a)) :
    FailsClean (x >>= f) := by
  intro s e s' h
  have hs := hx s
  rw [exec_bind] at h
  rcases hrun : x.exec s with ⟨e' | a, s₁⟩
  · rw [hrun] at h hs
    cases h
    exact hs
  · rw [hrun] at h hs
    exact (hf a s₁ e s' h).trans hs

/-- What cannot fail may follow a write. -/
theorem FailsClean.bind_pure (hx : FailsClean x) (f : α → β) :
    FailsClean (x >>= fun a => (pure (f a) : StoreM ε β)) := by
  intro s e s' h
  rw [exec_bind] at h
  rcases hrun : x.exec s with ⟨e' | a, s₁⟩
  · rw [hrun] at h
    cases h
    exact hx s _ _ hrun
  · rw [hrun] at h
    cases h

end StoreM

theorem bind_eq_ok {ε α β : Type} {x : Except ε α} {f : α → Except ε β} {r : β}
    (h : (x >>= f) = .ok r) : ∃ a, x = .ok a ∧ f a = .ok r := by
  cases x with
  | error e => cases h
  | ok a => exact ⟨a, rfl, h⟩

end Numax
