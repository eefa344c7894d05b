import Numax.Base.Backoff

/-!
# Durations, instants and ticks

A `Duration` has its seconds in 64 bits and the nanoseconds below a second in 32. Every
operation works on the two parts, as the standard library's does, and has one lemma that
says what it does to the length in nanoseconds. An operation that can panic returns what it
panics with, in the library's words.

An `Instant` is counted in nanoseconds from the first instant its clock can represent. Two
instants of one clock are never further apart than the longest duration.

The ticks of a cadence are the instants a whole number of steps after its start.
-/

namespace Base

inductive Panic where
  | divideByZero
  | expectFailed (message : String)
deriving DecidableEq, Repr

/-- `%` on unsigned integers. -/
def rem (a b : Nat) : Except Panic Nat :=
  if b = 0 then .error .divideByZero else .ok (a % b)

theorem rem_of_pos {a b : Nat} (h : 0 < b) : rem a b = .ok (a % b) := if_neg h.ne'

/-! ## Durations -/

structure Duration where
  secs : UInt64
  nanos : UInt32
  nanos_lt : nanos.toNat < 1000000000
deriving DecidableEq, Repr

variable {n : Nat}

namespace Duration

/-- The length in nanoseconds. -/
def toNanos (d : Duration) : Nat := 1000000000 * d.secs.toNat + d.nanos.toNat

theorem durationMax_eq : durationMax = 18446744073709551615 * 1000000000 + 999999999 := rfl

theorem toNanos_le (d : Duration) : d.toNanos ≤ durationMax := by
  have hsecs := d.secs.toNat_lt
  have hnanos := d.nanos_lt
  rw [toNanos, durationMax_eq]
  omega

variable {d e : Duration}

theorem toNanos_inj (h : d.toNanos = e.toNanos) : d = e := by
  obtain ⟨secs, nanos, hd⟩ := d
  obtain ⟨secs', nanos', he⟩ := e
  simp only [toNanos] at h
  have hsecs : secs = secs' := UInt64.toNat_inj.mp (by omega)
  have hnanos : nanos = nanos' := UInt32.toNat_inj.mp (by omega)
  subst hsecs hnanos
  rfl

/-- The cast to 64 bits keeps the seconds of a representable length. -/
theorem toNat_ofNat_secs (h : n ≤ durationMax) :
    (UInt64.ofNat (n / 1000000000)).toNat = n / 1000000000 := by
  rw [durationMax_eq] at h
  rw [UInt64.toNat_ofNat']
  omega

/-- The cast to 32 bits keeps the nanoseconds below a second. -/
theorem toNat_ofNat_nanos (n : Nat) :
    (UInt32.ofNat (n % 1000000000)).toNat = n % 1000000000 := by
  rw [UInt32.toNat_ofNat']
  omega

theorem ofNanos_lt (n : Nat) : (UInt32.ofNat (n % 1000000000)).toNat < 1000000000 := by
  rw [toNat_ofNat_nanos]
  exact Nat.mod_lt n (by decide)

/-- The duration of `n` nanoseconds, if there is one so long. -/
def ofNanos (n : Nat) : Duration :=
  ⟨UInt64.ofNat (n / 1000000000), UInt32.ofNat (n % 1000000000), ofNanos_lt n⟩

theorem toNanos_ofNanos (h : n ≤ durationMax) : (ofNanos n).toNanos = n := by
  rw [toNanos, ofNanos, toNat_ofNat_secs h, toNat_ofNat_nanos]
  exact Nat.div_add_mod n 1000000000

/-- A duration is known by its length. -/
theorem eq_ofNanos (h : d.toNanos = n) : d = ofNanos n := by
  apply toNanos_inj
  rw [toNanos_ofNanos (h ▸ d.toNanos_le), h]

/-- `as_nanos`, in 128 bits. -/
def asNanos (d : Duration) : Nat :=
  (1000000000 * d.secs.toNat % 2 ^ 128 + d.nanos.toNat) % 2 ^ 128

@[simp] theorem asNanos_eq (d : Duration) : d.asNanos = d.toNanos := by
  have hsecs := d.secs.toNat_lt
  have hnanos := d.nanos_lt
  simp only [asNanos, toNanos]
  omega

theorem carry_lt (nanos : UInt32) : (nanos % 1000000000).toNat < 1000000000 := by
  rw [UInt32.toNat_mod]
  exact Nat.mod_lt _ (by decide)

/-- `Duration::new`: whole seconds among the nanoseconds are carried. -/
def new (secs : UInt64) (nanos : UInt32) : Except Panic Duration :=
  if h : nanos.toNat < 1000000000 then .ok ⟨secs, nanos, h⟩
  else if secs.toNat + nanos.toNat / 1000000000 ≤ u64Max then
    .ok ⟨secs + (nanos / 1000000000).toUInt64, nanos % 1000000000, carry_lt nanos⟩
  else .error (.expectFailed "overflow in Duration::new")

theorem new_of_lt {secs : UInt64} {nanos : UInt32} (h : nanos.toNat < 1000000000)
    (hn : 1000000000 * secs.toNat + nanos.toNat = n) : new secs nanos = .ok (ofNanos n) := by
  rw [new, dif_pos h]
  exact congrArg _ (eq_ofNanos hn)

/-- Seconds and nanoseconds as they come out of a division are the parts of a duration. -/
theorem new_div_mod (n : Nat) :
    new (UInt64.ofNat (n / 1000000000)) (UInt32.ofNat (n % 1000000000)) = .ok (ofNanos n) :=
  dif_pos (ofNanos_lt n)

/-- The nanoseconds below a second of a number of milliseconds. -/
theorem subsecMillis_toNat (millis : UInt64) :
    ((millis % 1000).toUInt32 * 1000000).toNat = millis.toNat % 1000 * 1000000 := by
  rw [UInt32.toNat_mul, UInt64.toNat_toUInt32, UInt64.toNat_mod]
  have hthousand : (1000 : UInt64).toNat = 1000 := rfl
  have hmillion : (1000000 : UInt32).toNat = 1000000 := rfl
  have hlt : millis.toNat % 1000 < 1000 := Nat.mod_lt _ (by decide)
  rw [hthousand, hmillion]
  omega

theorem subsecMillis_lt (millis : UInt64) :
    ((millis % 1000).toUInt32 * 1000000).toNat < 1000000000 := by
  have hlt : millis.toNat % 1000 < 1000 := Nat.mod_lt _ (by decide)
  rw [subsecMillis_toNat]
  omega

def fromMillis (millis : UInt64) : Duration :=
  ⟨millis / 1000, (millis % 1000).toUInt32 * 1000000, subsecMillis_lt millis⟩

theorem toNanos_fromMillis (millis : UInt64) :
    (fromMillis millis).toNanos = millis.toNat * 1000000 := by
  have hthousand : (1000 : UInt64).toNat = 1000 := rfl
  rw [toNanos, fromMillis, subsecMillis_toNat, UInt64.toNat_div, hthousand]
  omega

/-- The derived order: seconds first. -/
instance : LT Duration := ⟨fun d e => d.secs < e.secs ∨ d.secs = e.secs ∧ d.nanos < e.nanos⟩

instance (d e : Duration) : Decidable (d < e) :=
  inferInstanceAs (Decidable (d.secs < e.secs ∨ d.secs = e.secs ∧ d.nanos < e.nanos))

theorem lt_iff : d < e ↔ d.toNanos < e.toNanos := by
  have hd := d.nanos_lt
  have he := e.nanos_lt
  change d.secs < e.secs ∨ d.secs = e.secs ∧ d.nanos < e.nanos ↔ _
  rw [UInt64.lt_iff_toNat_lt, UInt32.lt_iff_toNat_lt, ← UInt64.toNat_inj, toNanos, toNanos]
  omega

protected def max (d e : Duration) : Duration := if e < d then d else e

theorem toNanos_max (d e : Duration) : (d.max e).toNanos = max d.toNanos e.toNanos := by
  simp only [Duration.max, lt_iff]
  split <;> omega

/-- `checked_sub`, with a second borrowed where the nanoseconds do not suffice. -/
def checkedSub (d e : Duration) : Except Panic (Option Duration) :=
  if d.secs < e.secs then .ok none
  else if e.nanos ≤ d.nanos then (new (d.secs - e.secs) (d.nanos - e.nanos)).map some
  else if d.secs - e.secs < 1 then .ok none
  else (new (d.secs - e.secs - 1) (d.nanos + 1000000000 - e.nanos)).map some

protected def sub (d e : Duration) : Except Panic Duration := do
  match ← checkedSub d e with
  | some difference => return difference
  | none => throw (.expectFailed "overflow when subtracting durations")

theorem checkedSub_of_le (h : e.toNanos ≤ d.toNanos) :
    checkedSub d e = .ok (some (ofNanos (d.toNanos - e.toNanos))) := by
  have hd := d.nanos_lt
  have he := e.nanos_lt
  simp only [toNanos] at h ⊢
  have hsecs : e.secs ≤ d.secs := UInt64.le_iff_toNat_le.mpr (by omega)
  have hdiff := UInt64.toNat_sub_of_le _ _ hsecs
  rw [checkedSub, if_neg (UInt64.not_lt.mpr hsecs)]
  by_cases hnanos : e.nanos ≤ d.nanos
  · have hbelow := UInt32.toNat_sub_of_le _ _ hnanos
    rw [if_pos hnanos]
    rw [UInt32.le_iff_toNat_le] at hnanos
    exact congrArg (Except.map some) (new_of_lt (by omega) (by omega))
  · rw [if_neg hnanos]
    rw [UInt32.le_iff_toNat_le] at hnanos
    -- the nanoseconds do not suffice, so there is a second to borrow
    have hone : (1 : UInt64) ≤ d.secs - e.secs := by
      rw [UInt64.le_iff_toNat_le, hdiff]
      change 1 ≤ _
      omega
    have hborrow : (d.secs - e.secs - 1).toNat = d.secs.toNat - e.secs.toNat - 1 := by
      rw [UInt64.toNat_sub_of_le _ _ hone, hdiff]
      rfl
    have hbelow : (d.nanos + 1000000000 - e.nanos).toNat =
        d.nanos.toNat + 1000000000 - e.nanos.toNat := by
      have hbillion : (1000000000 : UInt32).toNat = 1000000000 := rfl
      rw [UInt32.toNat_sub, UInt32.toNat_add, hbillion]
      omega
    rw [if_neg (UInt64.not_lt.mpr hone)]
    exact congrArg (Except.map some) (new_of_lt (by omega) (by omega))

theorem sub_of_le (h : e.toNanos ≤ d.toNanos) :
    d.sub e = .ok (ofNanos (d.toNanos - e.toNanos)) := by
  rw [Duration.sub, checkedSub_of_le h]
  rfl

theorem sub_ofNanos (h : n ≤ d.toNanos) :
    d.sub (ofNanos n) = .ok (ofNanos (d.toNanos - n)) := by
  have hn := toNanos_ofNanos (h.trans d.toNanos_le)
  rw [sub_of_le (by rwa [hn]), hn]

end Duration

/-! ## Instants -/

/-- A clock ends at `latest`. Its instants are at most the longest duration apart. -/
structure Clock where
  latest : Nat
  latest_le : latest ≤ durationMax

structure Instant (clock : Clock) where
  nanos : Nat
  le_latest : nanos ≤ clock.latest
deriving DecidableEq, Repr

/-- The instant `n` nanoseconds after the first one, if the clock has it. -/
def Clock.instant? (clock : Clock) (n : Nat) : Option (Instant clock) :=
  if h : n ≤ clock.latest then some ⟨n, h⟩ else none

namespace Instant

variable {clock : Clock}

def checkedAdd (i : Instant clock) (d : Duration) : Option (Instant clock) :=
  clock.instant? (i.nanos + d.toNanos)

/-- `duration_since`, which is zero where the other instant is the later one. -/
def durationSince (i earlier : Instant clock) : Duration :=
  Duration.ofNanos (i.nanos - earlier.nanos)

theorem toNanos_durationSince (i earlier : Instant clock) :
    (i.durationSince earlier).toNanos = i.nanos - earlier.nanos :=
  Duration.toNanos_ofNanos (((Nat.sub_le _ _).trans i.le_latest).trans clock.latest_le)

end Instant

theorem Clock.instant?_of_le {clock : Clock} (h : n ≤ clock.latest) :
    clock.instant? n = some ⟨n, h⟩ :=
  dif_pos h

theorem Clock.instant?_eq_none {clock : Clock} :
    clock.instant? n = none ↔ clock.latest < n := by
  simp [instant?]

theorem Clock.instant?_eq_some {clock : Clock} {i : Instant clock} :
    clock.instant? n = some i ↔ i.nanos = n := by
  constructor
  · intro h
    rw [instant?] at h
    split at h
    · cases h
      rfl
    · cases h
  · rintro rfl
    exact instant?_of_le i.le_latest

/-! ## Ticks -/

/-- A tick after `now` of the cadence with the first tick one step after `start`. -/
def IsTick (start step now t : Nat) : Prop := ∃ k, 1 ≤ k ∧ t = start + k * step ∧ now < t

/-- The end of the step that `now` lies in. -/
def nextTick (start step now : Nat) : Nat := now + (step - (now - start) % step)

variable {start step now : Nat}

theorem lt_nextTick (hstep : 0 < step) : now < nextTick start step now := by
  have hlt : (now - start) % step < step := Nat.mod_lt _ hstep
  rw [nextTick]
  omega

theorem nextTick_le : nextTick start step now ≤ now + step :=
  Nat.add_le_add_left (Nat.sub_le _ _) now

theorem nextTick_of_lt (h : start ≤ now) (hfirst : now < start + step) :
    nextTick start step now = start + step := by
  rw [nextTick, Nat.mod_eq_of_lt (by omega)]
  omega

theorem nextTick_eq (hstep : 0 < step) (h : start ≤ now) :
    nextTick start step now = start + ((now - start) / step + 1) * step := by
  have hlt : (now - start) % step < step := Nat.mod_lt _ hstep
  have hsplit : (now - start) / step * step + (now - start) % step = now - start :=
    Nat.div_add_mod' _ _
  rw [nextTick, Nat.add_mul, one_mul]
  omega

theorem isLeast_nextTick (hstep : 0 < step) (h : start ≤ now) :
    IsLeast {t | IsTick start step now t} (nextTick start step now) := by
  refine ⟨⟨_, Nat.le_add_left 1 _, nextTick_eq hstep h, lt_nextTick hstep⟩, ?_⟩
  rintro t ⟨k, -, rfl, hk⟩
  -- an earlier tick would lie within the whole steps up to `now`
  have hindex : (now - start) / step < k := by
    rw [Nat.div_lt_iff_lt_mul hstep]
    omega
  rw [nextTick_eq hstep h]
  exact Nat.add_le_add_left (Nat.mul_le_mul_right step hindex) start

/-- A cadence may be taken up again at any of its ticks that has passed. -/
theorem isTick_add_mul {k t : Nat} (h : start + k * step ≤ now) :
    IsTick (start + k * step) step now t ↔ IsTick start step now t := by
  constructor
  · rintro ⟨j, hj, rfl, hlt⟩
    exact ⟨k + j, by omega, by rw [Nat.add_mul, Nat.add_assoc], hlt⟩
  · rintro ⟨j, -, rfl, hlt⟩
    have hpast : k * step < j * step := by omega
    have hkj : k < j := Nat.lt_of_mul_lt_mul_right hpast
    refine ⟨j - k, by omega, ?_, hlt⟩
    rw [Nat.add_assoc, ← Nat.add_mul, Nat.add_sub_cancel' hkj.le]

end Base
