import Numax.Base.Machine

/-!
# Delays that double up to a cap

The delay after `k` failures in a row, in closed form, and the step of the code that
computes it: double with saturation, then cut at the cap. Durations are nanoseconds.
-/

namespace Base

/-- `Duration::MAX`. -/
def durationMax : Nat := u64Max * 1000000000 + 999999999

/-- `Duration::saturating_mul(2)`. -/
def saturatingDouble (delay : Nat) : Nat := min (delay * 2) durationMax

/-- The delay after `k` doublings. -/
def backoff (initial cap k : Nat) : Nat := min (initial * 2 ^ k) cap

variable {initial cap : Nat}

theorem backoff_zero (h : initial ≤ cap) : backoff initial cap 0 = initial := by
  rw [backoff, pow_zero, mul_one, min_eq_left h]

theorem backoff_le (initial cap k : Nat) : backoff initial cap k ≤ cap := min_le_right _ _

theorem backoff_pos (hinitial : 0 < initial) (hcap : 0 < cap) (k : Nat) :
    0 < backoff initial cap k :=
  lt_min (Nat.mul_pos hinitial (Nat.two_pow_pos k)) hcap

theorem backoff_mono (initial cap : Nat) {k l : Nat} (h : k ≤ l) :
    backoff initial cap k ≤ backoff initial cap l :=
  min_le_min_right cap (Nat.mul_le_mul_left initial (Nat.pow_le_pow_right Nat.two_pos h))

/-- The saturation is never seen below a cap that is a duration. -/
theorem saturatingDouble_backoff (hcap : cap ≤ durationMax) (k : Nat) :
    min (saturatingDouble (backoff initial cap k)) cap = backoff initial cap (k + 1) := by
  have hpow : initial * 2 ^ (k + 1) = initial * 2 ^ k * 2 := by rw [pow_succ, mul_assoc]
  rw [saturatingDouble, backoff, backoff, hpow]
  omega

/-- Nor does saturating the closed form change it. -/
theorem backoff_eq_saturated (hcap : cap ≤ durationMax) (k : Nat) :
    backoff initial cap k = min (min (initial * 2 ^ k) durationMax) cap := by
  rw [backoff]
  omega

end Base
