import Mathlib

/-!
# Fixed-width arithmetic

The machine operations of the modelled code that differ from arithmetic on
`Nat` and `Int`:

* **`satAdd`** — `u64::saturating_add`, with its algebra: commutative,
  associative, and exact below the maximum;
* **`clampI64`** — the clamp of a wide integer into the `i64` range;
* **`asI32`** — the truncating cast `as i32` of a length;
* **`checkedAdd`** — `Instant::checked_add` on a clock that ends.
-/

namespace Base

/-- `u64::MAX`. -/
def u64Max : Nat := 2 ^ 64 - 1

/-- `u64::saturating_add`. -/
def satAdd (a b : UInt64) : UInt64 := UInt64.ofNat (min (a.toNat + b.toNat) u64Max)

theorem satAdd_toNat (a b : UInt64) :
    (satAdd a b).toNat = min (a.toNat + b.toNat) u64Max := by
  have hlt : min (a.toNat + b.toNat) u64Max < 2 ^ 64 := by unfold u64Max; omega
  rw [satAdd, UInt64.toNat_ofNat', Nat.mod_eq_of_lt hlt]

theorem toNat_max (a b : UInt64) : (max a b).toNat = max a.toNat b.toNat := by
  change (if a ≤ b then b else a : UInt64).toNat = _
  split
  · next h => rw [max_eq_right (UInt64.le_iff_toNat_le.mp h)]
  · next h => rw [UInt64.le_iff_toNat_le, Nat.not_le] at h; rw [max_eq_left (Nat.le_of_lt h)]

theorem satAdd_comm (a b : UInt64) : satAdd a b = satAdd b a := by
  simp only [satAdd, Nat.add_comm]

/-- Saturation is absorbing, so the grouping of saturating sums is irrelevant. -/
theorem satAdd_assoc (a b c : UInt64) : satAdd (satAdd a b) c = satAdd a (satAdd b c) := by
  apply UInt64.toNat_inj.mp
  simp only [satAdd_toNat]
  omega

/-- Two increments of one slot commute. -/
theorem satAdd_right_comm (a b c : UInt64) :
    satAdd (satAdd a b) c = satAdd (satAdd a c) b := by
  rw [satAdd_assoc, satAdd_comm b c, ← satAdd_assoc]

/-- Below the maximum the successor is strictly larger. -/
theorem lt_satAdd_one {a : UInt64} (h : a.toNat < u64Max) : a < satAdd a 1 := by
  rw [UInt64.lt_iff_toNat_lt, satAdd_toNat]
  have hone : (1 : UInt64).toNat = 1 := rfl
  omega

/-- `<` and `compare` of `u64` agree. -/
theorem compare_u64_lt {a b : UInt64} : compare a b = .lt ↔ a < b := by
  change compareOfLessAndEq a b = .lt ↔ a < b
  unfold compareOfLessAndEq
  split
  · simp [*]
  · split <;> simp [*]

/-- The clamp of an integer into the range of `i64`. -/
def clampI64 (n : Int) : Int := max (-(2 ^ 63)) (min n (2 ^ 63 - 1))

/-- `as i32` on a length: the low 32 bits, read as two's complement. -/
def asI32 (n : Nat) : Int := Int.bmod n (2 ^ 32)

theorem asI32_of_lt {n : Nat} (h : n < 2 ^ 31) : asI32 n = n := by
  unfold asI32
  rw [Int.bmod_eq_of_le] <;> omega

/-- A deadline, on a clock whose last instant is `latest`. -/
def checkedAdd (latest now duration : Nat) : Option Nat :=
  if now + duration ≤ latest then some (now + duration) else none

end Base
