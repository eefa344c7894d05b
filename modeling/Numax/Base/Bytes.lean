import Mathlib

/-!
# Byte strings

Byte vectors, their bridge to UTF-8 text, fixed-width integer encodings and
the lexicographic byte order. Everything here is about lists of bytes only:

* **text** — `asBytes` and `fromUtf8` are the two directions between a string
  and its UTF-8 bytes; each inverts the other where it is defined;
* **integers** — `leBytes k n` writes `n` in `k` little-endian bytes and
  `ofLe` reads any byte list back; the big-endian forms are the reversals;
* **order** — `compare` on byte lists is lexicographic, and the lists that
  share a prefix form an interval of that order (`prefix_interval`).
-/

namespace Base

/-- A byte vector. -/
abbrev Bytes := List UInt8

/-! ## Text -/

/-- The UTF-8 bytes of a string. -/
def asBytes (s : String) : Bytes := s.toByteArray.data.toList

/-- Validate and take over UTF-8 bytes. -/
def fromUtf8 (b : Bytes) : Option String := String.fromUTF8? ⟨b.toArray⟩

@[simp] theorem fromUtf8_asBytes (s : String) : fromUtf8 (asBytes s) = some s := by
  unfold fromUtf8 asBytes String.fromUTF8?
  rw [Array.toArray_toList, dif_pos s.isValidUTF8]
  rfl

variable {b : Bytes}

theorem asBytes_of_fromUtf8 {s : String} (h : fromUtf8 b = some s) :
    asBytes s = b := by
  unfold fromUtf8 String.fromUTF8? at h
  split at h
  · rw [Option.some.injEq] at h
    subst h
    simp [asBytes, String.fromUTF8]
  · cases h

theorem asBytes_injective : Function.Injective asBytes := by
  intro s t h
  have hs := fromUtf8_asBytes s
  rw [h, fromUtf8_asBytes t] at hs
  exact (Option.some.inj hs).symm

@[simp] theorem asBytes_inj {s t : String} : asBytes s = asBytes t ↔ s = t :=
  asBytes_injective.eq_iff

theorem asBytes_append (s t : String) : asBytes (s ++ t) = asBytes s ++ asBytes t := by
  simp [asBytes, String.toByteArray_append, ByteArray.data_append]

/-! ## Fixed-width integers -/

/-- The `k` low bytes of `n`, least significant first. -/
def leBytes : Nat → Nat → Bytes
  | 0, _ => []
  | k + 1, n => UInt8.ofNat n :: leBytes k (n / 256)

/-- The number a little-endian byte list denotes. -/
def ofLe : Bytes → Nat
  | [] => 0
  | b :: rest => b.toNat + 256 * ofLe rest

/-- The `k` low bytes of `n`, most significant first. -/
def beBytes (k n : Nat) : Bytes := (leBytes k n).reverse

/-- The number a big-endian byte list denotes. -/
def ofBe (b : Bytes) : Nat := ofLe b.reverse

@[simp] theorem length_leBytes (k n : Nat) : (leBytes k n).length = k := by
  induction k generalizing n with
  | zero => rfl
  | succ k ih => simp [leBytes, ih]

@[simp] theorem length_beBytes (k n : Nat) : (beBytes k n).length = k := by
  simp [beBytes]

theorem ofLe_leBytes (k n : Nat) : ofLe (leBytes k n) = n % 256 ^ k := by
  induction k generalizing n with
  | zero => simp [leBytes, ofLe, Nat.mod_one]
  | succ k ih =>
    simp only [leBytes, ofLe, ih, UInt8.toNat_ofNat']
    rw [show (2 : Nat) ^ 8 = 256 from rfl, pow_succ', Nat.mod_mul]

theorem ofLe_lt (b : Bytes) : ofLe b < 256 ^ b.length := by
  induction b with
  | nil => simp [ofLe]
  | cons x rest ih =>
    have hx : x.toNat < 256 := x.toNat_lt
    simp only [ofLe, List.length_cons, pow_succ']
    omega

theorem leBytes_ofLe (b : Bytes) : leBytes b.length (ofLe b) = b := by
  induction b with
  | nil => rfl
  | cons x rest ih =>
    have hx : x.toNat < 256 := x.toNat_lt
    have hdiv : (x.toNat + 256 * ofLe rest) / 256 = ofLe rest := by omega
    have hmod : UInt8.ofNat (x.toNat + 256 * ofLe rest) = x := by
      apply UInt8.toNat_inj.mp
      rw [UInt8.toNat_ofNat']
      omega
    simp only [List.length_cons, leBytes, ofLe, hdiv, hmod, ih]

theorem ofBe_beBytes (k n : Nat) : ofBe (beBytes k n) = n % 256 ^ k := by
  simp [ofBe, beBytes, ofLe_leBytes]

variable {k n : Nat}

theorem ofBe_beBytes_of_lt (h : n < 256 ^ k) : ofBe (beBytes k n) = n := by
  rw [ofBe_beBytes, Nat.mod_eq_of_lt h]

theorem ofBe_lt (b : Bytes) : ofBe b < 256 ^ b.length := by
  have h := ofLe_lt b.reverse
  rwa [List.length_reverse] at h

theorem beBytes_ofBe (h : b.length = k) : beBytes k (ofBe b) = b := by
  have hle := leBytes_ofLe b.reverse
  rw [List.length_reverse, h] at hle
  rw [beBytes, ofBe, hle, List.reverse_reverse]

/-! ## Slices -/

/-- The first `n` bytes; `none` where the slice would reach past the end. -/
def sliceTo (b : Bytes) (n : Nat) : Option Bytes := if n ≤ b.length then some (b.take n) else none

/-- The bytes from `n` on; `none` where the slice would start past the end. -/
def sliceFrom (b : Bytes) (n : Nat) : Option Bytes :=
  if n ≤ b.length then some (b.drop n) else none

theorem sliceTo_of_le (h : n ≤ b.length) : sliceTo b n = some (b.take n) :=
  if_pos h

theorem sliceFrom_of_le (h : n ≤ b.length) :
    sliceFrom b n = some (b.drop n) :=
  if_pos h

/-- A field that comes next is read, and what follows it comes next. -/
theorem read_field {field rest : Bytes} {i : Nat} (h : b.drop i = field ++ rest)
    (hk : field.length = k) : (b.drop i).take k = field ∧ b.drop (i + k) = rest := by
  rw [← List.drop_drop, h]
  exact ⟨List.take_left' hk, List.drop_left' hk⟩

theorem take_succ_drop {i : Nat} (h : i < b.length) (k : Nat) :
    (b.drop i).take (k + 1) = b[i] :: (b.drop (i + 1)).take k := by
  rw [List.drop_eq_getElem_cons h, List.take_succ_cons]

/-! ## The byte order -/

/-- The byte lists with a given prefix form an interval. -/
theorem prefix_interval {p a c : Bytes} (ha : p <+: a) (hab : (compare a b).isLE)
    (hbc : (compare b c).isLE) (hc : p <+: c) : p <+: b := by
  induction p generalizing a b c with
  | nil => exact List.nil_prefix
  | cons x p ih =>
    obtain ⟨ta, rfl⟩ := ha
    obtain ⟨tc, rfl⟩ := hc
    cases b with
    | nil => simp at hab
    | cons y b =>
      simp only [List.cons_append, List.compare_cons_cons] at hab hbc
      -- the heads squeeze `y` between `x` and `x`
      have hxy : compare x y = .eq := by
        cases h : compare x y with
        | eq => rfl
        | gt => simp [h] at hab
        | lt =>
          have hyx : compare y x = .gt := by
            rw [Std.OrientedOrd.eq_swap, h]; rfl
          simp [hyx] at hbc
      have hyx : compare y x = .eq := by
        rw [Std.OrientedOrd.eq_swap, hxy]; rfl
      simp only [hxy, hyx, Ordering.eq_then] at hab hbc
      have heq : x = y := Std.LawfulEqCmp.compare_eq_iff_eq.mp hxy
      rw [heq, List.cons_prefix_cons]
      exact ⟨rfl, ih (List.prefix_append p ta) hab hbc (List.prefix_append p tc)⟩

end Base
