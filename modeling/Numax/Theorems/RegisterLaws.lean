import Numax.Sync.Lww

/-!
# Merge laws of the register

A register's order compares timestamp and writer only, and a candidate that
ties with the current register does not replace it. Merging is therefore
associative and idempotent, but commutative only where registers with the same
timestamp and writer are equal, and a list of writes can be reordered only if
the greatest of them agree on their value. A map entry breaks such ties by its
content and has no such exception (`LwwMap.applyEntry_right_comm`).
-/

open Base Std

namespace Numax

namespace LwwRegister

/-- Assign a list of writes from left to right; a write is the register it proposes. -/
def assignAll (r : LwwRegister) (writes : List LwwRegister) : LwwRegister :=
  writes.foldl (fun r w => (r.assign w.value w.timestampMs w.writer).1) r

theorem assignAll_eq (r : LwwRegister) (writes : List LwwRegister) :
    r.assignAll writes = writes.foldl (pick stampCmp) r := by
  have hstep : (fun (r w : LwwRegister) => (r.assign w.value w.timestampMs w.writer).1) =
      pick stampCmp := by
    funext r w
    exact merge_fst r w
  rw [assignAll, hstep]

theorem mergedWith_eq (a b : LwwRegister) : a.mergedWith b = pick stampCmp a b := merge_fst a b

theorem stampCmp_eq_iff (a b : LwwRegister) :
    stampCmp a b = .eq ↔ a.timestampMs = b.timestampMs ∧ a.writer = b.writer := by
  simp only [stampCmp, compareLex, compareOn, Ordering.then_eq_eq, Std.compare_eq_iff_eq]

/-- Registers with one timestamp and writer are equal. -/
def TieEqual (a b : LwwRegister) : Prop :=
  a.timestampMs = b.timestampMs → a.writer = b.writer → a.value = b.value

theorem tieEqual_iff (a b : LwwRegister) : TieEqual a b ↔ (stampCmp a b = .eq → a = b) := by
  rw [stampCmp_eq_iff]
  constructor
  · intro h htie
    have hvalue := h htie.1 htie.2
    cases a
    cases b
    simp_all
  · intro h ht hw
    rw [h ⟨ht, hw⟩]

/-- `b` is not before `a` in the order of timestamp, then writer. -/
def NotBefore (a b : LwwRegister) : Prop :=
  a.timestampMs < b.timestampMs ∨ (a.timestampMs = b.timestampMs ∧ a.writer ≤ b.writer)

/-- Two writes that are last of all and beat the register are one. -/
def LastWritesAgree (r : LwwRegister) (writes : List LwwRegister) : Prop :=
  ∀ c ∈ writes, ∀ d ∈ writes, candidateWins c r = true →
    (∀ w ∈ writes, NotBefore w c) → (∀ w ∈ writes, NotBefore w d) → c = d

theorem notBefore_iff (a b : LwwRegister) : NotBefore a b ↔ (stampCmp a b).isLE = true := by
  have hwins := candidateWins_iff a b
  have hswap : stampCmp a b = (stampCmp b a).swap := OrientedCmp.eq_swap
  have hle : (stampCmp a b).isLE = true ↔ ¬ stampCmp b a = .lt := by
    rw [hswap]
    cases stampCmp b a <;> simp
  rw [hle, ← hwins, NotBefore]
  simp only [candidateWins, Bool.or_eq_true, Bool.and_eq_true, decide_eq_true_eq, beq_iff_eq,
    gt_iff_lt, not_or, not_and]
  constructor
  · rintro (hlt | ⟨heq, hwriter⟩)
    · refine ⟨UInt64.not_lt.mpr (UInt64.le_of_lt hlt), fun heq => ?_⟩
      rw [heq] at hlt
      exact absurd hlt (UInt64.lt_irrefl _)
    · rw [heq]
      exact ⟨UInt64.lt_irrefl _, fun _ => String.not_lt.mpr hwriter⟩
  · rintro ⟨hnot, hwriter⟩
    rcases UInt64.lt_or_eq_of_le (UInt64.not_lt.mp hnot) with hlt | heq
    · exact .inl hlt
    · exact .inr ⟨heq, String.not_lt.mp (hwriter heq)⟩

theorem lastWritesAgree_iff (r : LwwRegister) (writes : List LwwRegister) :
    LastWritesAgree r writes ↔ TopAgree stampCmp r writes := by
  simp only [LastWritesAgree, TopAgree, candidateWins_iff, notBefore_iff]

/-- Merging is associative and idempotent; it is commutative exactly on
registers that a tie makes equal, and writes can be reordered exactly if the
last of them agree. -/
theorem merge_laws_iff (a b c r : LwwRegister) (writes : List LwwRegister) :
    ((a.mergedWith b = b.mergedWith a ∧
        (a.mergedWith b).mergedWith c = a.mergedWith (b.mergedWith c) ∧ a.mergedWith a = a) ↔
      TieEqual a b) ∧
    ((∀ writes' : List LwwRegister, writes'.Perm writes →
        r.assignAll writes' = r.assignAll writes) ↔
      LastWritesAgree r writes) := by
  simp only [mergedWith_eq, assignAll_eq]
  constructor
  · rw [tieEqual_iff, ← pick_comm_iff]
    exact ⟨fun h => h.1, fun h => ⟨h, pick_assoc stampCmp a b c, pick_self stampCmp a⟩⟩
  · rw [lastWritesAgree_iff]
    exact foldl_pick_perm_iff stampCmp r writes

/-- Two writes of one node at one millisecond: each order keeps its first. -/
theorem tiedWrites_not_commutative :
    (LwwRegister.mk [1] 5 "node-a").mergedWith ⟨[2], 5, "node-a"⟩ ≠
        (LwwRegister.mk [2] 5 "node-a").mergedWith ⟨[1], 5, "node-a"⟩ ∧
      (LwwRegister.mk [] 0 "node-b").assignAll [⟨[1], 5, "node-a"⟩, ⟨[2], 5, "node-a"⟩] ≠
        (LwwRegister.mk [] 0 "node-b").assignAll [⟨[2], 5, "node-a"⟩, ⟨[1], 5, "node-a"⟩] := by
  decide +kernel

end LwwRegister

end Numax
