import Mathlib.Data.List.DropRight
import Mathlib.Data.List.Nodup
import Mathlib.Data.List.Perm.Subperm

/-!
# Sliding windows

A bounded history keeps the last `n` items of everything appended to it:
`List.rtake`. The lemmas here say how a window moves when items are appended,
and that cutting a window early or late makes no difference
(`rtake_append_rtake`).
-/

namespace Base

variable {α : Type}

theorem length_rtake (l : List α) (n : Nat) : (l.rtake n).length = min n l.length := by
  rw [List.rtake, List.length_drop]
  omega

variable {l : List α} {n : Nat}

theorem rtake_of_length_le (h : l.length ≤ n) : l.rtake n = l := by
  rw [List.rtake, Nat.sub_eq_zero_of_le h, List.drop_zero]

theorem rtake_suffix (l : List α) (n : Nat) : l.rtake n <:+ l := List.drop_suffix _ _

/-- Appending to a window and cutting again is cutting the whole history. -/
theorem rtake_append_rtake (l m : List α) (n : Nat) :
    (l.rtake n ++ m).rtake n = (l ++ m).rtake n := by
  simp only [List.rtake, List.length_append, List.length_drop, List.drop_append]
  congr 1
  · rw [List.drop_drop]
    congr 1
    omega
  · congr 1
    omega

variable {m : List α}

/-- A window over appended items: a shorter window of the old ones and all new ones. -/
theorem rtake_append_of_length_le (h : m.length ≤ n) :
    (l ++ m).rtake n = l.rtake (n - m.length) ++ m := by
  simp only [List.rtake, List.length_append, List.drop_append]
  congr 1
  · congr 1
    omega
  · rw [show l.length + m.length - n - l.length = 0 by omega, List.drop_zero]

/-- More new items than the window holds push out all the old ones. -/
theorem rtake_append_of_le_length (h : n ≤ m.length) :
    (l ++ m).rtake n = m.rtake n := by
  simp only [List.rtake, List.length_append, List.drop_append]
  rw [List.drop_of_length_le (by omega), List.nil_append]
  congr 1
  omega

/-- A smaller window is a suffix of a larger one. -/
theorem rtake_rtake_of_le {m : Nat} (h : m ≤ n) :
    (l.rtake n).rtake m = l.rtake m := by
  simp only [List.rtake, List.length_drop, List.drop_drop]
  congr 1
  omega

/-- Dropping what the new items push out, before they are appended. -/
theorem rtake_drop_append (l m : List α) (n : Nat) :
    (l.drop (l.length + m.length - n) ++ m).rtake n = (l ++ m).rtake n := by
  rcases Nat.le_total m.length n with h | h
  · have hlen : (l.drop (l.length + m.length - n) ++ m).length ≤ n := by
      rw [List.length_append, List.length_drop]
      omega
    rw [rtake_of_length_le hlen, rtake_append_of_length_le h, List.rtake]
    congr 2
    omega
  · rw [rtake_append_of_le_length h, rtake_append_of_le_length h]

/-- In a list with distinct keys, what remains after a cut has no key of the cut. -/
theorem mem_drop_iff {κ : Type} {key : α → κ} {l : List α} (h : (l.map key).Nodup) (n : Nat)
    (a : α) : a ∈ l.drop n ↔ a ∈ l ∧ key a ∉ (l.take n).map key := by
  have hsplit := List.take_append_drop n l
  rw [← hsplit, List.map_append] at h
  constructor
  · intro ha
    refine ⟨List.mem_of_mem_drop ha, fun hmem => ?_⟩
    exact (List.nodup_append.mp h).2.2 _ hmem _ (List.mem_map_of_mem ha) rfl
  · rintro ⟨ha, hnot⟩
    rw [← hsplit, List.mem_append] at ha
    exact ha.resolve_left fun hmem => hnot (List.mem_map_of_mem hmem)

theorem mem_rtake_iff {κ : Type} {key : α → κ} (h : (l.map key).Nodup) (n : Nat) (a : α) :
    a ∈ l.rtake n ↔ a ∈ l ∧ key a ∉ (l.map key).take (l.length - n) := by
  rw [List.rtake, mem_drop_iff h, List.map_take]

/-- Deleting from a window what new items push out of it, without deleting from
the new items, gives the new window exactly if the new items fit into it. -/
theorem evicted_eq_rtake_iff (hnodup : (l ++ m).Nodup) :
    (∀ a, (a ∈ l ∨ a ∈ m) ∧ a ∉ l.take (l.length + m.length - n) ↔ a ∈ (l ++ m).rtake n) ↔
      m.length ≤ n := by
  obtain ⟨hl, -, hapart⟩ := List.nodup_append.mp hnodup
  have hkept : ∀ a, (a ∈ l ∨ a ∈ m) ∧ a ∉ l.take (l.length + m.length - n) ↔
      a ∈ l.drop (l.length + m.length - n) ++ m := by
    intro a
    have hdrop := @mem_drop_iff α α id l (by simpa using hl) (l.length + m.length - n) a
    rw [List.map_id] at hdrop
    rw [List.mem_append, hdrop]
    constructor
    · rintro ⟨ha | ha, hnot⟩
      · exact .inl ⟨ha, hnot⟩
      · exact .inr ha
    · rintro (⟨ha, hnot⟩ | ha)
      · exact ⟨.inl ha, hnot⟩
      · exact ⟨.inr ha, fun hmem => hapart a (List.mem_of_mem_take hmem) a ha rfl⟩
  simp only [hkept]
  rw [← rtake_drop_append]
  have hsub : (l.drop (l.length + m.length - n) ++ m).Nodup :=
    ((List.drop_sublist _ _).append_right m).nodup hnodup
  constructor
  · intro h
    have hlen := (hsub.subperm fun a ha => (h a).mp ha).length_le
    rw [length_rtake, List.length_append] at hlen
    omega
  · intro h a
    rw [rtake_of_length_le]
    rw [List.length_append, List.length_drop]
    omega

theorem map_rtake {β : Type} (f : α → β) (l : List α) (n : Nat) :
    (l.rtake n).map f = (l.map f).rtake n := by
  rw [List.rtake, List.rtake, List.map_drop, List.length_map]

/-- The window over numbered items. -/
theorem map_fst_rtake_zipIdx (l : List α) (n : Nat) :
    (l.zipIdx.rtake n).map Prod.fst = l.rtake n := by
  rw [List.rtake, List.rtake, List.map_drop, List.zipIdx_map_fst, List.length_zipIdx]

theorem zipIdx_append_rtake (l m : List α) (n : Nat) :
    (l ++ m).zipIdx.rtake n = (l.zipIdx.rtake n ++ m.zipIdx l.length).rtake n := by
  rw [List.zipIdx_append, rtake_append_rtake, Nat.zero_add]

theorem zipIdx_pairwise (l : List α) (n : Nat) : (l.zipIdx n).Pairwise fun a b => a.2 < b.2 := by
  rw [← List.pairwise_map, List.zipIdx_map_snd]
  exact List.pairwise_lt_range'

end Base
