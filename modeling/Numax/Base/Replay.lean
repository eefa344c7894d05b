import Mathlib.Data.List.Nodup
import Mathlib.Data.List.Perm.Basic
import Mathlib.Data.List.Perm.Lattice

/-!
# Replaying operations in different orders

Operations carry keys, and replicas apply subsets of one collection of
operations in orders of their own. If operations with different keys commute
and a key determines its operation (`Replayable`), two replicas that applied
the same keys, each once, are in the same state (`Replayable.foldl_eq`).
-/

namespace Base

variable {α κ σ : Type*} {key : α → κ} {apply : σ → α → σ}

/-- A collection of operations that may be replayed in any order. -/
structure Replayable (key : α → κ) (apply : σ → α → σ) (all : List α) : Prop where
  unique : ∀ x ∈ all, ∀ y ∈ all, key x = key y → x = y
  comm : ∀ x ∈ all, ∀ y ∈ all, key x ≠ key y → ∀ s, apply (apply s x) y = apply (apply s y) x

namespace Replayable

variable {all a b : List α}

/-- The order of replay does not matter. -/
theorem foldl_perm (h : Replayable key apply all) (ha : a ⊆ all) (hperm : a.Perm b) (s : σ) :
    a.foldl apply s = b.foldl apply s := by
  apply hperm.foldl_eq'
  intro x hx y hy z
  by_cases hkey : key x = key y
  · rw [h.unique x (ha hx) y (ha hy) hkey]
  · exact h.comm x (ha hx) y (ha hy) hkey z

/-- Lists with the same keys, each key once, hold the same operations. -/
theorem perm_of_keys (h : Replayable key apply all) (ha : a ⊆ all) (hb : b ⊆ all)
    (hnodupA : (a.map key).Nodup) (hnodupB : (b.map key).Nodup)
    (hsame : ∀ k, k ∈ a.map key ↔ k ∈ b.map key) : a.Perm b := by
  have hsub : ∀ {a b : List α}, a ⊆ all → b ⊆ all → (∀ k, k ∈ a.map key → k ∈ b.map key) →
      ∀ x ∈ a, x ∈ b := by
    intro a b ha hb hkeys x hx
    obtain ⟨y, hy, hkey⟩ := List.mem_map.mp (hkeys (key x) (List.mem_map_of_mem hx))
    rwa [h.unique x (ha hx) y (hb hy) hkey.symm]
  refine (List.perm_ext_iff_of_nodup hnodupA.of_map hnodupB.of_map).mpr fun x => ⟨?_, ?_⟩
  · exact hsub ha hb (fun k => (hsame k).mp) x
  · exact hsub hb ha (fun k => (hsame k).mpr) x

/-- Replicas that replayed the same keys agree. -/
theorem foldl_eq (h : Replayable key apply all) (ha : a ⊆ all) (hb : b ⊆ all)
    (hnodupA : (a.map key).Nodup) (hnodupB : (b.map key).Nodup)
    (hsame : ∀ k, k ∈ a.map key ↔ k ∈ b.map key) (s : σ) :
    a.foldl apply s = b.foldl apply s :=
  h.foldl_perm ha (h.perm_of_keys ha hb hnodupA hnodupB hsame) s

end Replayable

end Base
