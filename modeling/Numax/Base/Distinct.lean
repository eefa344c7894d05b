import Numax.Base.OrdMap

/-!
# Lists without repetition

A list that is built by pushing items, each of them once, next to the set of the
items it has: the loop body `if seen.insert(x) { items.push(x) }`. The structure
carries that the two agree, so nothing has to be shown about the loops again.
-/

open Std

namespace Base

structure Distinct (K : Type) [Ord K] [TransOrd K] where
  items : List K
  seen : OrdSet K
  agree : ∀ x, x ∈ seen ↔ x ∈ items
  nodup : items.Nodup

namespace Distinct

variable {K : Type} [Ord K] [TransOrd K]

def empty : Distinct K := ⟨[], ∅, by simp, List.nodup_nil⟩

variable [LawfulEqOrd K]

/-- Push an item that is not there yet. -/
def push (d : Distinct K) (x : K) : Distinct K :=
  if h : x ∈ d.seen then d
  else
    { items := d.items ++ [x]
      seen := d.seen.insert x
      agree := fun y => by
        rw [ExtTreeSet.mem_insert, LawfulEqOrd.compare_eq_iff_eq, List.mem_append,
          List.mem_singleton, d.agree, or_comm, eq_comm]
      nodup := List.nodup_append.mpr ⟨d.nodup, List.nodup_singleton x, by
        rintro y hy _ hlast rfl
        exact h ((d.agree x).mpr (List.mem_singleton.mp hlast ▸ hy))⟩ }

variable {d : Distinct K}

theorem push_of_mem {x : K} (h : x ∈ d.items) : d.push x = d := dif_pos ((d.agree x).mpr h)

theorem items_push_of_not_mem {x : K} (h : x ∉ d.items) : (d.push x).items = d.items ++ [x] := by
  rw [push, dif_neg (mt (d.agree x).mp h)]

@[simp] theorem mem_items_push {x y : K} : y ∈ (d.push x).items ↔ y ∈ d.items ∨ y = x := by
  by_cases h : x ∈ d.items
  · rw [push_of_mem h]
    exact ⟨.inl, fun hy => hy.elim id fun heq => heq ▸ h⟩
  · rw [items_push_of_not_mem h, List.mem_append, List.mem_singleton]

/-- Push the items of a list that pass a test. -/
def pushWhere (keep : K → Bool) (d : Distinct K) (xs : List K) : Distinct K :=
  xs.foldl (fun d x => if keep x then d.push x else d) d

theorem mem_items_pushWhere {keep : K → Bool} {xs : List K} {y : K} :
    y ∈ (d.pushWhere keep xs).items ↔ y ∈ d.items ∨ y ∈ xs ∧ keep y = true := by
  induction xs generalizing d with
  | nil => simp [pushWhere]
  | cons x xs ih =>
    have hstep : d.pushWhere keep (x :: xs) =
        (if keep x then d.push x else d).pushWhere keep xs := rfl
    rw [hstep, ih, List.mem_cons]
    by_cases hx : keep x = true
    · rw [if_pos hx, mem_items_push]
      constructor
      · rintro ((hy | rfl) | hy)
        · exact .inl hy
        · exact .inr ⟨.inl rfl, hx⟩
        · exact .inr ⟨.inr hy.1, hy.2⟩
      · rintro (hy | ⟨rfl | hy, hkeep⟩)
        · exact .inl (.inl hy)
        · exact .inl (.inr rfl)
        · exact .inr ⟨hy, hkeep⟩
    · rw [if_neg hx]
      constructor
      · exact Or.imp_right fun hy => ⟨.inr hy.1, hy.2⟩
      · rintro (hy | ⟨rfl | hy, hkeep⟩)
        · exact .inl hy
        · exact absurd hkeep hx
        · exact .inr ⟨hy, hkeep⟩

end Distinct

end Base
