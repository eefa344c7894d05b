import Numax.Base.OrdMap

/-!
# The smallest items of a stream

A bounded set takes in one item after the other and gives up its greatest whenever it
holds more than it may. Whatever the order and the repetitions of the items, it holds the
smallest of those seen so far, as many as fit.

The invariant is `Smallest`: what is held is an initial segment of what was seen, and it
is everything as long as there is room. An item that is given up has all of the held ones
below it, so it never comes back into the segment.
-/

open Std

namespace Base

section

variable {α : Type} [Ord α] [TransOrd α]

/-- `BTreeSet::pop_last`, without the item. -/
def popLast (s : OrdSet α) : OrdSet α :=
  match s.max? with
  | some last => s.erase last
  | none => s

/-- One item more; if that is too many, the greatest goes. -/
def takeIn (n : Nat) (s : OrdSet α) (a : α) : OrdSet α :=
  let s := s.insert a
  if s.size > n then popLast s else s

def keepSmallest (n : Nat) (items : List α) : OrdSet α := items.foldl (takeIn n) ∅

/-- The held items are the first of all items in ascending order, as many as may be held. -/
structure Smallest (n : Nat) (held all : OrdSet α) : Prop where
  subset : ∀ a ∈ held, a ∈ all
  closed : ∀ a ∈ held, ∀ b ∈ all, compare b a = .lt → b ∈ held
  bounded : held.size ≤ n
  full : held.size < n → ∀ a ∈ all, a ∈ held

theorem smallest_empty (n : Nat) : Smallest n (∅ : OrdSet α) ∅ where
  subset _ h := h
  closed _ h := absurd h ExtTreeSet.not_mem_empty
  bounded := by simp
  full _ _ h := h

theorem OrdSet.size_insert_of_not_mem {s : OrdSet α} {a : α} (h : a ∉ s) :
    (s.insert a).size = s.size + 1 := by
  rw [ExtTreeSet.size_insert, if_neg fun hcontains => h (ExtTreeSet.contains_iff_mem.mp hcontains)]

end

section

variable {α : Type} [Ord α] [TransOrd α] [LawfulEqOrd α] {n : Nat} {held all s : OrdSet α} {a b : α}

namespace OrdSet

theorem mem_insert_iff : b ∈ s.insert a ↔ b = a ∨ b ∈ s := by
  rw [ExtTreeSet.mem_insert, LawfulEqOrd.compare_eq_iff_eq, eq_comm]

theorem mem_erase_iff : b ∈ s.erase a ↔ b ≠ a ∧ b ∈ s := by
  rw [ExtTreeSet.mem_erase, ne_eq, LawfulEqOrd.compare_eq_iff_eq, ne_comm]

theorem insert_of_mem (h : a ∈ s) : s.insert a = s := by
  refine ExtTreeSet.ext_mem fun b => ?_
  rw [mem_insert_iff]
  exact ⟨fun hb => hb.elim (fun heq => heq ▸ h) id, .inr⟩

end OrdSet

open OrdSet

/-! ## One item -/

/-- With room for one more, everything is held. -/
theorem Smallest.insert_of_lt (h : Smallest n held all) (hroom : held.size < n) (a : α) :
    Smallest n (held.insert a) (all.insert a) where
  subset b hb := by
    rw [mem_insert_iff] at hb ⊢
    exact hb.imp_right (h.subset b)
  closed b _ c hc _ := by
    rw [mem_insert_iff] at hc ⊢
    exact hc.imp_right (h.full hroom c)
  bounded := ExtTreeSet.size_insert_le.trans hroom
  full _ b hb := by
    rw [mem_insert_iff] at hb ⊢
    exact hb.imp_right (h.full hroom b)

/-- Without room, the greatest of the held ones and the new one goes. -/
theorem Smallest.evict (h : Smallest n held all) {last : α} (hnew : a ∉ held)
    (hfull : held.size = n) (hlast : (held.insert a).max? = some last) :
    Smallest n ((held.insert a).erase last) (all.insert a) := by
  obtain ⟨hmem, hgreatest⟩ := ExtTreeSet.max?_eq_some_iff_mem_and_forall.mp hlast
  have hsize : ((held.insert a).erase last).size = n := by
    rw [ExtTreeSet.size_erase, if_pos (ExtTreeSet.contains_iff_mem.mpr hmem),
      size_insert_of_not_mem hnew, hfull, Nat.add_sub_cancel]
  refine ⟨fun b hb => ?_, fun b hb c hc hlt => ?_, hsize.le, fun hless => ?_⟩
  · obtain ⟨-, hb⟩ := mem_erase_iff.mp hb
    rw [mem_insert_iff] at hb ⊢
    exact hb.imp_right (h.subset b)
  · obtain ⟨hne, hb⟩ := mem_erase_iff.mp hb
    -- `b` is below the greatest one, and so is `c`
    have hbelow : compare b last = .lt := by
      rcases Ordering.isLE_iff_eq_lt_or_eq_eq.mp (hgreatest b hb) with hlt | heq
      · exact hlt
      · exact absurd (LawfulEqOrd.compare_eq_iff_eq.mp heq) hne
    have hclast : compare c last = .lt := TransCmp.lt_trans hlt hbelow
    refine mem_erase_iff.mpr ⟨?_, ?_⟩
    · rintro rfl
      rw [compare_self] at hclast
      cases hclast
    · rw [mem_insert_iff] at hb hc ⊢
      refine hc.imp_right fun hcall => ?_
      rcases hb with rfl | hb
      · -- `b` is the new one and is not given up, so the one that is was held before
        have hheld : last ∈ held := (mem_insert_iff.mp hmem).resolve_left (Ne.symm hne)
        exact h.closed last hheld c hcall hclast
      · exact h.closed b hb c hcall hlt
  · exact absurd hless (by rw [hsize]; exact Nat.lt_irrefl n)

theorem Smallest.takeIn (h : Smallest n held all) (a : α) :
    Smallest n (takeIn n held a) (all.insert a) := by
  unfold Base.takeIn
  by_cases hold : a ∈ held
  · simp only [insert_of_mem hold, insert_of_mem (h.subset a hold)]
    rw [if_neg (Nat.not_lt.mpr h.bounded)]
    exact h
  · have hsize := size_insert_of_not_mem hold
    by_cases hroom : held.size < n
    · have hfits : ¬ (held.insert a).size > n := by omega
      simp only [if_neg hfits]
      exact h.insert_of_lt hroom a
    · have hfull : held.size = n := Nat.le_antisymm h.bounded (Nat.le_of_not_lt hroom)
      have hover : (held.insert a).size > n := by omega
      simp only [if_pos hover, popLast]
      obtain ⟨last, hlast⟩ : ∃ last, (held.insert a).max? = some last :=
        Option.isSome_iff_exists.mp
          (ExtTreeSet.isSome_max?_of_mem (mem_insert_iff.mpr (.inl rfl)))
      rw [hlast]
      exact h.evict hold hfull hlast

/-! ## The whole stream -/

theorem smallest_keepSmallest (n : Nat) (items : List α) :
    Smallest n (keepSmallest n items) (ExtTreeSet.ofList items compare) := by
  rw [ExtTreeSet.ofList_eq_foldl]
  induction items using List.reverseRecOn with
  | nil => exact smallest_empty n
  | append_singleton items a ih =>
    rw [keepSmallest, List.foldl_append, List.foldl_append]
    exact ih.takeIn a

/-- An initial segment is a front part of the ascending listing. -/
theorem Smallest.toList_eq (h : Smallest n held all) : held.toList = all.toList.take n := by
  have hfilter : held = all.filter fun a => held.contains a := by
    refine ExtTreeSet.ext_mem fun a => ?_
    simp only [ExtTreeSet.mem_filter, ExtTreeSet.get_eq, ExtTreeSet.contains_iff_mem, exists_prop]
    exact ⟨fun ha => ⟨h.subset a ha, ha⟩, fun ha => ha.2⟩
  -- what is held stands in front of what is not
  have hordered : all.toList.Pairwise fun a b =>
      held.contains b = true → held.contains a = true := by
    refine ExtTreeSet.ordered_toList.imp_of_mem fun {a b} ha _ hlt hb => ?_
    rw [ExtTreeSet.contains_iff_mem] at hb ⊢
    exact h.closed b hb a (ExtTreeSet.mem_toList.mp ha) hlt
  have hfront : held.toList <+: all.toList := by
    rw [hfilter, ExtTreeSet.toList_filter, ← takeWhile_eq_filter hordered]
    exact List.takeWhile_prefix _
  by_cases hroom : held.size < n
  · have hall : held = all :=
      ExtTreeSet.ext_mem fun a => ⟨h.subset a, h.full hroom a⟩
    rw [← hall, List.take_of_length_le]
    rw [ExtTreeSet.length_toList]
    exact h.bounded
  · have hlength : held.toList.length = n := by
      rw [ExtTreeSet.length_toList]
      exact Nat.le_antisymm h.bounded (Nat.le_of_not_lt hroom)
    rw [← hlength]
    exact List.prefix_iff_eq_take.mp hfront

theorem toList_keepSmallest (n : Nat) (items : List α) :
    (keepSmallest n items).toList = (ExtTreeSet.ofList items compare).toList.take n :=
  (smallest_keepSmallest n items).toList_eq

/-- Neither the order of the items nor their repetition matters. -/
theorem keepSmallest_congr [DecidableEq α] (n : Nat) {items items' : List α}
    (h : ∀ a, a ∈ items ↔ a ∈ items') : keepSmallest n items = keepSmallest n items' := by
  have hall : ExtTreeSet.ofList items compare = ExtTreeSet.ofList items' compare := by
    refine ExtTreeSet.ext_mem fun a => ?_
    rw [ExtTreeSet.mem_ofList, ExtTreeSet.mem_ofList, List.contains_iff_mem, List.contains_iff_mem,
      h]
  rw [← ExtTreeSet.toList_inj, toList_keepSmallest, toList_keepSmallest, hall]

end

end Base
