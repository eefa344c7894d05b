import Mathlib

/-!
# The first distinct items

A loop over a list that keeps an item if it is new and there is room for it, and what
it keeps of a sorted list: the items in the order of their smallest occurrence. Then what
a sort by a key leaves to the order of the input, which is nothing if equal keys are
treated equally.
-/

namespace Base

variable {α β : Type} [BEq α] [LawfulBEq α]

/-- Keep an item that is new, while there is room. -/
def pushFirst (limit : Nat) (kept : List α) (x : α) : List α :=
  if kept.length < limit && !kept.contains x then kept ++ [x] else kept

/-- The first distinct items of a list, at most `limit` of them. -/
def firstDistinct (limit : Nat) (xs : List α) : List α := xs.foldl (pushFirst limit) []

theorem eraseDups_concat_of_mem {xs : List α} {x : α} (h : x ∈ xs) :
    (xs ++ [x]).eraseDups = xs.eraseDups := by
  rw [List.eraseDups_append, List.removeAll, List.filter_cons_of_neg (by simpa using h)]
  simp

theorem eraseDups_concat_of_not_mem {xs : List α} {x : α} (h : x ∉ xs) :
    (xs ++ [x]).eraseDups = xs.eraseDups ++ [x] := by
  rw [List.eraseDups_append, List.removeAll, List.filter_cons_of_pos (by simpa using h)]
  simp [List.eraseDups_cons]

/-- The items kept so far are the beginning of the distinct items seen so far. -/
theorem firstDistinct_eq (limit : Nat) (xs : List α) :
    firstDistinct limit xs = xs.eraseDups.take limit := by
  induction xs using List.reverseRecOn with
  | nil => simp [firstDistinct]
  | append_singleton xs x ih =>
    have hstep : firstDistinct limit (xs ++ [x]) =
        pushFirst limit (firstDistinct limit xs) x := by
      rw [firstDistinct, List.foldl_append]
      rfl
    rw [hstep, ih, pushFirst]
    by_cases hroom : xs.eraseDups.length < limit
    · -- Nothing has been cut off, so the items kept are all there are.
      rw [List.take_of_length_le (Nat.le_of_lt hroom)]
      by_cases hx : x ∈ xs
      · rw [if_neg (by simp [hx]), eraseDups_concat_of_mem hx,
          List.take_of_length_le (Nat.le_of_lt hroom)]
      · rw [if_pos (by simp [hroom, hx]), eraseDups_concat_of_not_mem hx,
          List.take_of_length_le (by rw [List.length_append]; exact hroom)]
    · have hfull : limit ≤ xs.eraseDups.length := Nat.le_of_not_lt hroom
      rw [if_neg (by simp [List.length_take, hfull])]
      by_cases hx : x ∈ xs
      · rw [eraseDups_concat_of_mem hx]
      · rw [eraseDups_concat_of_not_mem hx, List.take_append_of_le_length hfull]

theorem nodup_eraseDups (xs : List α) : xs.eraseDups.Nodup := by
  induction xs using List.reverseRecOn with
  | nil => simp
  | append_singleton xs x ih =>
    by_cases hx : x ∈ xs
    · rw [eraseDups_concat_of_mem hx]
      exact ih
    · rw [eraseDups_concat_of_not_mem hx]
      refine List.nodup_append.mpr ⟨ih, List.nodup_singleton x, ?_⟩
      rintro y hy _ hlast rfl
      exact hx (List.mem_singleton.mp hlast ▸ List.mem_eraseDups.mp hy)

/-- Of two distinct items of a sorted list, the earlier one has an occurrence in front of
every occurrence of the later one. -/
theorem pairwise_eraseDups_filterMap {f : β → Option α} {le : β → β → Prop} {bs : List β}
    (h : bs.Pairwise le) :
    (bs.filterMap f).eraseDups.Pairwise fun a a' =>
      ∃ b ∈ bs, f b = some a ∧ ∀ b' ∈ bs, f b' = some a' → le b b' := by
  induction bs using List.reverseRecOn with
  | nil => simp
  | append_singleton bs last ih =>
    obtain ⟨hbs, -, hlast⟩ := List.pairwise_append.mp h
    have hlast : ∀ b ∈ bs, le b last := fun b hb => hlast b hb last List.mem_cons_self
    -- An occurrence found among `bs` is also in front of `last`.
    have hextend := (ih hbs).imp fun {a a'} hpair => by
      obtain ⟨b, hb, hfb, hfirst⟩ := hpair
      have hfirst' : ∀ b' ∈ bs ++ [last], f b' = some a' → le b b' := by
        intro b' hb' hfb'
        rcases List.mem_append.mp hb' with hmem | hmem
        · exact hfirst b' hmem hfb'
        · rw [List.mem_singleton.mp hmem]
          exact hlast b hb
      exact (⟨b, List.mem_append_left _ hb, hfb, hfirst'⟩ :
        ∃ b ∈ bs ++ [last], f b = some a ∧ ∀ b' ∈ bs ++ [last], f b' = some a' → le b b')
    rw [List.filterMap_append]
    cases hf : f last with
    | none => simpa [hf] using hextend
    | some x =>
      rw [List.filterMap_cons_some hf, List.filterMap_nil]
      by_cases hx : x ∈ bs.filterMap f
      · rw [eraseDups_concat_of_mem hx]
        exact hextend
      · rw [eraseDups_concat_of_not_mem hx]
        refine List.pairwise_append.mpr ⟨hextend, List.pairwise_singleton _ _, ?_⟩
        rintro a ha x' hx'
        cases List.mem_singleton.mp hx'
        obtain ⟨b, hb, hfb⟩ := List.mem_filterMap.mp (List.mem_eraseDups.mp ha)
        refine ⟨b, List.mem_append_left _ hb, hfb, ?_⟩
        intro b' hb' hfb'
        rcases List.mem_append.mp hb' with hmem | hmem
        · exact absurd (List.mem_filterMap.mpr ⟨b', hmem, hfb'⟩) hx
        · rw [List.mem_singleton.mp hmem]
          exact hlast b hb

/-! ## Sorting by a key -/

omit [BEq α] [LawfulBEq α]

/-- What is read off the keys does not depend on the items behind them. -/
theorem filterMap_eq_of_map_eq {K : Type} {key : β → K} {f : β → Option α}
    (hf : ∀ a b, key a = key b → f a = f b) {bs bs' : List β} (h : bs.map key = bs'.map key) :
    bs.filterMap f = bs'.filterMap f := by
  induction bs generalizing bs' with
  | nil => rw [List.map_eq_nil_iff.mp h.symm]
  | cons b bs ih =>
    obtain ⟨b', rest, rfl, hkey, hrest⟩ := List.map_eq_cons_iff.mp h.symm
    rw [List.filterMap_cons, List.filterMap_cons, ← hf b' b hkey, ih hrest.symm]

section SortByKey

variable {K : Type} {key : β → K} {le : K → K → Bool}
  (trans : ∀ a b c, le a b = true → le b c = true → le a c = true)
  (total : ∀ a b, (le a b || le b a) = true)

include trans total

theorem pairwise_sortByKey (bs : List β) :
    (bs.mergeSort fun a b => le (key a) (key b)).Pairwise fun a b => le (key a) (key b) = true :=
  List.pairwise_mergeSort (fun a b c => trans (key a) (key b) (key c))
    (fun a b => total (key a) (key b)) bs

/-- If equal keys give equal results, the order of the items has no influence. -/
theorem filterMap_sortByKey_of_perm (antisymm : ∀ a b, le a b = true → le b a = true → a = b)
    {f : β → Option α} (hf : ∀ a b, key a = key b → f a = f b) {bs bs' : List β}
    (h : bs.Perm bs') :
    (bs.mergeSort fun a b => le (key a) (key b)).filterMap f =
      (bs'.mergeSort fun a b => le (key a) (key b)).filterMap f := by
  refine filterMap_eq_of_map_eq hf (List.Perm.eq_of_pairwise (fun a b _ _ => antisymm a b) ?_ ?_ ?_)
  · exact List.pairwise_map.mpr (pairwise_sortByKey trans total bs)
  · exact List.pairwise_map.mpr (pairwise_sortByKey trans total bs')
  · exact (((List.mergeSort_perm _ _).trans h).trans (List.mergeSort_perm _ _).symm).map key

end SortByKey

end Base
