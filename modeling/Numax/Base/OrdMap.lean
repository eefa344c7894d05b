import Mathlib

/-!
# Ordered finite maps

`OrdMap` and `OrdSet` are the extensional tree maps and sets of the standard
library at the default comparison: two maps are equal as soon as they answer
every lookup alike, and iteration runs in ascending key order. This module
adds the lemmas the development uses on top of the library's:

* lookups after `insert`, `erase` and `alter`, with key equality in place of
  `compare`;
* `alter` at distinct keys commutes, and composes at one key;
* `insertAll` and `eraseAll` write and remove a whole list of entries;
* `total` sums up a weight of the values.
-/

open Std

namespace Base

/-- A finite map with keys in ascending order. -/
abbrev OrdMap (K V : Type) [Ord K] := ExtTreeMap K V compare

/-- A finite set in ascending order. -/
abbrev OrdSet (K : Type) [Ord K] := ExtTreeSet K compare

/-- Taking while a property holds is filtering, if the property is inherited by
earlier items. -/
theorem takeWhile_eq_filter {α : Type} {p : α → Bool} {l : List α}
    (h : l.Pairwise fun a b => p b = true → p a = true) : l.takeWhile p = l.filter p := by
  induction l with
  | nil => rfl
  | cons a l ih =>
    rw [List.pairwise_cons] at h
    by_cases ha : p a = true
    · rw [List.takeWhile_cons_of_pos ha, List.filter_cons_of_pos ha, ih h.2]
    · have hnone : l.filter p = [] := by
        rw [List.filter_eq_nil_iff]
        exact fun b hb hpb => ha (h.1 b hb hpb)
      rw [List.takeWhile_cons_of_neg ha, List.filter_cons_of_neg ha, hnone]

namespace OrdMap

variable {K V : Type} [Ord K] [TransOrd K]

/-- Insert the entries of a list from left to right. -/
def insertAll (m : OrdMap K V) (entries : List (K × V)) : OrdMap K V :=
  entries.foldl (fun acc entry => acc.insert entry.1 entry.2) m

/-- Remove the keys of a list. -/
def eraseAll (m : OrdMap K V) (keys : List K) : OrdMap K V :=
  keys.foldl (fun acc key => acc.erase key) m

@[simp] theorem insertAll_nil (m : OrdMap K V) : insertAll m [] = m := rfl

theorem insertAll_cons (m : OrdMap K V) (k : K) (v : V) (rest : List (K × V)) :
    insertAll m ((k, v) :: rest) = insertAll (m.insert k v) rest := rfl

theorem insertAll_append (m : OrdMap K V) (xs ys : List (K × V)) :
    insertAll m (xs ++ ys) = insertAll (insertAll m xs) ys := by
  simp [insertAll, List.foldl_append]

@[simp] theorem eraseAll_nil (m : OrdMap K V) : eraseAll m [] = m := rfl

/-- The values in ascending key order. -/
def valuesAsc (m : OrdMap K V) : List V := m.toList.map Prod.snd

theorem length_valuesAsc (m : OrdMap K V) : (valuesAsc m).length = m.size := by
  rw [valuesAsc, List.length_map, ExtTreeMap.length_toList]

theorem toList_nodup_keys (m : OrdMap K V) : (m.toList.map Prod.fst).Nodup := by
  rw [ExtTreeMap.map_fst_toList_eq_keys]
  exact ExtTreeMap.nodup_keys

theorem nodup_toList (m : OrdMap K V) : m.toList.Nodup := (toList_nodup_keys m).of_map _

theorem toList_sorted (m : OrdMap K V) :
    m.toList.Pairwise (fun a b => compare a.1 b.1 = .lt) :=
  ExtTreeMap.ordered_keys_toList

theorem contains_eq_get (m : OrdMap K V) (k : K) : m.contains k = m[k]?.isSome :=
  ExtTreeMap.contains_eq_isSome_getElem?

variable {m : OrdMap K V} {k : K} {v : V}

theorem size_erase_of_get (h : m[k]? = some v) :
    (m.erase k).size + 1 = m.size := by
  have hmem : m.contains k = true := by rw [contains_eq_get, h]; rfl
  have hpos : 0 < m.size := by
    rw [Nat.pos_iff_ne_zero]
    intro hzero
    rw [ExtTreeMap.eq_empty_iff_size_eq_zero.mpr hzero] at h
    simp at h
  rw [ExtTreeMap.size_erase, hmem, if_pos rfl, Nat.sub_add_cancel hpos]

theorem size_insert_of_get {old : V} (v : V) (h : m[k]? = some old) :
    (m.insert k v).size = m.size := by
  rw [ExtTreeMap.size_insert, contains_eq_get, h]
  rfl

theorem size_insert_of_none (v : V) (h : m[k]? = none) :
    (m.insert k v).size = m.size + 1 := by
  rw [ExtTreeMap.size_insert, contains_eq_get, h]
  rfl

variable [LawfulEqOrd K]

theorem mem_toList (m : OrdMap K V) :
    (k, v) ∈ m.toList ↔ m[k]? = some v :=
  ExtTreeMap.mem_toList_iff_getElem?_eq_some

theorem mem_valuesAsc : v ∈ valuesAsc m ↔ ∃ k : K, m[k]? = some v := by
  simp only [valuesAsc, List.mem_map, Prod.exists, mem_toList, exists_eq_right]

theorem isEmpty_eq_false_iff_exists (m : OrdMap K V) : m.isEmpty = false ↔ ∃ k, k ∈ m := by
  rw [ExtTreeMap.isEmpty_eq_size_beq_zero, beq_eq_false_iff_ne, ← ExtTreeMap.length_keys,
    ← Nat.pos_iff_ne_zero, List.length_pos_iff_exists_mem]
  simp only [ExtTreeMap.mem_keys]

theorem size_le_of_subset {W : Type} {n : OrdMap K W} (h : ∀ k ∈ m, k ∈ n) :
    m.size ≤ n.size := by
  rw [← ExtTreeMap.length_keys, ← ExtTreeMap.length_keys]
  refine (ExtTreeMap.nodup_keys.subperm fun k hk => ?_).length_le
  exact ExtTreeMap.mem_keys.mpr (h k (ExtTreeMap.mem_keys.mp hk))

/-- The sum of the weights of all values. -/
def total (weight : V → Nat) (m : OrdMap K V) : Nat := ((valuesAsc m).map weight).sum

theorem total_le_of_subset (weight : V → Nat) {n : OrdMap K V}
    (h : ∀ (k : K) v, m[k]? = some v → n[k]? = some v) : total weight m ≤ total weight n := by
  have hsubperm : m.toList.Subperm n.toList := by
    refine (nodup_toList m).subperm ?_
    rintro ⟨k, v⟩ hkv
    exact (mem_toList n).mpr (h k v ((mem_toList m).mp hkv))
  obtain ⟨part, hperm, hsublist⟩ := hsubperm
  rw [total, total, valuesAsc, valuesAsc, List.map_map, List.map_map]
  rw [← (hperm.map (weight ∘ Prod.snd)).sum_eq]
  exact (hsublist.map _).sum_le_sum fun _ _ => Nat.zero_le _

variable [DecidableEq K]

theorem get_insert (m : OrdMap K V) (k a : K) (v : V) :
    (m.insert k v)[a]? = if k = a then some v else m[a]? := by
  rw [ExtTreeMap.getElem?_insert]
  simp only [LawfulEqOrd.compare_eq_iff_eq]

theorem get_insert_ne (m : OrdMap K V) {a : K} (v : V) (h : k ≠ a) :
    (m.insert k v)[a]? = m[a]? := by
  rw [get_insert, if_neg h]

theorem get_erase (m : OrdMap K V) (k a : K) :
    (m.erase k)[a]? = if k = a then none else m[a]? := by
  rw [ExtTreeMap.getElem?_erase]
  simp only [LawfulEqOrd.compare_eq_iff_eq]

theorem erase_of_none (h : m[k]? = none) : m.erase k = m := by
  apply ExtTreeMap.ext_getElem?
  intro a
  rw [get_erase]
  split
  · next heq => rw [← heq, h]
  · rfl

theorem get_alter (m : OrdMap K V) (k a : K) (f : Option V → Option V) :
    (m.alter k f)[a]? = if k = a then f m[k]? else m[a]? := by
  rw [ExtTreeMap.getElem?_alter]
  simp only [LawfulEqOrd.compare_eq_iff_eq]

/-- Writing back what a key holds changes nothing. -/
theorem alter_eq_self (m : OrdMap K V) (k : K) (f : Option V → Option V)
    (h : f m[k]? = m[k]?) : m.alter k f = m := by
  apply ExtTreeMap.ext_getElem?
  intro a
  rw [get_alter]
  split
  · next heq => rw [h, heq]
  · rfl

theorem insert_eq_alter (m : OrdMap K V) (k : K) (v : V) :
    m.insert k v = m.alter k (fun _ => some v) := by
  apply ExtTreeMap.ext_getElem?
  intro a
  rw [get_insert, get_alter]

theorem alter_congr (m : OrdMap K V) (k : K) {f g : Option V → Option V}
    (h : f m[k]? = g m[k]?) : m.alter k f = m.alter k g := by
  apply ExtTreeMap.ext_getElem?
  intro a
  rw [get_alter, get_alter, h]

theorem alter_alter_self (m : OrdMap K V) (k : K) (f g : Option V → Option V) :
    (m.alter k f).alter k g = m.alter k (fun v => g (f v)) := by
  apply ExtTreeMap.ext_getElem?
  intro a
  simp only [get_alter, if_true]
  split <;> rfl

/-- Updates at one key commute as soon as the update functions do; updates at
distinct keys always commute. -/
theorem alter_comm (m : OrdMap K V) (k l : K) (f g : Option V → Option V)
    (h : k = l → ∀ v, g (f v) = f (g v)) :
    (m.alter k f).alter l g = (m.alter l g).alter k f := by
  by_cases hkl : k = l
  · subst hkl
    rw [alter_alter_self, alter_alter_self]
    exact alter_congr m k (h rfl _)
  · apply ExtTreeMap.ext_getElem?
    intro a
    simp only [get_alter, if_neg hkl, if_neg (Ne.symm hkl)]
    by_cases hl : l = a
    · subst hl
      simp [hkl]
    · simp [hl]

/-- Entries under other keys do not affect a lookup. -/
theorem get_insertAll_of_not_mem (m : OrdMap K V) (entries : List (K × V)) (a : K)
    (h : a ∉ entries.map Prod.fst) : (insertAll m entries)[a]? = m[a]? := by
  induction entries generalizing m with
  | nil => rfl
  | cons entry rest ih =>
    simp only [List.map_cons, List.mem_cons, not_or] at h
    rw [show insertAll m (entry :: rest) = insertAll (m.insert entry.1 entry.2) rest from rfl,
      ih _ h.2, get_insert_ne _ _ (Ne.symm h.1)]

/-- With distinct keys every entry of the list is found afterwards. -/
theorem get_insertAll_of_mem (m : OrdMap K V) (entries : List (K × V)) {a : K}
    (hnd : (entries.map Prod.fst).Nodup) (h : (a, v) ∈ entries) :
    (insertAll m entries)[a]? = some v := by
  induction entries generalizing m with
  | nil => cases h
  | cons entry rest ih =>
    rw [List.map_cons, List.nodup_cons] at hnd
    change (insertAll (m.insert entry.1 entry.2) rest)[a]? = some v
    rcases List.mem_cons.mp h with heq | hmem
    · subst heq
      rw [get_insertAll_of_not_mem _ _ _ hnd.1, ExtTreeMap.getElem?_insert_self]
    · exact ih _ hnd.2 hmem

theorem get_eraseAll (m : OrdMap K V) (keys : List K) (a : K) :
    (eraseAll m keys)[a]? = if a ∈ keys then none else m[a]? := by
  induction keys generalizing m with
  | nil => simp
  | cons key rest ih =>
    rw [show eraseAll m (key :: rest) = eraseAll (m.erase key) rest from rfl, ih, get_erase]
    by_cases hrest : a ∈ rest
    · simp [hrest]
    · by_cases hkey : key = a
      · simp [hkey]
      · simp [hrest, hkey, Ne.symm hkey]

/-- Insert the entries of a list whose key is still free, from left to right. -/
def insertMissing (m : OrdMap K V) (entries : List (K × V)) : OrdMap K V :=
  entries.foldl (fun acc entry =>
    if acc.contains entry.1 then acc else acc.insert entry.1 entry.2) m

/-- A present key keeps its value; a free key gets its first entry. -/
theorem get_insertMissing (m : OrdMap K V) (entries : List (K × V)) (a : K) :
    (insertMissing m entries)[a]? =
      (m[a]?).or ((entries.find? (fun entry => entry.1 = a)).map Prod.snd) := by
  induction entries generalizing m with
  | nil => simp [insertMissing]
  | cons entry rest ih =>
    change (insertMissing (if m.contains entry.1 then m else m.insert entry.1 entry.2)
      rest)[a]? = _
    rw [ih, ExtTreeMap.contains_eq_isSome_getElem?]
    by_cases hkey : entry.1 = a
    · cases hget : m[entry.1]? with
      | some v => simp [← hkey, hget]
      | none => simp [← hkey, hget]
    · cases hget : m[entry.1]? with
      | some v => simp [hkey]
      | none => simp [hkey, get_insert]

/-- The first entry of a key in a map's own listing is the map's value. -/
theorem find_toList (m : OrdMap K V) (a : K) :
    (m.toList.find? (fun entry => entry.1 = a)).map Prod.snd = m[a]? := by
  cases hfind : m.toList.find? (fun entry => entry.1 = a) with
  | some entry =>
    obtain ⟨k, v⟩ := entry
    have hmem := (mem_toList m).mp (List.mem_of_find?_eq_some hfind)
    have hk : k = a := by simpa using List.find?_some hfind
    rw [← hk, hmem]
    rfl
  | none =>
    cases hget : m[a]? with
    | none => rfl
    | some v =>
      have hnone := List.find?_eq_none.mp hfind (a, v) ((mem_toList m).mpr hget)
      simp at hnone

/-- Writing all entries of a map over another: the written map is seen first. -/
theorem get_insertAll_toList (m updates : OrdMap K V) (a : K) :
    (insertAll m updates.toList)[a]? = (updates[a]?).or m[a]? := by
  cases hget : updates[a]? with
  | some v =>
    rw [get_insertAll_of_mem m updates.toList (toList_nodup_keys updates)
      ((mem_toList updates).mpr hget)]
    rfl
  | none =>
    rw [get_insertAll_of_not_mem]
    · rfl
    · intro hmem
      obtain ⟨⟨k, v⟩, hkv, rfl⟩ := List.mem_map.mp hmem
      rw [(mem_toList updates).mp hkv] at hget
      cases hget

/-- `entry(k).or_default().push(v)`. -/
def push (m : OrdMap K (List V)) (k : K) (v : V) : OrdMap K (List V) :=
  m.alter k (fun vs => some (vs.getD [] ++ [v]))

/-- Grouping a list by key keeps, under each key, the items of that key in order. -/
theorem getD_foldl_push {A : Type} (key : A → K) (item : A → V) (xs : List A)
    (m : OrdMap K (List V)) (k : K) :
    ((xs.foldl (fun acc x => push acc (key x) (item x)) m)[k]?).getD [] =
      (m[k]?).getD [] ++ (xs.filter (fun x => key x = k)).map item := by
  induction xs generalizing m with
  | nil => simp
  | cons x xs ih =>
    rw [List.foldl_cons, ih, push, get_alter]
    by_cases hk : key x = k
    · simp [hk]
    · simp [hk]

/-- `entry(k)` updated with every item of a list from left to right. -/
def upsertAll {W : Type} (f : Option V → W → V) (m : OrdMap K V) (entries : List (K × W)) :
    OrdMap K V :=
  entries.foldl (fun acc entry => acc.alter entry.1 fun old => some (f old entry.2)) m

/-- Updating with all entries of a map touches each of its keys once. -/
theorem get_upsertAll_toList {W : Type} (f : Option V → W → V) (m : OrdMap K V)
    (updates : OrdMap K W) (a : K) :
    (upsertAll f m updates.toList)[a]? =
      match updates[a]? with
      | none => m[a]?
      | some w => some (f m[a]? w) := by
  have hlist : ∀ (entries : List (K × W)) (m : OrdMap K V), (entries.map Prod.fst).Nodup →
      (upsertAll f m entries)[a]? =
        match (entries.find? fun entry => entry.1 = a).map Prod.snd with
        | none => m[a]?
        | some w => some (f m[a]? w) := by
    intro entries
    induction entries with
    | nil => exact fun m _ => rfl
    | cons entry rest ih =>
      intro m hnd
      rw [List.map_cons, List.nodup_cons] at hnd
      change (upsertAll f (m.alter entry.1 fun old => some (f old entry.2)) rest)[a]? = _
      rw [ih _ hnd.2, get_alter]
      by_cases hkey : entry.1 = a
      · have hnone : rest.find? (fun entry => entry.1 = a) = none := by
          rw [List.find?_eq_none]
          intro e he heq
          exact hnd.1 (List.mem_map.mpr ⟨e, he, by simpa [hkey] using heq⟩)
        simp [hkey, hnone]
      · simp [hkey]
  rw [hlist _ _ (toList_nodup_keys updates), find_toList]

/-- A lookup that succeeds after `insertAll` found an entry of the list or
was already there. -/
theorem mem_or_get_of_insertAll (m : OrdMap K V) (entries : List (K × V)) {a : K}
    (h : (insertAll m entries)[a]? = some v) :
    (a, v) ∈ entries ∨ m[a]? = some v := by
  induction entries generalizing m with
  | nil => exact .inr h
  | cons entry rest ih =>
    change (insertAll (m.insert entry.1 entry.2) rest)[a]? = some v at h
    rcases ih _ h with hmem | hget
    · exact .inl (List.mem_cons_of_mem _ hmem)
    · rw [get_insert] at hget
      split at hget
      · next heq =>
          cases hget
          exact .inl (by rw [← heq]; exact List.mem_cons_self)
      · exact .inr hget

theorem total_insert (weight : V → Nat) (m : OrdMap K V) (k : K) (v : V) :
    total weight (m.insert k v) = total weight (m.filter fun a _ => a != k) + weight v := by
  have hperm : (m.insert k v).toList.Perm ((k, v) :: (m.filter fun a _ => a != k).toList) := by
    refine (List.perm_ext_iff_of_nodup (nodup_toList _) ?_).mpr ?_
    · refine List.nodup_cons.mpr ⟨?_, nodup_toList _⟩
      rw [mem_toList, ExtTreeMap.getElem?_filter', Option.filter_eq_some_iff]
      simp
    · rintro ⟨a, w⟩
      rw [mem_toList, get_insert, List.mem_cons, mem_toList, ExtTreeMap.getElem?_filter',
        Option.filter_eq_some_iff]
      by_cases hka : k = a
      · subst hka
        simp [eq_comm]
      · simp [hka, Ne.symm hka]
  rw [total, total, valuesAsc, valuesAsc, List.map_map, List.map_map,
    (hperm.map (weight ∘ Prod.snd)).sum_eq, List.map_cons, List.sum_cons, Nat.add_comm]
  rfl

end OrdMap

end Base
