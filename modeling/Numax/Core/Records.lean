import Numax.Core.Storage

/-!
# The store as tables of records

The runtime's part of the store, seen as fourteen tables from logical keys to
values (`Store.record`). A store is tidy if every key under a table's prefix
belongs to a logical key; the runtime only writes such keys. The lemmas say
what each write of the runtime does to each table.
-/

open Base Std

namespace Numax

variable {s : Store}

namespace Store

/-- The value of a logical key in a table. -/
def record (s : Store) (t : StoreTable) (key : String) : Option Bytes := s[tableKey t key]?

/-- Every key under a table's prefix is the key of a record. -/
def Tidy (s : Store) : Prop :=
  ∀ k ∈ s, ∀ t : StoreTable, startsWith k (asBytes t.dataPrefix) = true →
    ∃ key, k = tableKey t key

theorem record_insert (s : Store) (t u : StoreTable) (key l : String) (v : Bytes) :
    record (s.insert (tableKey t key) v) u l =
      if t = u ∧ key = l then some v else s.record u l := by
  unfold record
  rw [OrdMap.get_insert]
  simp only [tableKey_eq_iff]

theorem Tidy.insert (h : s.Tidy) (t : StoreTable) (key : String) (v : Bytes) :
    Tidy (s.insert (tableKey t key) v) := by
  intro k hk u hu
  rcases ExtTreeMap.mem_insert.mp hk with heq | hk
  · rw [Std.compare_eq_iff_eq] at heq
    subst heq
    rw [startsWith_tableKey_iff] at hu
    subst hu
    exact ⟨key, rfl⟩
  · exact h k hk u hu

theorem Tidy.eraseAll (h : s.Tidy) (keys : List Bytes) :
    Tidy (OrdMap.eraseAll s keys) := by
  intro k hk t ht
  apply h k _ t ht
  rw [ExtTreeMap.mem_iff_isSome_getElem?] at hk ⊢
  rw [OrdMap.get_eraseAll] at hk
  split at hk
  · cases hk
  · exact hk

/-- The rows of a table, as the prefix scan lists them. -/
theorem Tidy.withPrefix_eq (h : s.Tidy) (t : StoreTable) :
    ∃ rows : List (String × Bytes),
      s.withPrefix (asBytes t.dataPrefix) = rows.map (fun row => (tableKey t row.1, row.2)) ∧
      (rows.map Prod.fst).Nodup ∧
      ∀ key v, (key, v) ∈ rows ↔ s.record t key = some v := by
  -- read the logical keys off the scan
  let decode : Bytes × Bytes → String × Bytes := fun entry =>
    ((logicalKeyForPrefix entry.1 t.dataPrefix).toOption.getD "", entry.2)
  have hmem : ∀ entry ∈ s.withPrefix (asBytes t.dataPrefix),
      (tableKey t (decode entry).1, (decode entry).2) = entry ∧ s[entry.1]? = some entry.2 := by
    rintro ⟨k, v⟩ hentry
    rw [withPrefix, List.mem_filter, OrdMap.mem_toList] at hentry
    obtain ⟨hget, hpre⟩ := hentry
    obtain ⟨key, rfl⟩ := h k (ExtTreeMap.mem_iff_isSome_getElem?.mpr (by rw [hget]; rfl)) t hpre
    refine ⟨?_, hget⟩
    simp only [decode, logicalKey_tableKey]
    rfl
  have hmap : ((s.withPrefix (asBytes t.dataPrefix)).map decode).map
      (fun row => (tableKey t row.1, row.2)) = s.withPrefix (asBytes t.dataPrefix) := by
    rw [List.map_map]
    conv_rhs => rw [← List.map_id (s.withPrefix (asBytes t.dataPrefix))]
    exact List.map_congr_left fun entry hentry => (hmem entry hentry).1
  refine ⟨(s.withPrefix (asBytes t.dataPrefix)).map decode, hmap.symm, ?_, ?_⟩
  · have hnodup : ((s.withPrefix (asBytes t.dataPrefix)).map Prod.fst).Nodup :=
      ((List.filter_sublist).map _).nodup (OrdMap.toList_nodup_keys s)
    rw [← hmap, List.map_map] at hnodup
    have hcomp : (Prod.fst ∘ fun row : String × Bytes => (tableKey t row.1, row.2)) =
        tableKey t ∘ Prod.fst := rfl
    rw [hcomp, ← List.map_map] at hnodup
    exact hnodup.of_map
  · intro key v
    constructor
    · intro hrow
      obtain ⟨entry, hentry, heq⟩ := List.mem_map.mp hrow
      obtain ⟨hback, hget⟩ := hmem entry hentry
      rw [heq] at hback
      rw [← hback] at hget
      exact hget
    · intro hget
      refine List.mem_map.mpr ⟨(tableKey t key, v), ?_, ?_⟩
      · rw [withPrefix, List.mem_filter, OrdMap.mem_toList]
        exact ⟨hget, (startsWith_tableKey_iff t t key).mpr rfl⟩
      · simp only [decode, logicalKey_tableKey]
        rfl

theorem record_eraseAll (s : Store) (keys : List Bytes) (t : StoreTable) (key : String) :
    record (OrdMap.eraseAll s keys) t key =
      if tableKey t key ∈ keys then none else s.record t key := by
  unfold record
  rw [OrdMap.get_eraseAll]
  by_cases h : tableKey t key ∈ keys <;> simp [h]

end Store

open Store

variable (serde : Serde)

/-! ## CRDT entries -/

/-- The value a CRDT entry has in each of its two tables. -/
def stateValue (k : CrdtKind) : CrdtStoreNamespace → k.State → Bytes
  | .state, st => asBytes ((serde.state k).toJson st)
  | .materialized, st => render serde k st

theorem insertAll_stateRecords (s : Store) (k : CrdtKind) (key : String) (st : k.State) :
    OrdMap.insertAll s (stateRecords serde k key st) =
      (s.insert (tableKey (k.table .state) key) (stateValue serde k .state st)).insert
        (tableKey (k.table .materialized) key) (stateValue serde k .materialized st) := rfl

/-- Writing an entry sets its two records. -/
theorem record_stateRecords (s : Store) (k : CrdtKind) (key : String) (st : k.State)
    (ns : CrdtStoreNamespace) (l : String) :
    record (OrdMap.insertAll s (stateRecords serde k key st)) (k.table ns) l =
      if key = l then some (stateValue serde k ns st) else s.record (k.table ns) l := by
  have htables : k.table .materialized ≠ k.table .state := fun h =>
    nomatch (CrdtKind.table_inj h).2
  rw [insertAll_stateRecords, record_insert, record_insert]
  cases ns with
  | state => simp [htables]
  | materialized =>
    by_cases hkey : key = l
    · simp [hkey]
    · simp [hkey]

variable {t : StoreTable}

/-- … and leaves the other tables alone. -/
theorem record_stateRecords_of_ne (s : Store) (k : CrdtKind) (key : String) (st : k.State)
    (ht : ∀ ns, k.table ns ≠ t) (l : String) :
    record (OrdMap.insertAll s (stateRecords serde k key st)) t l = s.record t l := by
  rw [insertAll_stateRecords, record_insert, record_insert, if_neg fun h => ht _ h.1,
    if_neg fun h => ht _ h.1]

theorem tidy_stateRecords (h : s.Tidy) (k : CrdtKind) (key : String) (st : k.State) :
    Tidy (OrdMap.insertAll s (stateRecords serde k key st)) := by
  rw [insertAll_stateRecords]
  exact (h.insert _ _ _).insert _ _ _

/-- Writing entries one after the other. -/
def entryRecords (k : CrdtKind) (entries : List (String × k.State)) : List (Bytes × Bytes) :=
  entries.flatMap fun entry => stateRecords serde k entry.1 entry.2

theorem insertAll_entryRecords_cons (s : Store) (k : CrdtKind) (entry : String × k.State)
    (rest : List (String × k.State)) :
    OrdMap.insertAll s (entryRecords serde k (entry :: rest)) =
      OrdMap.insertAll (OrdMap.insertAll s (stateRecords serde k entry.1 entry.2))
        (entryRecords serde k rest) := by
  rw [entryRecords, List.flatMap_cons, OrdMap.insertAll_append]
  rfl

theorem record_entryRecords (k : CrdtKind) (entries : List (String × k.State))
    (hnodup : (entries.map Prod.fst).Nodup) (s : Store) (ns : CrdtStoreNamespace) (l : String) :
    record (OrdMap.insertAll s (entryRecords serde k entries)) (k.table ns) l =
      (((entries.find? fun entry => entry.1 = l).map Prod.snd).map (stateValue serde k ns)).or
        (s.record (k.table ns) l) := by
  induction entries generalizing s with
  | nil => rfl
  | cons entry rest ih =>
    rw [List.map_cons, List.nodup_cons] at hnodup
    rw [insertAll_entryRecords_cons, ih hnodup.2, record_stateRecords]
    by_cases hkey : entry.1 = l
    · -- the entry is written once, so the later ones do not touch it
      have hnone : rest.find? (fun e => e.1 = l) = none := by
        rw [List.find?_eq_none]
        intro e he heq
        exact hnodup.1 (hkey ▸ List.mem_map.mpr ⟨e, he, by simpa using heq⟩)
      simp [hkey, hnone]
    · simp [hkey]

theorem record_entryRecords_of_ne (k : CrdtKind) (entries : List (String × k.State)) (s : Store)
    (ht : ∀ ns, k.table ns ≠ t) (l : String) :
    record (OrdMap.insertAll s (entryRecords serde k entries)) t l = s.record t l := by
  induction entries generalizing s with
  | nil => rfl
  | cons entry rest ih =>
    rw [insertAll_entryRecords_cons, ih, record_stateRecords_of_ne serde _ _ _ _ ht]

theorem tidy_entryRecords (h : s.Tidy) (k : CrdtKind) (entries : List (String × k.State)) :
    Tidy (OrdMap.insertAll s (entryRecords serde k entries)) := by
  induction entries generalizing s with
  | nil => exact h
  | cons entry rest ih =>
    rw [insertAll_entryRecords_cons]
    exact ih (tidy_stateRecords serde h k _ _)

/-- The changed entries of a kind are written to its two tables. -/
theorem record_changedRecords (s : Store) (k : CrdtKind) (updates : OrdMap String k.State)
    (ns : CrdtStoreNamespace) (l : String) :
    record (OrdMap.insertAll s (changedRecords serde k updates)) (k.table ns) l =
      ((updates[l]?).map (stateValue serde k ns)).or (s.record (k.table ns) l) := by
  have h := record_entryRecords serde k updates.toList (OrdMap.toList_nodup_keys updates) s ns l
  rw [OrdMap.find_toList] at h
  exact h

/-- The changed entries of the given kinds. -/
def kindRecords (updates : Registries) (kinds : List CrdtKind) : List (Bytes × Bytes) :=
  kinds.flatMap fun k => changedRecords serde k (updates.get k)

theorem insertAll_kindRecords_cons (s : Store) (updates : Registries) (k : CrdtKind)
    (rest : List CrdtKind) :
    OrdMap.insertAll s (kindRecords serde updates (k :: rest)) =
      OrdMap.insertAll (OrdMap.insertAll s (changedRecords serde k (updates.get k)))
        (kindRecords serde updates rest) := by
  rw [kindRecords, List.flatMap_cons, OrdMap.insertAll_append]
  rfl

theorem record_kindRecords_of_ne (updates : Registries) (kinds : List CrdtKind)
    (ht : ∀ k ∈ kinds, ∀ ns, CrdtKind.table k ns ≠ t) (s : Store) (l : String) :
    record (OrdMap.insertAll s (kindRecords serde updates kinds)) t l = s.record t l := by
  induction kinds generalizing s with
  | nil => rfl
  | cons k rest ih =>
    rw [insertAll_kindRecords_cons, ih fun k' hk' => ht k' (List.mem_cons_of_mem _ hk')]
    exact record_entryRecords_of_ne serde k _ s (ht k List.mem_cons_self) l

theorem record_kindRecords (updates : Registries) (k : CrdtKind) (kinds : List CrdtKind)
    (hnodup : kinds.Nodup) (hk : k ∈ kinds) (s : Store) (ns : CrdtStoreNamespace) (l : String) :
    record (OrdMap.insertAll s (kindRecords serde updates kinds)) (k.table ns) l =
      (((updates.get k)[l]?).map (stateValue serde k ns)).or (s.record (k.table ns) l) := by
  induction kinds generalizing s with
  | nil => cases hk
  | cons k' rest ih =>
    rw [List.nodup_cons] at hnodup
    rw [insertAll_kindRecords_cons]
    rcases List.mem_cons.mp hk with rfl | hrest
    · rw [record_kindRecords_of_ne serde updates rest, record_changedRecords]
      rintro k'' hk'' ns' htable
      exact hnodup.1 ((CrdtKind.table_inj htable).1 ▸ hk'')
    · rw [ih hnodup.2 hrest]
      congr 1
      refine record_entryRecords_of_ne serde k' _ s ?_ l
      rintro ns' htable
      exact hnodup.1 ((CrdtKind.table_inj htable).1 ▸ hrest)

theorem tidy_kindRecords (updates : Registries) (kinds : List CrdtKind) (h : s.Tidy) :
    Tidy (OrdMap.insertAll s (kindRecords serde updates kinds)) := by
  induction kinds generalizing s with
  | nil => exact h
  | cons k rest ih =>
    rw [insertAll_kindRecords_cons]
    exact ih (tidy_entryRecords serde h k _)

theorem updateSets_eq (updates : Registries) :
    updateSets serde updates =
      kindRecords serde updates [.gcounter, .pncounter, .lwwRegister, .lwwMap, .orset, .rga] := by
  simp [updateSets, kindRecords, Registries.get]

/-- A remote batch writes the changed entries of every kind. -/
theorem record_updateSets (s : Store) (updates : Registries) (k : CrdtKind)
    (ns : CrdtStoreNamespace) (l : String) :
    record (OrdMap.insertAll s (updateSets serde updates)) (k.table ns) l =
      (((updates.get k)[l]?).map (stateValue serde k ns)).or (s.record (k.table ns) l) := by
  rw [updateSets_eq]
  exact record_kindRecords serde updates k _ (by decide) (by cases k <;> decide) s ns l

theorem record_updateSets_of_ne (s : Store) (updates : Registries)
    (ht : ∀ (k : CrdtKind) (ns : CrdtStoreNamespace), k.table ns ≠ t) (l : String) :
    record (OrdMap.insertAll s (updateSets serde updates)) t l = s.record t l := by
  rw [updateSets_eq]
  exact record_kindRecords_of_ne serde updates _ (fun k _ => ht k) s l

/-! ## Accepted operations -/

theorem insertAll_planSets_cons (s : Store) (plan : OpPersistencePlan)
    (rest : List OpPersistencePlan) :
    OrdMap.insertAll s (planSets serde (plan :: rest)) =
      OrdMap.insertAll
        ((s.insert (tableKey .seenOps plan.op.id) (beBytes 8 plan.seenSequence.toNat)).insert
          (tableKey .opLog plan.op.id)
          (encodeDurableOpLogValue serde plan.opLogSequence plan.op))
        (planSets serde rest) := by
  rw [planSets, List.flatMap_cons, OrdMap.insertAll_append]
  rfl

/-- The ids of the operations of a batch. -/
def planIds (plans : List OpPersistencePlan) : List String := plans.map fun plan => plan.op.id

/-- Operations outside the batch keep their records. -/
theorem record_planSets_of_not_mem (plans : List OpPersistencePlan) (s : Store) (t : StoreTable)
    {id : String} (hid : id ∉ planIds plans) :
    record (OrdMap.insertAll s (planSets serde plans)) t id = s.record t id := by
  induction plans generalizing s with
  | nil => rfl
  | cons plan rest ih =>
    rw [planIds, List.map_cons, List.mem_cons, not_or] at hid
    rw [insertAll_planSets_cons, ih _ hid.2, record_insert, record_insert,
      if_neg fun h => hid.1 h.2.symm, if_neg fun h => hid.1 h.2.symm]

/-- A batch of operations touches only their two tables. -/
theorem record_planSets_of_ne (plans : List OpPersistencePlan) (s : Store) (hseen : t ≠ .seenOps)
    (hlog : t ≠ .opLog) (key : String) :
    record (OrdMap.insertAll s (planSets serde plans)) t key = s.record t key := by
  induction plans generalizing s with
  | nil => rfl
  | cons plan rest ih =>
    rw [insertAll_planSets_cons, ih, record_insert, record_insert,
      if_neg fun h => hlog h.1.symm, if_neg fun h => hseen h.1.symm]

/-- An accepted operation gets both its records. -/
theorem record_planSets_of_mem (plans : List OpPersistencePlan) (hnodup : (planIds plans).Nodup)
    (s : Store) {plan : OpPersistencePlan} (hplan : plan ∈ plans) :
    record (OrdMap.insertAll s (planSets serde plans)) .seenOps plan.op.id =
        some (beBytes 8 plan.seenSequence.toNat) ∧
      record (OrdMap.insertAll s (planSets serde plans)) .opLog plan.op.id =
        some (encodeDurableOpLogValue serde plan.opLogSequence plan.op) := by
  induction plans generalizing s with
  | nil => cases hplan
  | cons first rest ih =>
    rw [planIds, List.map_cons, List.nodup_cons] at hnodup
    rw [insertAll_planSets_cons]
    rcases List.mem_cons.mp hplan with rfl | hrest
    · rw [record_planSets_of_not_mem serde rest _ _ hnodup.1,
        record_planSets_of_not_mem serde rest _ _ hnodup.1]
      simp [record_insert]
    · exact ih hnodup.2 _ hrest

theorem tidy_planSets (plans : List OpPersistencePlan) (h : s.Tidy) :
    Tidy (OrdMap.insertAll s (planSets serde plans)) := by
  induction plans generalizing s with
  | nil => exact h
  | cons plan rest ih =>
    rw [insertAll_planSets_cons]
    exact ih ((h.insert _ _ _).insert _ _ _)

end Numax
