import Numax.Core.Hydrate
import Numax.Core.Mirror

/-!
# Hydrating a mirrored store

Hydration inverts the bookkeeping: from a store that mirrors a node it rebuilds
the node's registries, windows and counters (`Mirrors.hydrate`). Sorting the
records of a window by their sequences restores the order of acceptance, and
left-over log records, being the oldest, are exactly what is pruned.
-/

open Base Std

namespace Numax

open Store

/-! ## Sequenced records -/

section Sequenced

variable {α : Type}

theorem collectSequenced_eq (read : Bytes × Bytes → Option (UInt64 × α))
    (entries : List (Bytes × Bytes)) :
    collectSequenced read entries =
      (entries.filterMap read,
        (entries.filterMap read).foldl (fun n p => max n (satAdd p.1 1)) 0) := by
  induction entries using List.reverseRecOn with
  | nil => rfl
  | append_singleton entries entry ih =>
    rw [collectSequenced, List.foldl_append, ← collectSequenced, ih, List.foldl_cons,
      List.foldl_nil, List.filterMap_append]
    cases hread : read entry with
    | none => simp [hread]
    | some p => simp [hread, List.foldl_append]

/-- The next free sequence is one beyond the largest. -/
theorem foldl_max_eq {l : List (UInt64 × α)} {n : UInt64} {N : Nat} (hmax : N ≤ u64Max)
    (hle : ∀ p ∈ l, p.1.toNat + 1 ≤ N) (hn : n.toNat ≤ N)
    (hreach : n.toNat = N ∨ ∃ p ∈ l, p.1.toNat + 1 = N) :
    (l.foldl (fun n p => max n (satAdd p.1 1)) n).toNat = N := by
  induction l generalizing n with
  | nil => exact hreach.resolve_right (by simp)
  | cons p rest ih =>
    have hone : (1 : UInt64).toNat = 1 := rfl
    have hp := hle p List.mem_cons_self
    have hsucc : (satAdd p.1 1).toNat = p.1.toNat + 1 := by
      rw [satAdd_toNat, hone]
      omega
    rw [List.foldl_cons]
    apply ih (fun q hq => hle q (List.mem_cons_of_mem _ hq))
    · rw [toNat_max, hsucc]
      omega
    · rw [toNat_max, hsucc]
      rcases hreach with h | ⟨q, hq, h⟩
      · exact .inl (by omega)
      · rcases List.mem_cons.mp hq with rfl | hq
        · exact .inl (by omega)
        · exact .inr ⟨q, hq, h⟩

/-- Sorting restores a list with increasing sequences. -/
theorem insertionSort_eq {l m : List (UInt64 × α)} (hperm : l.Perm m)
    (hinc : m.Pairwise fun a b => a.1.toNat < b.1.toNat) : l.insertionSort bySequence = m := by
  have htotal : Std.Total (bySequence (α := α)) := ⟨fun a b => Nat.le_total _ _⟩
  have htrans : IsTrans (UInt64 × α) bySequence := ⟨fun _ _ _ => Nat.le_trans⟩
  refine List.Perm.eq_of_pairwise ?_ (List.pairwise_insertionSort bySequence l)
    (hinc.imp fun h => Nat.le_of_lt h) ((List.perm_insertionSort bySequence l).trans hperm)
  intro a b ha hb hab hba
  have ham : a ∈ m := ((List.perm_insertionSort bySequence l).trans hperm).mem_iff.mp ha
  by_contra hne
  have hdistinct : m.Pairwise fun a b => a.1.toNat ≠ b.1.toNat := hinc.imp fun h => Nat.ne_of_lt h
  have hsymm : Std.Symm fun a b : UInt64 × α => a.1.toNat ≠ b.1.toNat := ⟨fun _ _ h => h.symm⟩
  exact hdistinct.forall ham hb hne (Nat.le_antisymm hab hba)

end Sequenced

variable {t : StoreTable}

/-- The scan of a table, as a list of its rows. -/
theorem HoldsRows.scan_perm {store : Store} {value : Op × Nat → Bytes} {rows : List (Op × Nat)}
    (htidy : store.Tidy) (h : HoldsRows store t value rows)
    (hnodup : (rows.map fun p => p.1.id).Nodup) :
    (store.withPrefix (asBytes t.dataPrefix)).Perm
      (rows.map fun p => (tableKey t p.1.id, value p)) := by
  obtain ⟨listed, hscan, hlisted, hmem⟩ := htidy.withPrefix_eq t
  rw [hscan]
  have hperm : listed.Perm (rows.map fun p => (p.1.id, value p)) := by
    refine (List.perm_ext_iff_of_nodup hlisted.of_map ?_).mpr fun row => ?_
    · refine List.Nodup.of_map Prod.fst ?_
      rw [List.map_map]
      exact hnodup
    · obtain ⟨id, v⟩ := row
      rw [hmem, h id v, List.mem_map]
      constructor
      · rintro ⟨p, hp, rfl, rfl⟩
        exact ⟨p, hp, rfl⟩
      · rintro ⟨p, hp, heq⟩
        cases heq
        exact ⟨p, hp, rfl, rfl⟩
  have hmap := hperm.map fun row : String × Bytes => (tableKey t row.1, row.2)
  rw [List.map_map] at hmap
  exact hmap

/-- The records of increasing rows are collected and sorted back into the rows. -/
theorem HoldsRows.collect {α : Type} (item : Op → α) {store : Store} {value : Op × Nat → Bytes}
    {rows : List (Op × Nat)} {acc : List Op} (htidy : store.Tidy) (h : HoldsRows store t value rows)
    (hnodup : (rows.map fun p => p.1.id).Nodup) (hinc : rows.Pairwise fun a b => a.2 < b.2)
    (hmax : acc.length ≤ u64Max) (hbound : ∀ p ∈ rows, p.2 < acc.length)
    (hlast : acc ≠ [] → ∃ p ∈ rows, p.2 + 1 = acc.length)
    {read : Bytes × Bytes → Option (UInt64 × α)}
    (hread : ∀ p ∈ rows, read (tableKey t p.1.id, value p) = some (UInt64.ofNat p.2, item p.1)) :
    (collectSequenced read (store.withPrefix (asBytes t.dataPrefix))).1.insertionSort bySequence =
        rows.map (fun p => (UInt64.ofNat p.2, item p.1)) ∧
      (collectSequenced read (store.withPrefix (asBytes t.dataPrefix))).2.toNat = acc.length := by
  have hnumber : ∀ p ∈ rows, (UInt64.ofNat p.2).toNat = p.2 := by
    intro p hp
    have hlt := hbound p hp
    unfold u64Max at hmax
    exact UInt64.toNat_ofNat_of_lt' (by simp only [UInt64.size]; omega)
  have hperm : ((store.withPrefix (asBytes t.dataPrefix)).filterMap read).Perm
      (rows.map fun p => (UInt64.ofNat p.2, item p.1)) := by
    refine ((h.scan_perm htidy hnodup).filterMap read).trans ?_
    rw [List.filterMap_map]
    have hsome : rows.filterMap (read ∘ fun p => (tableKey t p.1.id, value p)) =
        rows.filterMap (some ∘ fun p => (UInt64.ofNat p.2, item p.1)) :=
      List.filterMap_congr fun p hp => hread p hp
    rw [hsome, List.filterMap_eq_map]
  rw [collectSequenced_eq]
  refine ⟨insertionSort_eq hperm ?_, foldl_max_eq hmax ?_ (Nat.zero_le _) ?_⟩
  · rw [List.pairwise_map]
    refine hinc.imp_of_mem ?_
    intro a b ha hb hlt
    rw [hnumber a ha, hnumber b hb]
    exact hlt
  · intro q hq
    obtain ⟨p, hp, rfl⟩ := List.mem_map.mp (hperm.mem_iff.mp hq)
    rw [hnumber p hp]
    exact hbound p hp
  · by_cases hempty : acc = []
    · exact .inl (by rw [hempty]; rfl)
    · obtain ⟨p, hp, hsucc⟩ := hlast hempty
      refine .inr ⟨_, hperm.mem_iff.mpr (List.mem_map_of_mem hp), ?_⟩
      rw [hnumber p hp]
      exact hsucc

variable {limit : Nat}

/-- A window of positive size contains the last accepted operation. -/
theorem exists_last_of_window {acc : List Op} (hlimit : 1 ≤ limit) (hne : acc ≠ []) :
    ∃ p ∈ acc.zipIdx.rtake limit, p.2 + 1 = acc.length := by
  obtain ⟨init, last, rfl⟩ := List.eq_nil_or_concat acc |>.resolve_left hne
  refine ⟨(last, init.length), ?_, by simp⟩
  rw [List.concat_eq_append, List.zipIdx_append, rtake_append_of_length_le (by simpa using hlimit)]
  simp

theorem ofBe_beBytes_of_le {n : Nat} (h : n ≤ u64Max) : ofBe (beBytes 8 n) = n := by
  unfold u64Max at h
  exact ofBe_beBytes_of_lt (by omega)

/-! ## Seen ids -/

theorem parseSeenOpSequence_beBytes {n : Nat} (h : n ≤ u64Max) :
    parseSeenOpSequence (beBytes 8 n) = some (UInt64.ofNat n) := by
  rw [parseSeenOpSequence, if_pos (length_beBytes 8 n), ofBe_beBytes_of_le h]

theorem SeenOps.evictLoop_of_length_le (ids : OrdSet String) {order : List String}
    (h : order.length ≤ limit) (evicted : List String) :
    SeenOps.evictLoop limit ids order evicted = (ids, order, evicted) := by
  cases order with
  | nil => rfl
  | cons front rest => rw [SeenOps.evictLoop, if_neg (Nat.not_lt.mpr h)]

/-- Replaying distinct ids within the limit evicts nothing. -/
theorem replaySeen_eq {seen : SeenOps} {opIds : List String} (hseen : seen.Consistent)
    (hnodup : (seen.order ++ opIds).Nodup) (hlen : (seen.order ++ opIds).length ≤ seen.limit) :
    replaySeen seen opIds =
      ({ ids := opIds.foldl (fun ids opId => ids.insert opId) seen.ids
         order := seen.order ++ opIds
         limit := seen.limit }, []) := by
  -- the window stays consistent on the way
  suffices h : replaySeen seen opIds =
        ({ ids := opIds.foldl (fun ids opId => ids.insert opId) seen.ids
           order := seen.order ++ opIds
           limit := seen.limit }, []) ∧
      SeenOps.Consistent
        { ids := opIds.foldl (fun ids opId => ids.insert opId) seen.ids
          order := seen.order ++ opIds
          limit := seen.limit } by
    exact h.1
  induction opIds using List.reverseRecOn with
  | nil =>
    rw [List.append_nil]
    exact ⟨rfl, hseen⟩
  | append_singleton opIds opId ih =>
    rw [← List.append_assoc] at hnodup hlen ⊢
    obtain ⟨hreplay, hconsistent⟩ :=
      ih (hnodup.sublist (List.sublist_append_left _ _)) (Nat.le_trans (by simp) hlen)
    rw [List.foldl_append, List.foldl_cons, List.foldl_nil]
    generalize opIds.foldl (fun ids opId => ids.insert opId) seen.ids = ids
      at hreplay hconsistent ⊢
    have hnew : ¬ ids.contains opId = true := by
      rw [ExtTreeSet.contains_iff_mem]
      exact fun hmem => (List.nodup_append.mp hnodup).2.2 _ ((hconsistent opId).mp hmem) _
        List.mem_cons_self rfl
    have hinsert : SeenOps.insert ⟨ids, seen.order ++ opIds, seen.limit⟩ opId =
        (⟨ids.insert opId, seen.order ++ opIds ++ [opId], seen.limit⟩, .inserted []) := by
      rw [SeenOps.insert, if_neg hnew, SeenOps.evictLoop_of_length_le _ hlen]
    constructor
    · rw [replaySeen, List.foldl_append, ← replaySeen, hreplay, List.foldl_cons, List.foldl_nil]
      simp only [hinsert, List.append_nil]
    · intro id
      simp only [ExtTreeSet.mem_insert, Std.compare_eq_iff_eq, List.mem_append,
        List.mem_singleton, (hconsistent id)]
      tauto

section Mirrored

variable {serde : Serde} {acc : List Op} {left : List (Op × Nat)} {s : SyncState} {store : Store}

theorem readSeenOp_row (p : Op × Nat) (h : p.2 ≤ u64Max) :
    readSeenOp (tableKey .seenOps p.1.id, seenValue p) = some (UInt64.ofNat p.2, p.1.id) := by
  have hkey : logicalKeyForPrefix (tableKey .seenOps p.1.id) seenOpStorePrefix = .ok p.1.id :=
    logicalKey_tableKey .seenOps p.1.id
  rw [readSeenOp, hkey]
  simp only [seenValue, parseSeenOpSequence_beBytes h, Option.map_some]

/-- The seen window is rebuilt from its records. -/
theorem Mirrors.hydrateSeenOps (h : Mirrors serde acc left s store) (ht : Tracks acc s)
    (hmax : acc.length ≤ u64Max) :
    Numax.hydrateSeenOps none store s.seenOps.limit =
      .ok ((s.seenOps, s.seenOpsNextSequence), store) := by
  have hwindow : (acc.zipIdx.rtake s.seenOps.limit).map (fun p => p.1.id) = s.seenOps.order := by
    rw [ht.order, ← map_rtake]
    exact map_id_logWindow acc s.seenOps.limit
  have hlimit : 1 ≤ s.seenOps.limit := ht.logLimit_pos.trans ht.logLimit_le
  have hbound : ∀ p ∈ acc.zipIdx.rtake s.seenOps.limit, p.2 < acc.length :=
    fun p hp => snd_lt_of_mem_logWindow hp
  obtain ⟨hsort, hnext⟩ := h.seen.collect Op.id h.tidy (hwindow ▸ ht.valid.nodup)
    ((zipIdx_pairwise acc 0).sublist (rtake_suffix _ _).sublist) hmax hbound
    (exists_last_of_window hlimit)
    (fun p hp => readSeenOp_row p (Nat.le_of_lt (Nat.lt_of_lt_of_le (hbound p hp) hmax)))
  -- the window is not longer than its limit, so that nothing is evicted
  have hseen : replaySeen (SeenOps.new (normalizeSeenOpsLimit s.seenOps.limit)) s.seenOps.order =
      (s.seenOps, []) := by
    have hnew : (SeenOps.new (normalizeSeenOpsLimit s.seenOps.limit)).limit = s.seenOps.limit := by
      change max (max s.seenOps.limit 1) 1 = _
      omega
    rw [replaySeen_eq (by intro id; simp [SeenOps.new])
      (by simpa [SeenOps.new] using ht.valid.nodup)
      (by rw [hnew]; simpa [SeenOps.new] using ht.valid.length_le), hnew]
    have hids : s.seenOps.order.foldl (fun ids opId => ids.insert opId)
        (SeenOps.new (normalizeSeenOpsLimit s.seenOps.limit)).ids = s.seenOps.ids := by
      apply ExtTreeSet.ext_mem
      intro id
      rw [mem_foldl_insert, ht.valid.consistent id]
      simp [SeenOps.new]
    rw [hids]
    rfl
  have hnextEq : (collectSequenced readSeenOp
      (store.withPrefix (asBytes StoreTable.seenOps.dataPrefix))).2 = s.seenOpsNextSequence :=
    UInt64.toNat_inj.mp (hnext.trans ht.nextSeen.symm)
  have horder : ((collectSequenced readSeenOp
      (store.withPrefix (asBytes StoreTable.seenOps.dataPrefix))).1.insertionSort
        bySequence).map Prod.snd = s.seenOps.order := by
    rw [hsort, List.map_map]
    exact hwindow
  have hreplay := horder ▸ hseen
  have hscan : store.scanPrefix none (asBytes seenOpStorePrefix) =
      .ok (store.withPrefix (asBytes StoreTable.seenOps.dataPrefix)) := rfl
  simp only [Numax.hydrateSeenOps, hscan, bind, Except.bind, hnextEq, hreplay]
  rfl

/-! ## Operation log -/

theorem readOpLog_row (serde : Serde) (p : Op × Nat) (h : p.2 ≤ u64Max) :
    readOpLog serde (tableKey .opLog p.1.id, logValue serde p) =
      some (UInt64.ofNat p.2, p.1) := by
  have hkey : logicalKeyForPrefix (tableKey .opLog p.1.id) opLogStorePrefix = .ok p.1.id :=
    logicalKey_tableKey .opLog p.1.id
  have hlen := length_beBytes 8 p.2
  have hparse : parseDurableOpLogValue serde (logValue serde p) =
      some (UInt64.ofNat p.2, p.1) := by
    rw [parseDurableOpLogValue, logValue, if_neg (by simp [hlen]), List.drop_left' hlen,
      List.take_left' hlen, serde.op.roundTrip, ofBe_beBytes_of_le h]
  simp only [readOpLog, hkey, hparse, ne_eq, not_true, if_false]

/-- Pruning the whole durable log drops exactly the left-over records. -/
theorem Leftover.prune (h : Leftover acc limit left) (hlimit : 1 ≤ limit) :
    pruneOpLogAndReturnEvicted ((left ++ logWindow acc limit).map Prod.fst) limit =
      (acc.rtake limit, left.map Prod.fst) := by
  have hwindow : (logWindow acc limit).map Prod.fst = acc.rtake limit :=
    map_fst_rtake_zipIdx acc limit
  have hlen : (acc.rtake limit).length = min limit acc.length := length_rtake _ _
  rw [List.map_append, hwindow, pruneOpLogAndReturnEvicted]
  simp only [normalizeOpLogLimit_of_pos hlimit]
  rw [List.length_append, List.length_map]
  by_cases hleft : left = []
  · subst hleft
    rw [if_neg (by rw [List.length_nil]; omega)]
    rfl
  · have hfull := h.full hleft
    have hpos := List.length_pos_iff.mpr hleft
    have hcount : left.length + (acc.rtake limit).length - limit = (left.map Prod.fst).length := by
      rw [List.length_map]
      omega
    rw [if_pos (by omega), hcount, List.drop_left, List.take_left]

/-- Deleting the left-over records leaves the log of the memory. -/
theorem Mirrors.pruned (h : Mirrors serde acc left s store)
    (hleft : Leftover acc s.opLogLimit left) :
    Mirrors serde acc [] s
      (OrdMap.eraseAll store (collectOpLogDeleteKeys (left.map Prod.fst))) := by
  have hrecord : ∀ t key, record (OrdMap.eraseAll store
      (collectOpLogDeleteKeys (left.map Prod.fst))) t key =
        if t = .opLog ∧ key ∈ (left.map Prod.fst).map Op.id then none else store.record t key := by
    intro t key
    rw [record_eraseAll]
    simp only [mem_collectOpLogDeleteKeys]
  have hother : ∀ t key, t ≠ .opLog → record (OrdMap.eraseAll store
      (collectOpLogDeleteKeys (left.map Prod.fst))) t key = store.record t key := by
    intro t key ht
    rw [hrecord, if_neg fun h => ht h.1]
  refine ⟨h.tidy.eraseAll _, ?_, ?_, ?_⟩
  · intro k ns key
    rw [hother _ _ (table_ne_opLog k ns)]
    exact h.entry k ns key
  · intro id v
    rw [hother _ _ (by decide)]
    exact h.seen id v
  · have hgone : ∀ id, record (OrdMap.eraseAll store
        (collectOpLogDeleteKeys (left.map Prod.fst))) .opLog id =
          if id ∈ left.map (fun p => p.1.id) then none else store.record .opLog id := by
      intro id
      rw [hrecord, List.map_map]
      simp only [true_and]
      rfl
    refine (h.log.delete hgone).congr fun p => ?_
    have hdistinct := hleft.nodup
    rw [List.map_append] at hdistinct
    rw [List.mem_filter, List.mem_append, List.nil_append]
    constructor
    · rintro ⟨hp | hp, hkept⟩
      · exact absurd (List.mem_map_of_mem hp) (of_decide_eq_true hkept)
      · exact hp
    · intro hp
      refine ⟨.inr hp, decide_eq_true fun hmem => ?_⟩
      exact (List.nodup_append.mp hdistinct).2.2 _ hmem _ (List.mem_map_of_mem hp) rfl

/-- The log is rebuilt from its records; the left-over ones are deleted. -/
theorem Mirrors.hydrateOpLog (h : Mirrors serde acc left s store) (ht : Tracks acc s)
    (hleft : Leftover acc s.opLogLimit left) (hmax : acc.length ≤ u64Max) :
    ∃ store', Numax.hydrateOpLog serde none store s.opLogLimit =
        .ok ((s.opLog, s.opLogNextSequence), store') ∧
      Mirrors serde acc [] s store' := by
  have hbound : ∀ p ∈ left ++ logWindow acc s.opLogLimit, p.2 < acc.length := by
    intro p hp
    rcases List.mem_append.mp hp with hp | hp
    · exact hleft.bound p hp
    · exact snd_lt_of_mem_logWindow hp
  have hlast (hne : acc ≠ []) : ∃ p ∈ left ++ logWindow acc s.opLogLimit, p.2 + 1 = acc.length := by
    obtain ⟨p, hp, hsucc⟩ := exists_last_of_window ht.logLimit_pos hne
    exact ⟨p, List.mem_append_right _ hp, hsucc⟩
  obtain ⟨hsort, hnext⟩ := h.log.collect id h.tidy hleft.nodup hleft.increasing hmax hbound
    hlast
    (fun p hp => readOpLog_row serde p (Nat.le_of_lt (Nat.lt_of_lt_of_le (hbound p hp) hmax)))
  have hnextEq : (collectSequenced (readOpLog serde)
      (store.withPrefix (asBytes StoreTable.opLog.dataPrefix))).2 = s.opLogNextSequence :=
    UInt64.toNat_inj.mp (hnext.trans ht.nextLog.symm)
  have hprune : pruneOpLogAndReturnEvicted (((collectSequenced (readOpLog serde)
      (store.withPrefix (asBytes StoreTable.opLog.dataPrefix))).1.insertionSort bySequence).map
        Prod.snd) s.opLogLimit = (s.opLog, left.map Prod.fst) := by
    rw [hsort, List.map_map, ht.log, ← hleft.prune ht.logLimit_pos]
    rfl
  have hscan : store.scanPrefix none (asBytes opLogStorePrefix) =
      .ok (store.withPrefix (asBytes StoreTable.opLog.dataPrefix)) := rfl
  have hdelete : persistOpLogEvictions none store (left.map Prod.fst) =
      .ok (OrdMap.eraseAll store (collectOpLogDeleteKeys (left.map Prod.fst))) := by
    cases left <;> rfl
  refine ⟨_, ?_, h.pruned hleft⟩
  simp only [Numax.hydrateOpLog, hscan, bind, Except.bind, hnextEq,
    normalizeOpLogLimit_of_pos ht.logLimit_pos, hprune, hdelete]
  rfl

/-! ## Registries -/

theorem parseDurableState_stateValue (serde : Serde) (k : CrdtKind) (st : k.State) :
    parseDurableState serde k (stateValue serde k .state st) = .ok st := by
  simp only [parseDurableState, stateValue, fromUtf8_asBytes, (serde.state k).roundTrip]

/-- Setting a record to the value it has. -/
theorem insert_record_self {key : String} {v : Bytes} (h : store.record t key = some v) :
    store.insert (tableKey t key) v = store := by
  apply ExtTreeMap.ext_getElem?
  intro a
  rw [OrdMap.get_insert]
  split
  · next heq =>
      subst heq
      exact h.symm
  · rfl

/-- One state record of a mirrored entry: the entry is published and the store
stays as it is, since its materialized record is already the rendering. -/
theorem Mirrors.hydrateStateRecord (h : Mirrors serde acc left s store) {k : CrdtKind}
    {key : String} {st : k.State} (hentry : (s.registries.get k)[key]? = some st)
    (registry : OrdMap String k.State) :
    Numax.hydrateStateRecord serde none k (registry, store)
        (tableKey (k.table .state) key, stateValue serde k .state st) =
      .ok (registry.insert key st, store) := by
  have hrendered : store.record (k.table .materialized) key = some (render serde k st) := by
    rw [h.entry, hentry]
    rfl
  have hset : store.set none (crdtStoreKey k .materialized key) (render serde k st) = .ok store :=
    congrArg Except.ok (insert_record_self hrendered)
  simp only [Numax.hydrateStateRecord, logicalKey_tableKey, parseDurableState_stateValue, hset]
  rfl

/-- A registry is rebuilt from its state records, and the store is unchanged. -/
theorem Mirrors.hydrateDurableState (h : Mirrors serde acc left s store) (k : CrdtKind) :
    Numax.hydrateDurableState serde none store k ∅ = .ok (s.registries.get k, store) := by
  obtain ⟨rows, hscan, -, hmem⟩ := h.tidy.withPrefix_eq (k.table .state)
  have hentry : ∀ row ∈ rows, ∃ st, (s.registries.get k)[row.1]? = some st ∧
      row.2 = stateValue serde k .state st := by
    rintro ⟨key, v⟩ hrow
    rw [hmem, h.entry] at hrow
    obtain ⟨st, hst, rfl⟩ := Option.map_eq_some_iff.mp hrow
    exact ⟨st, hst, rfl⟩
  -- along the scan, the registry holds the entries of the rows read so far
  have hfold : ∀ (rows : List (String × Bytes)) (registry : OrdMap String k.State),
      (∀ row ∈ rows, ∃ st, (s.registries.get k)[row.1]? = some st ∧
        row.2 = stateValue serde k .state st) →
      ∃ registry', (rows.map fun row => (tableKey (k.table .state) row.1, row.2)).foldlM
          (Numax.hydrateStateRecord serde none k) (registry, store) = .ok (registry', store) ∧
        ∀ key, registry'[key]? =
          if key ∈ rows.map Prod.fst then (s.registries.get k)[key]? else registry[key]? := by
    intro rows
    induction rows with
    | nil => exact fun registry _ => ⟨registry, rfl, fun key => by simp⟩
    | cons row rest ih =>
      intro registry hrows
      obtain ⟨st, hst, hvalue⟩ := hrows row List.mem_cons_self
      obtain ⟨registry', hrun, hget⟩ :=
        ih (registry.insert row.1 st) fun r hr => hrows r (List.mem_cons_of_mem _ hr)
      refine ⟨registry', ?_, ?_⟩
      · rw [List.map_cons, List.foldlM_cons, hvalue, h.hydrateStateRecord hst]
        exact hrun
      · intro key
        rw [hget key, OrdMap.get_insert, List.map_cons]
        by_cases hrest : key ∈ rest.map Prod.fst
        · rw [if_pos hrest, if_pos (List.mem_cons_of_mem _ hrest)]
        · rw [if_neg hrest]
          by_cases hkey : row.1 = key
          · subst hkey
            rw [if_pos rfl, if_pos List.mem_cons_self, hst]
          · have hnot : key ∉ row.1 :: rest.map Prod.fst := by
              rw [List.mem_cons, not_or]
              exact ⟨fun heq => hkey heq.symm, hrest⟩
            rw [if_neg hkey, if_neg hnot]
  obtain ⟨registry', hrun, hget⟩ := hfold rows ∅ hentry
  have hregistry : registry' = s.registries.get k := by
    apply ExtTreeMap.ext_getElem?
    intro key
    rw [hget key]
    split
    · rfl
    · next hkey =>
        rw [ExtTreeMap.getElem?_empty]
        cases hst : (s.registries.get k)[key]? with
        | none => rfl
        | some st =>
          have hrecord : store.record (k.table .state) key =
              some (stateValue serde k .state st) := by
            rw [h.entry, hst]
            rfl
          exact absurd (List.mem_map_of_mem (f := Prod.fst) ((hmem _ _).mpr hrecord)) hkey
  rw [Numax.hydrateDurableState]
  change (store.withPrefix (asBytes (k.table .state).dataPrefix)).foldlM _ _ = _
  rw [hscan, hrun, hregistry]

/-- Every materialized record belongs to an entry. -/
theorem Mirrors.contains_of_scanned (h : Mirrors serde acc left s store) {k : CrdtKind}
    {entry : Bytes × Bytes}
    (hentry : entry ∈ store.withPrefix (asBytes (k.table .materialized).dataPrefix)) :
    ∃ key, logicalKeyForPrefix entry.1 (k.table .materialized).dataPrefix = .ok key ∧
      (s.registries.get k).contains key = true := by
  obtain ⟨rows, hscan, -, hmem⟩ := h.tidy.withPrefix_eq (k.table .materialized)
  rw [hscan] at hentry
  obtain ⟨⟨key, v⟩, hrow, rfl⟩ := List.mem_map.mp hentry
  refine ⟨key, logicalKey_tableKey _ _, ?_⟩
  rw [hmem, h.entry] at hrow
  obtain ⟨st, hst, -⟩ := Option.map_eq_some_iff.mp hrow
  rw [ExtTreeMap.contains_iff_mem, ExtTreeMap.mem_iff_isSome_getElem?, hst]
  rfl

theorem Mirrors.hydrateMaterializedGcounterValues (h : Mirrors serde acc left s store)
    (nodeId : NodeId) :
    Numax.hydrateMaterializedGcounterValues none store nodeId s.registries.counters =
      .ok s.registries.counters := by
  refine congrArg Except.ok
    (List.foldlRecOn (motive := fun counters => counters = s.registries.counters) _ _ rfl ?_)
  intro counters hcounters entry hentry
  obtain ⟨key, hkey, hcontains⟩ := h.contains_of_scanned (k := .gcounter) hentry
  subst hcounters
  have hkey' : logicalKeyForPrefix entry.1 gcounterStorePrefix = .ok key := hkey
  have hcontains' : s.registries.counters.contains key = true := hcontains
  simp only [hkey', hcontains', if_true]
  split <;> rfl

theorem Mirrors.hydrateMaterializedPncounterValues (h : Mirrors serde acc left s store)
    (nodeId : NodeId) :
    Numax.hydrateMaterializedPncounterValues none store nodeId s.registries.pncounters =
      .ok s.registries.pncounters := by
  refine congrArg Except.ok
    (List.foldlRecOn (motive := fun counters => counters = s.registries.pncounters) _ _ rfl ?_)
  intro counters hcounters entry hentry
  obtain ⟨key, hkey, hcontains⟩ := h.contains_of_scanned (k := .pncounter) hentry
  subst hcounters
  have hkey' : logicalKeyForPrefix entry.1 pncounterStorePrefix = .ok key := hkey
  have hcontains' : s.registries.pncounters.contains key = true := hcontains
  simp only [hkey', hcontains', if_true]
  split <;> rfl

/-! ## The whole hydration -/

/-- The part of the state that hydration rebuilds. -/
def SyncState.hydrated (s : SyncState) : Hydrated :=
  { registries := s.registries
    seenOps := s.seenOps
    seenOpsNextSequence := s.seenOpsNextSequence
    opLog := s.opLog
    opLogNextSequence := s.opLogNextSequence }

/-- Hydrating a mirrored store rebuilds the state in memory. -/
theorem Mirrors.hydrate (h : Mirrors serde acc left s store) (ht : Tracks acc s)
    (hleft : Leftover acc s.opLogLimit left) (hmax : acc.length ≤ u64Max) (nodeId : NodeId) :
    ∃ store', Numax.hydrate serde none store nodeId s.opLogLimit s.seenOps.limit =
        .ok (s.hydrated, store') ∧ Mirrors serde acc [] s store' := by
  obtain ⟨store', hlog, h'⟩ := h.hydrateOpLog ht hleft hmax
  refine ⟨store', ?_, h'⟩
  have hcounters : Numax.hydrateDurableState serde none store' .gcounter ∅ =
      .ok (s.registries.counters, store') := h'.hydrateDurableState .gcounter
  have hpncounters : Numax.hydrateDurableState serde none store' .pncounter ∅ =
      .ok (s.registries.pncounters, store') := h'.hydrateDurableState .pncounter
  simp only [Numax.hydrate, hlog, h'.hydrateSeenOps ht hmax, ofStore, bind, Except.bind, hcounters,
    h'.hydrateMaterializedGcounterValues, hpncounters, h'.hydrateMaterializedPncounterValues,
    h'.hydrateDurableState]
  rfl

end Mirrored

end Numax
