import Numax.Core.Converting
import Numax.Theorems.MigrationSteps

/-!
# The byte budget of a migration batch

One budget covers the records a call scans and the mutations it makes of them. The scan
fills its page with records up to the budget, and the mutations are charged on top. So
it is not enough that each record fits together with its own mutation: a call runs into
the limit exactly if its whole page does not fit (`migrateTableBatch_byteLimit_iff`).
-/

open Base Std

namespace Numax

/-! ## Sizes -/

/-- The failures of a call over its byte limit. -/
def MigrationError.IsByteLimit : MigrationError → Prop
  | .batchMemoryLimitExceeded .. => True
  | .store (.scanBatchByteLimitExceeded ..) => True
  | _ => False

/-- The bytes of all keys and values in a mutation. -/
def RecordMigration.bytes (m : RecordMigration) : Nat :=
  (m.sets.map Store.recordBytes).sum + (m.deletes.map List.length).sum

/-- The bytes of the mutation a step makes of a record. -/
def mutationBytes (table : StoreTable) (step : MigrationStep) (entry : Bytes × Bytes) : Nat :=
  match step.migrateRecord table entry.1 entry.2 with
  | .ok m => m.bytes
  | .error _ => 0

/-- The bytes of a page with its mutations. -/
def pageBytes (table : StoreTable) (step : MigrationStep) (page : List (Bytes × Bytes)) : Nat :=
  (page.map Store.recordBytes).sum + (page.map (mutationBytes table step)).sum

/-- The step makes an admissible mutation of the record: of its own key only, and without
a conflict. Record and mutation are within the limit. -/
structure RecordFits (table : StoreTable) (step : MigrationStep) (maxBytes : Nat)
    (entry : Bytes × Bytes) (m : RecordMigration) : Prop where
  returned : step.migrateRecord table entry.1 entry.2 = .ok m
  own : m.OwnKey entry.1
  single : m.sets.length + m.deletes.length ≤ 1
  within : Store.recordBytes entry + m.bytes ≤ maxBytes

variable {m : RecordMigration}

theorem RecordFits.mutationBytes_eq {table : StoreTable} {step : MigrationStep} {maxBytes : Nat}
    {entry : Bytes × Bytes} (h : RecordFits table step maxBytes entry m) :
    mutationBytes table step entry = m.bytes := by
  rw [mutationBytes, h.returned]

/-- Own key and no conflict leave three mutations. -/
theorem RecordMigration.own_cases {key : Bytes} (hown : m.OwnKey key)
    (hsingle : m.sets.length + m.deletes.length ≤ 1) :
    m = .unchanged ∨ (∃ value, m = ⟨[(key, value)], []⟩) ∨ m = ⟨[], [key]⟩ := by
  obtain ⟨sets, deletes⟩ := m
  obtain ⟨hsets, hdeletes⟩ := hown
  simp only at hsets hdeletes hsingle
  cases sets with
  | nil =>
    cases deletes with
    | nil => exact .inl rfl
    | cons k rest =>
      rw [List.length_nil, List.length_cons] at hsingle
      have hrest : rest = [] := List.eq_nil_of_length_eq_zero (by omega)
      have hk : k = key := hdeletes k List.mem_cons_self
      exact .inr (.inr (by rw [hrest, hk]))
  | cons entry rest =>
    rw [List.length_cons] at hsingle
    have hrest : rest = [] := List.eq_nil_of_length_eq_zero (by omega)
    have hdel : deletes = [] := List.eq_nil_of_length_eq_zero (by omega)
    have hk : entry.1 = key := hsets entry List.mem_cons_self
    exact .inr (.inl ⟨entry.2, by rw [hrest, hdel, ← hk]⟩)

/-! ## Collecting a page -/

section Collect

variable {table : StoreTable} {key : Bytes} {maxBytes : Nat} {batch : MutationBatch}

/-- The record keys of a table are apart from the keys of the engine. -/
theorem not_startsWith_of_holds {pfx : Bytes}
    (hapart : ∀ t ∈ StoreTable.all, startsWith pfx (asBytes t.dataPrefix) = false ∧
      startsWith (asBytes t.dataPrefix) pfx = false)
    (hkey : table.holds key = true) : startsWith key pfx = false := by
  obtain ⟨hleft, hright⟩ := hapart table (StoreTable.mem_all table)
  by_contra hpfx
  rw [Bool.not_eq_false, startsWith_iff] at hpfx
  have hdata := startsWith_iff.mp hkey
  -- Of two prefixes of one key, one is a prefix of the other.
  rcases List.prefix_or_prefix_of_prefix hpfx hdata with h | h
  · rw [startsWith_iff.mpr h] at hright
    cases hright
  · rw [startsWith_iff.mpr h] at hleft
    cases hleft

theorem validateRecordMutationKey_own (hkey : table.holds key = true) :
    validateRecordMutationKey table key key = .ok () := by
  have hschema : startsWith key (asBytes schemaKeyPrefix) = false :=
    not_startsWith_of_holds (by decide +kernel) hkey
  have hmigration : startsWith key (asBytes migrationKeyPrefix) = false :=
    not_startsWith_of_holds (by decide +kernel) hkey
  simp [validateRecordMutationKey, validateMutationKey, hschema, hmigration, bind, Except.bind]

theorem MutationBatch.checked_of_le (h : batch.bytes ≤ maxBytes) :
    MutationBatch.checked table maxBytes batch = .ok batch := if_neg (Nat.not_lt.mpr h)

theorem MutationBatch.checked_of_gt (h : maxBytes < batch.bytes) :
    MutationBatch.checked table maxBytes batch =
      .error (.batchMemoryLimitExceeded table.name batch.bytes maxBytes) := if_pos h

/-- The batch after an admissible mutation. -/
def MutationBatch.extend (batch : MutationBatch) (m : RecordMigration) : MutationBatch where
  sets := m.sets.foldl (fun sets entry => sets.insert entry.1 entry.2) batch.sets
  deletes := m.deletes.foldl (fun deletes key => deletes.insert key) batch.deletes
  bytes := batch.bytes + m.bytes

theorem MutationBatch.Free.not_contains (hfree : batch.Free key) :
    batch.sets.contains key = false ∧ batch.deletes.contains key = false := by
  obtain ⟨hset, hdelete⟩ := hfree
  refine ⟨?_, Bool.eq_false_iff.mpr fun h => hdelete (ExtTreeSet.contains_iff_mem.mp h)⟩
  rw [← ExtTreeMap.isSome_getElem?_eq_contains, hset]
  rfl

/-- One record: its mutation is taken in, or the batch is over its limit. -/
theorem collectRecordMigration_eq (hkey : table.holds key = true) (hown : m.OwnKey key)
    (hsingle : m.sets.length + m.deletes.length ≤ 1) (hfree : batch.Free key)
    (hbytes : batch.bytes ≤ maxBytes) :
    collectRecordMigration table key maxBytes m batch =
      if batch.bytes + m.bytes ≤ maxBytes then .ok (batch.extend m)
      else .error (.batchMemoryLimitExceeded table.name (batch.bytes + m.bytes) maxBytes) := by
  obtain ⟨hset, hdelete⟩ := hfree.not_contains
  have hvalid := validateRecordMutationKey_own hkey
  rcases m.own_cases hown hsingle with rfl | ⟨value, rfl⟩ | rfl
  · have hsame : batch.bytes + RecordMigration.unchanged.bytes ≤ maxBytes := hbytes
    rw [if_pos hsame]
    rfl
  · have hsize : batch.bytes + (RecordMigration.mk [(key, value)] []).bytes =
        batch.bytes + key.length + value.length := by
      simp [RecordMigration.bytes, Store.recordBytes, Nat.add_assoc]
    rw [hsize]
    simp only [collectRecordMigration, collectSets, hvalid, hset, hdelete, bind, Except.bind,
      Bool.or_self, Bool.false_eq_true, if_false]
    by_cases hle : batch.bytes + key.length + value.length ≤ maxBytes
    · rw [MutationBatch.checked_of_le hle, if_pos hle]
      simp only [collectDeletes, MutationBatch.extend, hsize, List.foldl_cons, List.foldl_nil]
    · rw [MutationBatch.checked_of_gt (Nat.lt_of_not_le hle), if_neg hle]
  · have hsize : batch.bytes + (RecordMigration.mk [] [key]).bytes = batch.bytes + key.length := by
      simp [RecordMigration.bytes]
    rw [hsize]
    simp only [collectRecordMigration, collectSets, collectDeletes, hvalid, hset, hdelete, bind,
      Except.bind, Bool.or_self, Bool.false_eq_true, if_false]
    by_cases hle : batch.bytes + key.length ≤ maxBytes
    · rw [MutationBatch.checked_of_le hle, if_pos hle]
      simp only [MutationBatch.extend, hsize, List.foldl_cons, List.foldl_nil]
    · rw [MutationBatch.checked_of_gt (Nat.lt_of_not_le hle), if_neg hle]

theorem MutationBatch.Free.extend {other : Bytes} (hfree : batch.Free other) (hown : m.OwnKey key)
    (hsingle : m.sets.length + m.deletes.length ≤ 1) (hne : other ≠ key) :
    (batch.extend m).Free other := by
  have hin : compare key other ≠ .eq := fun heq => hne (LawfulEqOrd.compare_eq_iff_eq.mp heq).symm
  rcases m.own_cases hown hsingle with rfl | ⟨value, rfl⟩ | rfl
  · exact hfree
  · refine ⟨?_, hfree.2⟩
    exact (OrdMap.get_insert_ne _ _ (Ne.symm hne)).trans hfree.1
  · refine ⟨hfree.1, ?_⟩
    change other ∉ batch.deletes.insert key
    simp [hin, hfree.2]

/-- A page: its mutations are taken in, or some record puts the batch over its limit. -/
theorem collectPage_isOk_iff {step : MigrationStep} {entries : List (Bytes × Bytes)}
    (hfits : ∀ entry ∈ entries, table.holds entry.1 = true ∧
      ∃ m, RecordFits table step maxBytes entry m)
    (hnodup : (entries.map Prod.fst).Nodup) (hfree : ∀ k ∈ entries.map Prod.fst, batch.Free k)
    (hbytes : batch.bytes ≤ maxBytes) :
    if batch.bytes + (entries.map (mutationBytes table step)).sum ≤ maxBytes then
      ∃ b, collectPage table step maxBytes entries batch = .ok b
    else ∃ bytes, collectPage table step maxBytes entries batch =
      .error (.batchMemoryLimitExceeded table.name bytes maxBytes) := by
  induction entries generalizing batch with
  | nil =>
    rw [if_pos (by simpa using hbytes)]
    exact ⟨batch, rfl⟩
  | cons entry rest ih =>
    rw [List.map_cons, List.nodup_cons] at hnodup
    obtain ⟨hkey, m, hm⟩ := hfits entry List.mem_cons_self
    have hrecord := collectRecordMigration_eq hkey hm.own hm.single
      (hfree entry.1 (by simp)) hbytes
    -- the first record goes in, and the keys behind it are still free
    have hstep : collectPage table step maxBytes (entry :: rest) batch =
        collectRecordMigration table entry.1 maxBytes m batch >>=
          collectPage table step maxBytes rest := by
      rw [collectPage, hm.returned]
      rfl
    rw [hstep, hrecord, List.map_cons, List.sum_cons, hm.mutationBytes_eq, ← Nat.add_assoc]
    by_cases hle : batch.bytes + m.bytes ≤ maxBytes
    · rw [if_pos hle]
      have hfree' : ∀ k ∈ rest.map Prod.fst, (batch.extend m).Free k := by
        intro k hk
        have hne : k ≠ entry.1 := fun heq => hnodup.1 (heq ▸ hk)
        exact (hfree k (by simp [hk])).extend hm.own hm.single hne
      exact @ih (batch.extend m) (fun e he => hfits e (List.mem_cons_of_mem _ he)) hnodup.2
        hfree' hle
    · rw [if_neg hle, if_neg (by omega)]
      exact ⟨_, rfl⟩

end Collect

/-! ## The page of a call -/

section Scan

variable {s : Store} {pfx : Bytes} {cursor : Option Bytes}

theorem entriesAfter_sublist (s : Store) (pfx : Bytes) (cursor : Option Bytes) :
    (s.entriesAfter pfx cursor).Sublist s.toList := by
  cases cursor with
  | none => exact List.filter_sublist
  | some start =>
    exact ((List.takeWhile_sublist _).trans List.filter_sublist).trans List.filter_sublist

theorem startsWith_of_mem_entriesAfter {entry : Bytes × Bytes}
    (h : entry ∈ s.entriesAfter pfx cursor) : startsWith entry.1 pfx = true := by
  cases cursor with
  | none => exact (List.mem_filter.mp h).2
  | some start =>
    exact List.mem_takeWhile_imp (p := fun entry : Bytes × Bytes => startsWith entry.1 pfx) h

/-- The page is within both limits. -/
theorem boundedLoop_within {maxRecords maxBytes : Nat} {entries out page : List (Bytes × Bytes)}
    (hout : out.length < maxRecords) (hbytes : (out.map Store.recordBytes).sum ≤ maxBytes)
    (h : Store.boundedLoop maxRecords maxBytes entries out (out.map Store.recordBytes).sum =
      .ok page) :
    page.length ≤ maxRecords ∧ (page.map Store.recordBytes).sum ≤ maxBytes := by
  induction entries generalizing out with
  | nil =>
    cases h
    exact ⟨hout.le, hbytes⟩
  | cons entry rest ih =>
    have hsum : ((out ++ [entry]).map Store.recordBytes).sum =
        (out.map Store.recordBytes).sum + Store.recordBytes entry := by simp
    rw [Store.boundedLoop] at h
    split at h
    · cases h
    · rename_i hentry
      split at h
      · cases h
        exact ⟨hout.le, hbytes⟩
      · rename_i hroom
        -- the first record is within the limit alone, every other one with those before
        have hle : ((out ++ [entry]).map Store.recordBytes).sum ≤ maxBytes := by
          rw [hsum]
          cases out with
          | nil => simpa using hentry
          | cons first others => simpa using hroom
        split at h
        · rename_i hmore
          rw [← hsum] at h
          exact ih hmore hle h
        · cases h
          exact ⟨by rw [List.length_append, List.length_singleton]; omega, hle⟩

end Scan

/-- The step and the page a call works on. -/
def NextPage (table : StoreTable) (targetVersion : UInt16) (steps : List MigrationStep)
    (options : MigrationOptions) (s : Store) (step : MigrationStep)
    (page : List (Bytes × Bytes)) : Prop :=
  ∃ checkpoint, Resumes table targetVersion steps s step checkpoint ∧
    s.scanPrefixPageAfterBounded none (asBytes table.dataPrefix) checkpoint.lastProcessedKey
      options.maxRecords options.maxBytes = .ok page

section NextPage

variable {table : StoreTable} {targetVersion : UInt16} {steps : List MigrationStep}
  {options : MigrationOptions} {s : Store} {step : MigrationStep} {page : List (Bytes × Bytes)}

/-- Every record of the table fits together with its mutation, whichever step is next. -/
def RecordsFit (table : StoreTable) (steps : List MigrationStep) (maxBytes : Nat) (s : Store) :
    Prop :=
  ∀ step ∈ steps, ∀ entry ∈ s.toList, table.holds entry.1 = true →
    ∃ m, RecordFits table step maxBytes entry m

theorem Resumes.step_mem {checkpoint : MigrationCheckpoint}
    (h : Resumes table targetVersion steps s step checkpoint) : step ∈ steps := by
  obtain ⟨fromVersion, -, hnext⟩ := h.step_ok
  unfold nextMigrationStep at hnext
  split at hnext
  · cases hnext
  · rename_i found hfound
    split at hnext
    · cases hnext
    · cases hnext
      exact List.mem_of_find?_eq_some hfound

theorem NextPage.sublist (h : NextPage table targetVersion steps options s step page) :
    page.Sublist s.toList ∧ ∀ entry ∈ page, table.holds entry.1 = true := by
  obtain ⟨checkpoint, -, hscan⟩ := h
  rw [Store.scanPrefixPageAfterBounded, if_neg options.maxRecords_ne_zero] at hscan
  obtain ⟨page', rest, hsplit, hpage, -⟩ := Store.boundedLoop_eq_ok hscan
  rw [List.nil_append] at hpage
  subst hpage
  have hfront : page.Sublist (s.entriesAfter (asBytes table.dataPrefix)
      checkpoint.lastProcessedKey) := by
    rw [hsplit]
    exact List.sublist_append_left _ _
  refine ⟨hfront.trans (entriesAfter_sublist _ _ _), fun entry hentry => ?_⟩
  exact startsWith_of_mem_entriesAfter (hfront.subset hentry)

theorem NextPage.within (h : NextPage table targetVersion steps options s step page) :
    page.length ≤ options.maxRecords.toNat ∧
      (page.map Store.recordBytes).sum ≤ options.maxBytes := by
  obtain ⟨checkpoint, -, hscan⟩ := h
  rw [Store.scanPrefixPageAfterBounded, if_neg options.maxRecords_ne_zero] at hscan
  refine boundedLoop_within ?_ (Nat.zero_le _) hscan
  refine Nat.pos_of_ne_zero fun hzero => options.maxRecords_ne_zero ?_
  exact UInt32.toNat_inj.mp hzero

/-- What is collected from the page of a call. -/
theorem NextPage.collect (h : NextPage table targetVersion steps options s step page)
    (hfit : RecordsFit table steps options.maxBytes s) :
    if pageBytes table step page ≤ options.maxBytes then
      ∃ b, collectPage table step options.maxBytes page
        ⟨∅, ∅, (page.map Store.recordBytes).sum⟩ = .ok b
    else ∃ bytes, collectPage table step options.maxBytes page
        ⟨∅, ∅, (page.map Store.recordBytes).sum⟩ =
      .error (.batchMemoryLimitExceeded table.name bytes options.maxBytes) := by
  obtain ⟨hsub, hholds⟩ := h.sublist
  obtain ⟨checkpoint, hresume, -⟩ := id h
  refine @collectPage_isOk_iff table options.maxBytes ⟨∅, ∅, (page.map Store.recordBytes).sum⟩ step
    page (fun entry hentry => ?_) ?_ (fun k _ => ?_) h.within.2
  · exact ⟨hholds entry hentry,
      hfit step hresume.step_mem entry (hsub.subset hentry) (hholds entry hentry)⟩
  · exact (OrdMap.toList_nodup_keys s).sublist (hsub.map Prod.fst)
  · exact ⟨ExtTreeMap.getElem?_empty, ExtTreeSet.not_mem_empty⟩

/-- A page of one record fits. -/
theorem NextPage.pageBytes_of_single
    (h : NextPage table targetVersion steps options s step page)
    (hfit : RecordsFit table steps options.maxBytes s) (hsingle : options.maxRecords = 1) :
    pageBytes table step page ≤ options.maxBytes := by
  obtain ⟨hsub, hholds⟩ := h.sublist
  obtain ⟨checkpoint, hresume, -⟩ := id h
  have hlength := h.within.1
  rw [hsingle] at hlength
  cases page with
  | nil => exact Nat.zero_le _
  | cons entry rest =>
    have hrest : rest = [] := List.eq_nil_of_length_eq_zero (by
      rw [List.length_cons] at hlength
      exact Nat.le_zero.mp (Nat.le_of_succ_le_succ hlength))
    obtain ⟨m, hm⟩ := hfit step hresume.step_mem entry (hsub.subset List.mem_cons_self)
      (hholds entry List.mem_cons_self)
    rw [hrest, pageBytes, List.map_singleton, List.map_singleton, List.sum_singleton,
      List.sum_singleton, hm.mutationBytes_eq]
    exact hm.within

end NextPage

/-! ## Failures of a call -/

/-- A failure is not about the byte limit. -/
def OtherFailure {α : Type} (x : Except MigrationError α) : Prop :=
  ∀ e, x = .error e → ¬ e.IsByteLimit

variable {e : MigrationError}

namespace OtherFailure

variable {α β : Type}

theorem ok (a : α) : OtherFailure (.ok a) := nofun

theorem error (h : ¬ e.IsByteLimit) :
    OtherFailure (.error e : Except MigrationError α) := by
  rintro _ ⟨⟩
  exact h

theorem ite {c : Prop} [Decidable c] {x y : Except MigrationError α} (hx : OtherFailure x)
    (hy : OtherFailure y) : OtherFailure (if c then x else y) := by
  split
  · exact hx
  · exact hy

theorem bind {x : Except MigrationError α} {f : α → Except MigrationError β}
    (hx : OtherFailure x) (hf : ∀ a, OtherFailure (f a)) : OtherFailure (x >>= f) := by
  intro e h
  cases x with
  | error e' =>
    cases h
    exact hx _ rfl
  | ok a => exact hf a e h

theorem ofSchema (x : Except SchemaError α) : OtherFailure (Numax.ofSchema x) := by
  cases x with
  | error e => exact .error id
  | ok a => exact .ok a

theorem tableVersion (table : StoreTable) (targetVersion : UInt16)
    (checkpointBytes schemaBytes : Option Bytes) :
    OtherFailure (Numax.tableVersion table targetVersion checkpointBytes schemaBytes) := by
  cases schemaBytes with
  | none => exact .ok _
  | some bytes =>
    refine .bind (.ofSchema _) fun header => ?_
    refine .ite (.ite (.error id) (.ok _)) (.ite ?_ (.ok _))
    exact .bind (.ofSchema _) fun _ => .error id

theorem nextMigrationStep (table : StoreTable) (fromVersion targetVersion : UInt16)
    (steps : List MigrationStep) :
    OtherFailure (Numax.nextMigrationStep table fromVersion targetVersion steps) := by
  unfold Numax.nextMigrationStep
  split
  · exact .error id
  · exact .ite (.error id) (.ok _)

theorem decode (table : StoreTable) (bytes : Bytes) :
    OtherFailure (MigrationCheckpoint.decode table bytes) :=
  .ite (.error id) <| .ite (.error id) <| .ite (.error id) <| .ite (.error id) <|
    .ite (.error id) <| .ite (.error id) (.ok _)

theorem resumeCheckpoint (table : StoreTable) (step : MigrationStep)
    (checkpointBytes : Option Bytes) :
    OtherFailure (Numax.resumeCheckpoint table step checkpointBytes) := by
  refine .bind ?_ fun checkpoint => .ite (.error id) (.ok _)
  cases checkpointBytes with
  | none => exact .ok _
  | some bytes => exact .decode table bytes

theorem encode (checkpoint : MigrationCheckpoint) : OtherFailure checkpoint.encode :=
  .ite (.error id) (.ok _)

end OtherFailure

section Call

variable {table : StoreTable} {targetVersion : UInt16} {steps : List MigrationStep}
  {options : MigrationOptions} {s : Store}

/-- Records within the limit are scanned without an error. -/
theorem scan_of_recordsFit (hfit : RecordsFit table steps options.maxBytes s)
    {step : MigrationStep} {checkpoint : MigrationCheckpoint}
    (hresume : Resumes table targetVersion steps s step checkpoint) :
    ∃ page, s.scanPrefixPageAfterBounded none (asBytes table.dataPrefix)
      checkpoint.lastProcessedKey options.maxRecords options.maxBytes = .ok page := by
  have hrecords : ∀ entry ∈ s.entriesAfter (asBytes table.dataPrefix) checkpoint.lastProcessedKey,
      Store.recordBytes entry ≤ options.maxBytes := by
    intro entry hentry
    obtain ⟨m, hm⟩ := hfit step hresume.step_mem entry
      ((entriesAfter_sublist _ _ _).subset hentry) (startsWith_of_mem_entriesAfter hentry)
    exact Nat.le_trans (Nat.le_add_right _ _) hm.within
  rw [Store.scanPrefixPageAfterBounded, if_neg options.maxRecords_ne_zero]
  exact Store.boundedLoop_of_fits hrecords [] 0

/-- A page that does not fit makes the call fail. -/
theorem exec_of_overflow (hfit : RecordsFit table steps options.maxBytes s) {step : MigrationStep}
    {page : List (Bytes × Bytes)} (h : NextPage table targetVersion steps options s step page)
    (hover : options.maxBytes < pageBytes table step page) :
    ∃ bytes, (migrateTableBatch (fun _ => none) table targetVersion steps options).exec s =
      (.error (.batchMemoryLimitExceeded table.name bytes options.maxBytes), s) := by
  have hcollect := h.collect hfit
  rw [if_neg (Nat.not_le.mpr hover)] at hcollect
  obtain ⟨bytes, hbytes⟩ := hcollect
  obtain ⟨checkpoint, hresume, hscan⟩ := h
  obtain ⟨fromVersion, hversion, hstep⟩ := hresume.step_ok
  have hck : s.get none (checkpointKey table) = .ok s[checkpointKey table]? := rfl
  have hschema : s.get none table.schemaKey = .ok s[table.schemaKey]? := rfl
  have hlast : ∃ last, page.getLast? = some last := by
    refine Option.isSome_iff_exists.mp (List.getLast?_isSome.mpr ?_)
    rintro rfl
    exact absurd hover (Nat.not_lt_zero _)
  obtain ⟨last, hlast⟩ := hlast
  -- one line for each part of the call up to the mutations of the page
  refine ⟨bytes, (StoreM.exec_read_bind hck).trans ?_⟩
  refine (StoreM.exec_read_bind hschema).trans ?_
  refine (StoreM.exec_ofExcept_bind hversion).trans ?_
  refine (StoreM.exec_ofExcept_bind hstep).trans ?_
  refine (StoreM.exec_ofExcept_bind hresume.checkpoint_ok).trans ?_
  refine (StoreM.exec_read_bind hscan).trans ?_
  rw [hlast]
  change (StoreM.ofExcept _ >>= _).exec s = _
  rw [StoreM.exec_bind, StoreM.exec_ofExcept, hbytes]

theorem ofExcept_bind_error {α β : Type} {x : Except MigrationError α}
    {f : α → StoreM MigrationError β} {s' : Store}
    (h : (StoreM.ofExcept x >>= f).exec s = (.error e, s')) :
    x = .error e ∨ ∃ a, x = .ok a ∧ (f a).exec s = (.error e, s') := by
  rw [StoreM.exec_bind, StoreM.exec_ofExcept] at h
  cases x with
  | error e' =>
    cases h
    exact .inl rfl
  | ok a => exact .inr ⟨a, rfl, h⟩

/-- Only a page that does not fit makes a call fail over its byte limit. -/
theorem overflow_of_exec (hfit : RecordsFit table steps options.maxBytes s) {s' : Store}
    (h : (migrateTableBatch (fun _ => none) table targetVersion steps options).exec s =
      (.error e, s')) (hlimit : e.IsByteLimit) :
    ∃ step page, NextPage table targetVersion steps options s step page ∧
      options.maxBytes < pageBytes table step page := by
  have hck : s.get none (checkpointKey table) = .ok s[checkpointKey table]? := rfl
  have hschema : s.get none table.schemaKey = .ok s[table.schemaKey]? := rfl
  -- the call is followed part by part; none before the page fails over a byte limit
  have h₁ := (StoreM.exec_read_bind hck).symm.trans h
  have h₂ := (StoreM.exec_read_bind hschema).symm.trans h₁
  rcases ofExcept_bind_error h₂ with hversion | ⟨version, hversion, h₃⟩
  · exact absurd hlimit (OtherFailure.tableVersion _ _ _ _ _ hversion)
  cases version with
  | none => cases h₃
  | some fromVersion =>
    rcases ofExcept_bind_error h₃ with hstep | ⟨step, hstep, h₄⟩
    · exact absurd hlimit (OtherFailure.nextMigrationStep _ _ _ _ _ hstep)
    rcases ofExcept_bind_error h₄ with hcheckpoint | ⟨checkpoint, hcheckpoint, h₅⟩
    · exact absurd hlimit (OtherFailure.resumeCheckpoint _ _ _ _ hcheckpoint)
    have hresume : Resumes table targetVersion steps s step checkpoint :=
      ⟨⟨fromVersion, hversion, hstep⟩, hcheckpoint⟩
    obtain ⟨page, hscan⟩ := scan_of_recordsFit hfit hresume
    have h₆ := (StoreM.exec_read_bind hscan).symm.trans h₅
    have hnext : NextPage table targetVersion steps options s step page :=
      ⟨checkpoint, hresume, hscan⟩
    refine ⟨step, page, hnext, ?_⟩
    by_contra hwithin
    have hcollect := hnext.collect hfit
    rw [if_pos (Nat.le_of_not_lt hwithin)] at hcollect
    obtain ⟨batch, hbatch⟩ := hcollect
    cases hlast : page.getLast? with
    | none =>
      rw [hlast] at h₆
      cases h₆
    | some last =>
      rw [hlast] at h₆
      rcases ofExcept_bind_error h₆ with herror | ⟨batch', -, h₇⟩
      · cases hbatch.symm.trans herror
      rcases ofExcept_bind_error h₇ with herror | ⟨cursor, -, h₈⟩
      · exact absurd hlimit (OtherFailure.encode _ _ herror)
      · cases h₈

end Call

/-- Let every record fit together with its mutation. No call then fails over the byte limit
of its scan, and a call fails over that of its batch exactly if the page it works on does
not fit together with all its mutations. With one record a page neither ever happens. -/
theorem migrateTableBatch_byteLimit_iff (table : StoreTable) (targetVersion : UInt16)
    (steps : List MigrationStep) (options : MigrationOptions) (s : Store)
    (hfit : RecordsFit table steps options.maxBytes s) :
    (∀ bytes limit s',
      (migrateTableBatch (fun _ => none) table targetVersion steps options).exec s ≠
      (.error (.store (.scanBatchByteLimitExceeded bytes limit)), s')) ∧
    ((∃ name bytes limit s',
        (migrateTableBatch (fun _ => none) table targetVersion steps options).exec s =
          (.error (.batchMemoryLimitExceeded name bytes limit), s')) ↔
      ∃ step page, NextPage table targetVersion steps options s step page ∧
        options.maxBytes < pageBytes table step page) ∧
    (options.maxRecords = 1 → ∀ e s',
      (migrateTableBatch (fun _ => none) table targetVersion steps options).exec s =
        (.error e, s') → ¬ e.IsByteLimit) := by
  refine ⟨fun bytes limit s' h => ?_, ⟨?_, ?_⟩, ?_⟩
  · -- the page would not fit, and then it is the batch that fails
    obtain ⟨step, page, hnext, hover⟩ := overflow_of_exec hfit h trivial
    obtain ⟨bytes, hbytes⟩ := exec_of_overflow hfit hnext hover
    cases h.symm.trans hbytes
  · rintro ⟨name, bytes, limit, s', h⟩
    exact overflow_of_exec hfit h trivial
  · rintro ⟨step, page, hnext, hover⟩
    obtain ⟨bytes, hbytes⟩ := exec_of_overflow hfit hnext hover
    exact ⟨_, _, _, s, hbytes⟩
  · intro hsingle e s' h hlimit
    obtain ⟨step, page, hnext, hover⟩ := overflow_of_exec hfit h hlimit
    exact absurd (hnext.pageBytes_of_single hfit hsingle) (Nat.not_le.mpr hover)

/-! Two records that grow by one byte, with a budget for the larger one and its mutation. -/

def tightOptions (maxRecords : UInt32) (h : maxRecords ≠ 0) : MigrationOptions :=
  ⟨maxRecords, 2 * Store.recordBytes (tableKey .seenOps "b", [5]) + 1, h, by decide +kernel⟩

theorem recordsFit_lengthen (maxRecords : UInt32) (h : maxRecords ≠ 0) :
    RecordsFit .seenOps [lengthenStep] (tightOptions maxRecords h).maxBytes seenOpsStore := by
  have hsizes : ∀ entry ∈ seenOpsStore.toList, 2 * Store.recordBytes entry + 1 ≤
      2 * Store.recordBytes (tableKey .seenOps "b", [5]) + 1 := by decide +kernel
  intro step hstep entry hentry _
  cases List.mem_singleton.mp hstep
  refine ⟨⟨[(entry.1, entry.2 ++ [0])], []⟩, rfl, ⟨by simp, by simp⟩, by simp, ?_⟩
  have hsize := hsizes entry hentry
  simp only [tightOptions, RecordMigration.bytes, Store.recordBytes, List.map_cons, List.map_nil,
    List.sum_cons, List.sum_nil, List.length_append, List.length_singleton] at hsize ⊢
  omega

theorem migrateTableBatch_byteLimit_single :
    RecordsFit .seenOps [lengthenStep] (tightOptions 1 (by decide)).maxBytes seenOpsStore ∧
    ∀ e s', (migrateTableBatch (fun _ => none) .seenOps 1 [lengthenStep]
        (tightOptions 1 (by decide))).exec seenOpsStore = (.error e, s') → ¬ e.IsByteLimit :=
  ⟨recordsFit_lengthen 1 (by decide),
    (migrateTableBatch_byteLimit_iff .seenOps 1 [lengthenStep] (tightOptions 1 (by decide))
      seenOpsStore (recordsFit_lengthen 1 (by decide))).2.2 rfl⟩

/-- Each of the two records fits with its mutation, the step list is accepted, and the
call fails. The store is as before, so that every later call fails in the same way. -/
theorem tightPage_never_migrates :
    validateMigrationPath .seenOps 1 [lengthenStep] = .ok () ∧
    RecordsFit .seenOps [lengthenStep] (tightOptions 2 (by decide)).maxBytes seenOpsStore ∧
    ∃ bytes, (migrateTableBatch (fun _ => none) .seenOps 1 [lengthenStep]
        (tightOptions 2 (by decide))).exec seenOpsStore =
      (.error (.batchMemoryLimitExceeded "seen-ops" bytes (tightOptions 2 (by decide)).maxBytes),
        seenOpsStore) := by
  refine ⟨by decide +kernel, recordsFit_lengthen 2 (by decide), ?_⟩
  have hpage : NextPage .seenOps 1 [lengthenStep] (tightOptions 2 (by decide)) seenOpsStore
      lengthenStep [(tableKey .seenOps "a", []), (tableKey .seenOps "b", [5])] := by
    refine ⟨.new .seenOps 0 1, ⟨⟨0, by decide +kernel, rfl⟩, by decide +kernel⟩, by decide +kernel⟩
  exact exec_of_overflow (recordsFit_lengthen 2 (by decide)) hpage (by decide +kernel)

end Numax
