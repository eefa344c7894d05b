import Numax.Base.Sweep
import Numax.Core.Migration

/-!
# One migration batch

What a call of `migrateTableBatch` does to the store, said once: it fails and
changes nothing, it finds the table at its target, it ends a step by writing
the header, or it rewrites one page of records and moves the checkpoint
(`TableStep`, `exec_migrateTableBatch_ok`, `exec_migrateTableBatch_error`).
-/

open Base Std

namespace Numax

/-- The keys of a table's records. -/
def StoreTable.holds (table : StoreTable) (key : Bytes) : Bool :=
  startsWith key (asBytes table.dataPrefix)

theorem StoreTable.checkpointKey_inj {t u : StoreTable} (h : checkpointKey t = checkpointKey u) :
    t = u := by
  have hall : ∀ t ∈ all, ∀ u ∈ all, checkpointKey t = checkpointKey u → t = u := by decide +kernel
  exact hall t (mem_all t) u (mem_all u) h

theorem StoreTable.holds_checkpointKey (t u : StoreTable) : t.holds (checkpointKey u) = false := by
  have hall : ∀ t ∈ all, ∀ u ∈ all, t.holds (checkpointKey u) = false := by decide +kernel
  exact hall t (mem_all t) u (mem_all u)

theorem StoreTable.holds_schemaKey (t u : StoreTable) : t.holds u.schemaKey = false :=
  schemaKey_not_data u t

theorem StoreTable.checkpointKey_ne_schemaKey (t u : StoreTable) :
    checkpointKey t ≠ u.schemaKey := by
  have hall : ∀ t ∈ all, ∀ u ∈ all, checkpointKey t ≠ u.schemaKey := by decide +kernel
  exact hall t (mem_all t) u (mem_all u)

/-! ## Checkpoints are read back -/

variable {c : MigrationCheckpoint}

theorem MigrationCheckpoint.encode_eq_ok {bytes : Bytes} (h : c.encode = .ok bytes) :
    (c.lastProcessedKey.getD []).length < 2 ^ 32 := by
  simp only [encode] at h
  split at h
  · cases h
  · omega

theorem MigrationCheckpoint.encode_of_lt (h : (c.lastProcessedKey.getD []).length < 2 ^ 32) :
    ∃ bytes, c.encode = .ok bytes := by
  simp only [encode]
  rw [if_neg (Nat.not_le.mpr h)]
  exact ⟨_, rfl⟩

/-- A checkpoint is read back as it was written; only a cursor with an empty
key would be read as no cursor. -/
theorem MigrationCheckpoint.decode_encode {bytes : Bytes} (hkey : c.lastProcessedKey ≠ some [])
    (h : c.encode = .ok bytes) :
    MigrationCheckpoint.decode c.table bytes = .ok c := by
  have hlt := encode_eq_ok h
  obtain ⟨table, fromVersion, toVersion, cursor⟩ := c
  simp only [encode] at h hlt hkey ⊢
  rw [if_neg (Nat.not_le.mpr hlt)] at h
  generalize hk : cursor.getD [] = key at h hlt
  have hmagic : migrationMagic.length = 4 := by decide +kernel
  have hstart : bytes.drop 0 = migrationMagic ++ (beBytes 2 checkpointFormatVersion.toNat ++
      (beBytes 2 table.tableId ++ (beBytes 2 fromVersion.toNat ++ (beBytes 2 toVersion.toNat ++
        (beBytes 4 key.length ++ key))))) := by
    cases h
    simp only [List.drop_zero, List.append_assoc]
  have hlen : bytes.length = checkpointFixedLen + key.length := by
    cases h
    simp only [List.length_append, length_beBytes, hmagic, checkpointFixedLen]
  obtain ⟨htake, hnext⟩ := read_field hstart hmagic
  obtain ⟨hformat, hnext⟩ := read_field hnext (length_beBytes 2 _)
  obtain ⟨htable, hnext⟩ := read_field hnext (length_beBytes 2 _)
  obtain ⟨hfrom, hnext⟩ := read_field hnext (length_beBytes 2 _)
  obtain ⟨hto, hnext⟩ := read_field hnext (length_beBytes 2 _)
  obtain ⟨hkeyLen, hrest⟩ := read_field hnext (length_beBytes 4 _)
  rw [List.drop_zero] at htake
  have hcursor : (if 0 < key.length then some key else none) = cursor := by
    cases cursor with
    | none => simp [← hk]
    | some k =>
      have hne : k ≠ [] := fun hnil => hkey (by rw [hnil])
      rw [← hk]
      simp [List.length_pos_iff.mpr hne]
  have hfit : ¬ u64Max < checkpointFixedLen + key.length := by
    simp only [u64Max, checkpointFixedLen]
    omega
  simp only [decode, htake, hformat, htable, hfrom, hto, hkeyLen, ofBe_beBytes_u16,
    ofBe_beBytes_of_lt table.tableId_lt, ofBe_beBytes_of_lt (show key.length < 256 ^ 4 from hlt)]
  rw [if_neg (by omega), if_neg (by simp), if_neg (by simp), if_neg (by simp), if_neg hfit,
    if_neg (by simp [hlen]), show bytes.drop checkpointFixedLen = key from hrest]
  exact congrArg (fun c => Except.ok (MigrationCheckpoint.mk table fromVersion toVersion c)) hcursor

/-! ## Pages -/

variable {cursor : Option Bytes}

/-- With the cursor inside the table, a scan looks at the pending records. -/
theorem entriesAfter_eq_pending (s : Store) (table : StoreTable)
    (hcursor : ∀ c, cursor = some c → table.holds c = true) :
    s.entriesAfter (asBytes table.dataPrefix) cursor = pending table.holds s cursor := by
  cases cursor with
  | none =>
    refine List.filter_congr fun entry _ => ?_
    simp [passed, StoreTable.holds]
  | some c =>
    rw [Store.entriesAfter_some s (hcursor c rfl)]
    rfl

variable {fault : Option StoreError} {s : Store}

/-- A bounded scan returns a first piece of the pending records, empty only if
none is pending. -/
theorem scan_eq_ok {table : StoreTable} {options : MigrationOptions} {page : List (Bytes × Bytes)}
    (hcursor : ∀ c, cursor = some c → table.holds c = true)
    (h : s.scanPrefixPageAfterBounded fault (asBytes table.dataPrefix) cursor options.maxRecords
      options.maxBytes = .ok page) :
    ∃ rest, pending table.holds s cursor = page ++ rest ∧
      (page = [] → pending table.holds s cursor = []) := by
  rw [Store.scanPrefixPageAfterBounded, if_neg options.maxRecords_ne_zero,
    entriesAfter_eq_pending s table hcursor] at h
  cases fault with
  | some e => cases h
  | none =>
    obtain ⟨page', rest, hsplit, hpage, hempty⟩ := Store.boundedLoop_eq_ok h
    rw [List.nil_append] at hpage
    subst hpage
    exact ⟨rest, hsplit, hempty rfl⟩

theorem scan_of_fits {table : StoreTable} (options : MigrationOptions)
    (hcursor : ∀ c, cursor = some c → table.holds c = true)
    (hfits : ∀ entry ∈ pending table.holds s cursor, Store.recordBytes entry ≤ options.maxBytes) :
    ∃ page, s.scanPrefixPageAfterBounded none (asBytes table.dataPrefix) cursor options.maxRecords
      options.maxBytes = .ok page := by
  rw [Store.scanPrefixPageAfterBounded, if_neg options.maxRecords_ne_zero,
    entriesAfter_eq_pending s table hcursor]
  exact Store.boundedLoop_of_fits hfits [] 0

/-! ## The collected mutations -/

/-- What the batch makes of a key that holds `old`. -/
def MutationBatch.overlay (batch : MutationBatch) (key : Bytes) (old : Option Bytes) :
    Option Bytes :=
  if key ∈ batch.deletes then none else (batch.sets[key]?).or old

/-- The batch does not mention the key. -/
def MutationBatch.Free (batch : MutationBatch) (key : Bytes) : Prop :=
  batch.sets[key]? = none ∧ key ∉ batch.deletes

/-- Two batches say the same about a key. -/
def MutationBatch.SameAt (key : Bytes) (b b' : MutationBatch) : Prop :=
  b'.sets[key]? = b.sets[key]? ∧ (key ∈ b'.deletes ↔ key ∈ b.deletes)

variable {b' : MutationBatch}

theorem MutationBatch.SameAt.free {key : Bytes} {b : MutationBatch} (h : SameAt key b b')
    (hfree : b.Free key) : b'.Free key :=
  ⟨h.1.trans hfree.1, fun hmem => hfree.2 (h.2.mp hmem)⟩

theorem MutationBatch.SameAt.trans {key : Bytes} {b b'' : MutationBatch} (h : SameAt key b b')
    (h' : SameAt key b' b'') : SameAt key b b'' :=
  ⟨h'.1.trans h.1, h'.2.trans h.2⟩

theorem MutationBatch.SameAt.overlay_eq {key : Bytes} {b : MutationBatch} (h : SameAt key b b')
    (old : Option Bytes) : b'.overlay key old = b.overlay key old := by
  simp only [overlay, h.1, h.2]

theorem MutationBatch.overlay_free {batch : MutationBatch} {key : Bytes} (h : batch.Free key)
    (old : Option Bytes) : batch.overlay key old = old := by
  simp [overlay, h.1, h.2]

variable {s' : Store}

/-- The store after a page has been written together with its checkpoint. -/
theorem MutationBatch.get_written {batch : MutationBatch} {ck cursor : Bytes}
    (hfree : batch.Free ck)
    (h : s.applyBatch none (batch.sets.insert ck cursor).toList batch.deletes.toList = .ok s')
    (key : Bytes) :
    s'[key]? = if key = ck then some cursor else batch.overlay key s[key]? := by
  rw [Store.get_applyBatch none h, OrdMap.get_insertAll_toList, OrdMap.get_insert]
  simp only [ExtTreeSet.mem_toList]
  by_cases hkey : key = ck
  · subst hkey
    simp [hfree.2]
  · rw [if_neg (Ne.symm hkey), if_neg hkey]
    rfl

/-- The store after a step has been finished. -/
theorem get_finished {table : StoreTable} {header : Bytes}
    (h : s.applyBatch none [(table.schemaKey, header)] [checkpointKey table] = .ok s')
    (key : Bytes) :
    s'[key]? = if key = checkpointKey table then none
      else if key = table.schemaKey then some header else s[key]? := by
  rw [Store.get_applyBatch none h]
  by_cases hck : key = checkpointKey table
  · simp [hck]
  · rw [if_neg (by simpa using hck), if_neg hck, OrdMap.insertAll_cons, OrdMap.insertAll_nil,
      OrdMap.get_insert]
    by_cases hschema : key = table.schemaKey
    · simp [hschema]
    · rw [if_neg hschema, if_neg (Ne.symm hschema)]

/-! ## What a step makes of a record -/

/-- The value a record has after its migration, nothing if it is deleted. -/
def RecordMigration.outcome (m : RecordMigration) (value : Bytes) : Option Bytes :=
  if m.deletes = [] then some ((m.sets.map Prod.snd).getLastD value) else none

/-- The migration touches the record's own key at most. -/
def RecordMigration.OwnKey (m : RecordMigration) (key : Bytes) : Prop :=
  (∀ entry ∈ m.sets, entry.1 = key) ∧ ∀ k ∈ m.deletes, k = key

def MigrationStep.outcome (table : StoreTable) (step : MigrationStep) (key value : Bytes) :
    Except MigrationError (Option Bytes) :=
  (step.migrateRecord table key value).map fun m => m.outcome value

theorem MutationBatch.checked_eq_ok {table : StoreTable} {maxBytes : Nat}
    {batch b : MutationBatch} (h : MutationBatch.checked table maxBytes batch = .ok b) :
    b = batch := by
  rw [checked] at h
  split at h
  · cases h
  · cases h
    rfl

section Collect

variable {table : StoreTable} {key : Bytes} {maxBytes : Nat} {batch b : MutationBatch}

/-- Writing the own key more than once is refused. -/
theorem collectSets_own {sets : List (Bytes × Bytes)} (hown : ∀ entry ∈ sets, entry.1 = key)
    (h : collectSets table key maxBytes sets batch = .ok b) :
    (sets = [] ∧ b = batch) ∨
      ∃ w, sets = [(key, w)] ∧ b.sets = batch.sets.insert key w ∧ b.deletes = batch.deletes := by
  cases sets with
  | nil =>
    cases h
    exact .inl ⟨rfl, rfl⟩
  | cons entry rest =>
    obtain ⟨k, w⟩ := entry
    have hk : k = key := hown _ List.mem_cons_self
    subst hk
    rw [collectSets] at h
    obtain ⟨_, _, h⟩ := bind_eq_ok h
    split at h
    · cases h
    · obtain ⟨batch', hchecked, h⟩ := bind_eq_ok h
      rw [MutationBatch.checked_eq_ok hchecked] at h
      cases rest with
      | nil =>
        cases h
        exact .inr ⟨w, rfl, rfl, rfl⟩
      | cons entry' rest' =>
        obtain ⟨k', w'⟩ := entry'
        have hk' : k' = k := hown _ (List.mem_cons_of_mem _ List.mem_cons_self)
        subst hk'
        rw [collectSets] at h
        obtain ⟨_, _, h⟩ := bind_eq_ok h
        rw [if_pos (by simp)] at h
        cases h

/-- Deleting the own key is refused after a write or another deletion. -/
theorem collectDeletes_own {deletes : List Bytes} (hown : ∀ k ∈ deletes, k = key)
    (h : collectDeletes table key maxBytes deletes batch = .ok b) :
    (deletes = [] ∧ b = batch) ∨
      (deletes = [key] ∧ key ∉ batch.sets ∧ b.sets = batch.sets ∧
        b.deletes = batch.deletes.insert key) := by
  cases deletes with
  | nil =>
    cases h
    exact .inl ⟨rfl, rfl⟩
  | cons k rest =>
    have hk : k = key := hown _ List.mem_cons_self
    subst hk
    rw [collectDeletes] at h
    obtain ⟨_, _, h⟩ := bind_eq_ok h
    split at h
    · cases h
    · next hfree =>
        obtain ⟨batch', hchecked, h⟩ := bind_eq_ok h
        rw [MutationBatch.checked_eq_ok hchecked] at h
        cases rest with
        | nil =>
          cases h
          refine .inr ⟨rfl, ?_, rfl, rfl⟩
          intro hmem
          simp [hmem] at hfree
        | cons k' rest' =>
          have hk' : k' = k := hown _ (List.mem_cons_of_mem _ List.mem_cons_self)
          subst hk'
          rw [collectDeletes] at h
          obtain ⟨_, _, h⟩ := bind_eq_ok h
          rw [if_pos (by simp)] at h
          cases h

/-- One record: the batch says at its key what the migration says, and
everywhere else what it said before. -/
theorem collectRecordMigration_own {m : RecordMigration} (hown : m.OwnKey key)
    (hfree : batch.Free key) (h : collectRecordMigration table key maxBytes m batch = .ok b)
    (value : Bytes) :
    (∀ k, k ≠ key → MutationBatch.SameAt k batch b) ∧
      b.overlay key (some value) = m.outcome value := by
  obtain ⟨batch', hsets, hdeletes⟩ := bind_eq_ok h
  have hin : ∀ k, k ≠ key → compare key k ≠ .eq := fun k hk heq =>
    hk (LawfulEqOrd.compare_eq_iff_eq.mp heq).symm
  rcases collectSets_own hown.1 hsets with ⟨hnoset, rfl⟩ | ⟨w, hset, hbs, hbd⟩
  · rcases collectDeletes_own hown.2 hdeletes with ⟨hnodel, rfl⟩ | ⟨hdel, _, hbs, hbd⟩
    · refine ⟨fun k _ => ⟨rfl, Iff.rfl⟩, ?_⟩
      rw [MutationBatch.overlay_free hfree]
      simp [RecordMigration.outcome, hnoset, hnodel]
    · refine ⟨fun k hk => ⟨by rw [hbs], ?_⟩, ?_⟩
      · rw [hbd]
        simp [hin k hk]
      · simp [MutationBatch.overlay, RecordMigration.outcome, hbd, hdel]
  · rcases collectDeletes_own hown.2 hdeletes with ⟨hnodel, rfl⟩ | ⟨_, hkey, _, _⟩
    · refine ⟨fun k hk => ⟨?_, by rw [hbd]⟩, ?_⟩
      · rw [hbs, OrdMap.get_insert_ne _ _ (Ne.symm hk)]
      · simp [MutationBatch.overlay, RecordMigration.outcome, hbs, hbd, hset, hnodel, hfree.2]
    · exact absurd (by rw [hbs]; simp) hkey

/-- A page: every record gets what the step makes of it, other keys are not mentioned. -/
theorem collectPage_own {step : MigrationStep} {entries : List (Bytes × Bytes)}
    (hown : ∀ key value m, (key, value) ∈ entries →
      step.migrateRecord table key value = .ok m → m.OwnKey key)
    (hnodup : (entries.map Prod.fst).Nodup) (hfree : ∀ k ∈ entries.map Prod.fst, batch.Free k)
    (h : collectPage table step maxBytes entries batch = .ok b) :
    (∀ k, k ∉ entries.map Prod.fst → MutationBatch.SameAt k batch b) ∧
      ∀ k v, (k, v) ∈ entries → step.outcome table k v = .ok (b.overlay k (some v)) := by
  induction entries generalizing batch with
  | nil =>
    cases h
    exact ⟨fun k _ => ⟨rfl, Iff.rfl⟩, fun k v hmem => by cases hmem⟩
  | cons entry rest ih =>
    obtain ⟨key, value⟩ := entry
    rw [List.map_cons, List.nodup_cons] at hnodup
    rw [collectPage] at h
    obtain ⟨m, hm, h⟩ := bind_eq_ok h
    obtain ⟨batch', hcollect, h⟩ := bind_eq_ok h
    obtain ⟨hothers, hat⟩ := collectRecordMigration_own
      (hown _ _ _ List.mem_cons_self hm) (hfree key (by simp)) hcollect value
    have hfree' : ∀ k ∈ rest.map Prod.fst, batch'.Free k := fun k hk =>
      (hothers k (fun heq => hnodup.1 (heq ▸ hk))).free (hfree k (by simp [hk]))
    obtain ⟨hsame, hrest⟩ := ih
      (fun k v m hmem => hown k v m (List.mem_cons_of_mem _ hmem)) hnodup.2 hfree' h
    constructor
    · intro k hk
      simp only [List.map_cons, List.mem_cons, not_or] at hk
      exact (hothers k hk.1).trans (hsame k hk.2)
    · intro k v hmem
      rcases List.mem_cons.mp hmem with heq | hmem
      · cases heq
        rw [(hsame key hnodup.1).overlay_eq, hat, MigrationStep.outcome, hm]
        rfl
      · exact hrest k v hmem

end Collect

/-! ## The call as a whole -/

section Call

variable (table : StoreTable) (targetVersion : UInt16) (steps : List MigrationStep)
  (options : MigrationOptions)

/-- The step and the checkpoint a call goes on with. -/
structure Resumes (s : Store) (step : MigrationStep) (checkpoint : MigrationCheckpoint) : Prop where
  step_ok : ∃ fromVersion,
    tableVersion table targetVersion s[checkpointKey table]? s[table.schemaKey]? =
        .ok (some fromVersion) ∧
      nextMigrationStep table fromVersion targetVersion steps = .ok step
  checkpoint_ok : resumeCheckpoint table step s[checkpointKey table]? = .ok checkpoint

/-- What a successful call can do. -/
inductive TableStep (s : Store) : Option MigrationProgress → Store → Prop where
  | done (h : tableVersion table targetVersion s[checkpointKey table]? s[table.schemaKey]? =
      .ok none) : TableStep s none s
  | finish {step : MigrationStep} {checkpoint : MigrationCheckpoint} {s' : Store}
      (hresume : Resumes table targetVersion steps s step checkpoint)
      (hscan : s.scanPrefixPageAfterBounded none (asBytes table.dataPrefix)
        checkpoint.lastProcessedKey options.maxRecords options.maxBytes = .ok [])
      (hwrite : s.applyBatch none [(table.schemaKey, (SchemaHeader.mk step.toVersion table).encode)]
        [checkpointKey table] = .ok s') :
      TableStep s (some (.tableCompleted table.name step.fromVersion step.toVersion)) s'
  | page {step : MigrationStep} {checkpoint : MigrationCheckpoint} {s' : Store}
      {entries : List (Bytes × Bytes)} {last : Bytes × Bytes} {batch : MutationBatch}
      {cursor : Bytes} (hresume : Resumes table targetVersion steps s step checkpoint)
      (hscan : s.scanPrefixPageAfterBounded none (asBytes table.dataPrefix)
        checkpoint.lastProcessedKey options.maxRecords options.maxBytes = .ok entries)
      (hlast : entries.getLast? = some last)
      (hbatch : collectPage table step options.maxBytes entries
        ⟨∅, ∅, (entries.map Store.recordBytes).sum⟩ = .ok batch)
      (hcursor : { checkpoint with lastProcessedKey := some last.1 : MigrationCheckpoint }.encode =
        .ok cursor)
      (hwrite : s.applyBatch none (batch.sets.insert (checkpointKey table) cursor).toList
        batch.deletes.toList = .ok s') :
      TableStep s (some (.batchValidated table.name entries.length)) s'

variable {table targetVersion steps options}

theorem scan_fault_eq_ok {pfx : Bytes} {page : List (Bytes × Bytes)}
    (h : s.scanPrefixPageAfterBounded fault pfx cursor options.maxRecords options.maxBytes =
      .ok page) :
    s.scanPrefixPageAfterBounded none pfx cursor options.maxRecords options.maxBytes =
      .ok page := by
  cases fault with
  | none => exact h
  | some e =>
    rw [Store.scanPrefixPageAfterBounded, if_neg options.maxRecords_ne_zero] at h
    cases h

theorem applyBatch_fault_eq_ok {sets : List (Bytes × Bytes)} {deletes : List Bytes}
    (h : s.applyBatch fault sets deletes = .ok s') : s.applyBatch none sets deletes = .ok s' := by
  rw [(Store.accessing_eq_ok h).1]
  rfl

theorem exec_migrateTableBatch_ok {faults : MigrationAccess → Option StoreError}
    {progress : Option MigrationProgress}
    (h : (migrateTableBatch faults table targetVersion steps options).exec s =
      (.ok progress, s')) :
    TableStep table targetVersion steps options s progress s' := by
  obtain ⟨checkpointBytes, hck, h₁⟩ := StoreM.exec_read_bind_eq_ok h
  obtain ⟨rfl, _⟩ := Store.accessing_eq_ok hck
  obtain ⟨schemaBytes, hschema, h₂⟩ := StoreM.exec_read_bind_eq_ok h₁
  obtain ⟨rfl, _⟩ := Store.accessing_eq_ok hschema
  obtain ⟨version, hversion, h₃⟩ := StoreM.exec_ofExcept_bind_eq_ok h₂
  cases version with
  | none =>
    cases h₃
    exact .done hversion
  | some fromVersion =>
    obtain ⟨step, hstep, h₄⟩ := StoreM.exec_ofExcept_bind_eq_ok h₃
    obtain ⟨checkpoint, hcheckpoint, h₅⟩ := StoreM.exec_ofExcept_bind_eq_ok h₄
    have hresume : Resumes table targetVersion steps s step checkpoint :=
      ⟨⟨fromVersion, hversion, hstep⟩, hcheckpoint⟩
    obtain ⟨entries, hentries, h₆⟩ := StoreM.exec_read_bind_eq_ok h₅
    have hscan := scan_fault_eq_ok hentries
    cases hlast : entries.getLast? with
    | none =>
      rw [hlast] at h₆
      rw [List.getLast?_eq_none_iff.mp hlast] at hscan
      obtain ⟨s₁, hwrite, h₇⟩ := StoreM.exec_write_bind_eq_ok h₆
      cases h₇
      exact .finish hresume hscan (applyBatch_fault_eq_ok hwrite)
    | some last =>
      rw [hlast] at h₆
      obtain ⟨batch, hbatch, h₇⟩ := StoreM.exec_ofExcept_bind_eq_ok h₆
      obtain ⟨cursor, hcursor, h₈⟩ := StoreM.exec_ofExcept_bind_eq_ok h₇
      obtain ⟨s₁, hwrite, h₉⟩ := StoreM.exec_write_bind_eq_ok h₈
      cases h₉
      exact .page hresume hscan hlast hbatch hcursor (applyBatch_fault_eq_ok hwrite)

/-- A call that fails has written nothing: the batch is its last access. -/
theorem migrateTableBatch_failsClean (faults : MigrationAccess → Option StoreError) :
    (migrateTableBatch faults table targetVersion steps options).FailsClean := by
  -- one line for each part of the call; all but the last only read
  refine .bind_read (StoreM.readOnly_read _ _) fun checkpointBytes => ?_
  refine .bind_read (StoreM.readOnly_read _ _) fun schemaBytes => ?_
  refine .bind_read (StoreM.readOnly_ofExcept _) fun version => ?_
  cases version with
  | none => exact (StoreM.readOnly_pure _).failsClean
  | some fromVersion =>
    refine .bind_read (StoreM.readOnly_ofExcept _) fun step => ?_
    refine .bind_read (StoreM.readOnly_ofExcept _) fun checkpoint => ?_
    refine .bind_read (StoreM.readOnly_read _ _) fun entries => ?_
    cases entries.getLast? with
    | none => exact .bind_pure (StoreM.failsClean_write _ _) _
    | some last =>
      refine .bind_read (StoreM.readOnly_ofExcept _) fun batch => ?_
      refine .bind_read (StoreM.readOnly_ofExcept _) fun cursor => ?_
      exact .bind_pure (StoreM.failsClean_write _ _) _

/-- Without storage failures a call does what `TableStep` says it can. -/
theorem exec_of_tableStep {progress : Option MigrationProgress}
    (h : TableStep table targetVersion steps options s progress s') :
    (migrateTableBatch (fun _ => none) table targetVersion steps options).exec s =
      (.ok progress, s') := by
  have hck : s.get none (checkpointKey table) = .ok s[checkpointKey table]? := rfl
  have hschema : s.get none table.schemaKey = .ok s[table.schemaKey]? := rfl
  refine (StoreM.exec_read_bind hck).trans ?_
  refine (StoreM.exec_read_bind hschema).trans ?_
  cases h with
  | done hversion => exact StoreM.exec_ofExcept_bind hversion
  | finish hresume hscan hwrite =>
    obtain ⟨fromVersion, hversion, hstep⟩ := hresume.step_ok
    refine (StoreM.exec_ofExcept_bind hversion).trans ?_
    refine (StoreM.exec_ofExcept_bind hstep).trans ?_
    refine (StoreM.exec_ofExcept_bind hresume.checkpoint_ok).trans ?_
    refine (StoreM.exec_read_bind hscan).trans ?_
    exact StoreM.exec_write_bind hwrite
  | page hresume hscan hlast hbatch hcursor hwrite =>
    obtain ⟨fromVersion, hversion, hstep⟩ := hresume.step_ok
    refine (StoreM.exec_ofExcept_bind hversion).trans ?_
    refine (StoreM.exec_ofExcept_bind hstep).trans ?_
    refine (StoreM.exec_ofExcept_bind hresume.checkpoint_ok).trans ?_
    refine (StoreM.exec_read_bind hscan).trans ?_
    rw [hlast]
    refine (StoreM.exec_ofExcept_bind hbatch).trans ?_
    refine (StoreM.exec_ofExcept_bind hcursor).trans ?_
    exact StoreM.exec_write_bind hwrite

end Call

/-! ## The stored checkpoint -/

/-- The stored checkpoint is the one of the running step with this cursor. -/
def HasCheckpoint (table : StoreTable) (s : Store) (fromVersion toVersion : UInt16)
    (cursor : Option Bytes) : Prop :=
  match cursor with
  | none => s[checkpointKey table]? = none
  | some c => ∃ bytes, s[checkpointKey table]? = some bytes ∧
      (MigrationCheckpoint.mk table fromVersion toVersion (some c)).encode = .ok bytes

theorem StoreTable.holds_ne_nil {table : StoreTable} {c : Bytes} (h : table.holds c = true) :
    c ≠ [] := by
  rintro rfl
  revert h
  cases table <;> decide +kernel

/-- A call goes on from the stored cursor. -/
theorem resumeCheckpoint_of_hasCheckpoint {table : StoreTable} {step : MigrationStep}
    (hck : HasCheckpoint table s step.fromVersion step.toVersion cursor)
    (hin : ∀ c, cursor = some c → table.holds c = true) :
    resumeCheckpoint table step s[checkpointKey table]? =
      .ok ⟨table, step.fromVersion, step.toVersion, cursor⟩ := by
  have hloaded : loadCheckpoint table step s[checkpointKey table]? =
      .ok ⟨table, step.fromVersion, step.toVersion, cursor⟩ := by
    cases cursor with
    | none =>
      rw [show s[checkpointKey table]? = none from hck]
      rfl
    | some c =>
      obtain ⟨bytes, hbytes, hencode⟩ := hck
      have hne : (some c : Option Bytes) ≠ some [] := fun heq =>
        StoreTable.holds_ne_nil (hin c rfl) (Option.some.inj heq)
      rw [hbytes]
      exact MigrationCheckpoint.decode_encode hne hencode
  simp [resumeCheckpoint, hloaded, bind, Except.bind]

end Numax
