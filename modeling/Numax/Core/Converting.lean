import Numax.Core.MigrationBatch

/-!
# The stages of a legacy migration

A store written before schema headers existed is migrated table by table. The
step from the layout without headers changes no record, so the only keys
written are headers and checkpoints. The invariant (`Converting`) gives every
table a stage: done, or running with a cursor up to which all records have been
checked. Each successful step other than `Complete` either moves a cursor over
a pending record or finishes a table, so it lowers the work left
(`Converting.step`); without storage failures a step succeeds
(`Converting.exists_step`).
-/

open Base Std

namespace Numax

variable {serde : Serde} {readers : LegacyReaders}

/-! ## The legacy step -/

theorem migrateLegacyRecord_eq_ok {table : StoreTable} {key value : Bytes} {m : RecordMigration}
    (h : migrateLegacyRecord serde readers table key value = .ok m) :
    m = RecordMigration.unchanged := by
  rw [migrateLegacyRecord] at h
  split at h
  · cases h
  · split at h
    · cases h
    · cases h
      rfl

/-- The record passes the check of its table. -/
def ValidRecord (serde : Serde) (readers : LegacyReaders) (table : StoreTable)
    (key value : Bytes) : Prop :=
  migrateLegacyRecord serde readers table key value = .ok RecordMigration.unchanged

variable {entries : List (Bytes × Bytes)}

/-- A page of valid records is collected without a mutation. -/
theorem collectPage_legacy {table : StoreTable} {maxBytes : Nat}
    (hvalid : ∀ key value, (key, value) ∈ entries → ValidRecord serde readers table key value)
    (batch : MutationBatch) :
    collectPage table (legacyToV1 serde readers) maxBytes entries batch = .ok batch := by
  induction entries with
  | nil => rfl
  | cons entry rest ih =>
    obtain ⟨key, value⟩ := entry
    have hrecord : (legacyToV1 serde readers).migrateRecord table key value =
        .ok RecordMigration.unchanged := hvalid key value List.mem_cons_self
    rw [collectPage, hrecord]
    exact ih fun k v hmem => hvalid k v (List.mem_cons_of_mem _ hmem)

theorem collectPage_legacy_eq_ok {table : StoreTable} {maxBytes : Nat} {batch b : MutationBatch}
    (h : collectPage table (legacyToV1 serde readers) maxBytes entries batch = .ok b) :
    b = batch ∧
      ∀ key value, (key, value) ∈ entries → ValidRecord serde readers table key value := by
  induction entries generalizing batch with
  | nil =>
    cases h
    exact ⟨rfl, fun _ _ hmem => by cases hmem⟩
  | cons entry rest ih =>
    obtain ⟨key, value⟩ := entry
    obtain ⟨m, hm, h⟩ := bind_eq_ok h
    have hunchanged := migrateLegacyRecord_eq_ok hm
    subst hunchanged
    obtain ⟨b', hb', h⟩ := bind_eq_ok h
    cases hb'
    obtain ⟨hb, hrest⟩ := ih h
    refine ⟨hb, fun k v hmem => ?_⟩
    rcases List.mem_cons.mp hmem with heq | hmem
    · cases heq
      exact hm
    · exact hrest k v hmem

theorem nextMigrationStep_legacy (table : StoreTable) :
    nextMigrationStep table 0 table.currentVersion (migrationSteps serde readers table) =
      .ok (legacyToV1 serde readers) := rfl

/-! ## Stages -/

/-- A record of a table that had no header at the start. -/
def LegacyRecord (start : Store) (table : StoreTable) (key value : Bytes) : Prop :=
  start[table.schemaKey]? = none ∧ table.holds key = true ∧ start[key]? = some value

/-- Where a table is on its way. -/
inductive Stage (serde : Serde) (readers : LegacyReaders) (start s : Store) (table : StoreTable) :
    Option Bytes → Prop where
  | done (header : s[table.schemaKey]? = some (SchemaHeader.current table).encode)
      (checkpoint : s[checkpointKey table]? = none)
      (checked : ∀ key value, LegacyRecord start table key value →
        ValidRecord serde readers table key value) :
      Stage serde readers start s table none
  | running {cursor : Option Bytes} (legacy : start[table.schemaKey]? = none)
      (header : s[table.schemaKey]? = none)
      (checkpoint : HasCheckpoint table s 0 1 cursor)
      (cursor_in : ∀ c, cursor = some c → table.holds c = true)
      (checked : ∀ key value, LegacyRecord start table key value → passed cursor key = true →
        ValidRecord serde readers table key value) :
      Stage serde readers start s table cursor

/-- The key of a header or of a checkpoint. -/
def IsMetadataKey (key : Bytes) : Prop :=
  ∃ table : StoreTable, key = table.schemaKey ∨ key = checkpointKey table

structure Converting (serde : Serde) (readers : LegacyReaders) (start s : Store)
    (cursors : StoreTable → Option Bytes) : Prop where
  stage : ∀ table, Stage serde readers start s table (cursors table)
  frame : ∀ key, ¬ IsMetadataKey key → s[key]? = start[key]?

/-- Every table has the current header or none, and no migration is under way. -/
structure LegacyStore (start : Store) : Prop where
  header : ∀ table : StoreTable, start[table.schemaKey]? = none ∨
    start[table.schemaKey]? = some (SchemaHeader.current table).encode
  checkpoint : ∀ table, start[checkpointKey table]? = none

theorem LegacyStore.converting {start : Store} (h : LegacyStore start) :
    Converting serde readers start start fun _ => none where
  stage := by
    intro table
    rcases h.header table with hnone | hcurrent
    · exact .running hnone hnone (h.checkpoint table) (fun c hc => by cases hc)
        (fun _ _ _ hpassed => by cases hpassed)
    · refine .done hcurrent (h.checkpoint table) fun key value hrecord => ?_
      rw [hrecord.1] at hcurrent
      cases hcurrent
  frame := fun _ _ => rfl

theorem not_isMetadataKey_of_holds {table : StoreTable} {key : Bytes}
    (h : table.holds key = true) : ¬ IsMetadataKey key := by
  rintro ⟨u, rfl | rfl⟩
  · rw [StoreTable.holds_schemaKey] at h
    cases h
  · rw [StoreTable.holds_checkpointKey] at h
    cases h

variable {cursor : Option Bytes}

/-- The pending records are those of the start. -/
theorem Converting.pending_iff {start s : Store} {cursors : StoreTable → Option Bytes}
    (h : Converting serde readers start s cursors) {table : StoreTable} {entry : Bytes × Bytes} :
    entry ∈ pending table.holds s cursor ↔ entry ∈ pending table.holds start cursor := by
  obtain ⟨key, value⟩ := entry
  rw [mem_pending, mem_pending]
  constructor
  · rintro ⟨hget, hin, hnew⟩
    exact ⟨by rw [← h.frame key (not_isMetadataKey_of_holds hin), hget], hin, hnew⟩
  · rintro ⟨hget, hin, hnew⟩
    exact ⟨by rw [h.frame key (not_isMetadataKey_of_holds hin), hget], hin, hnew⟩

theorem Stage.transfer {start s s' : Store} {table : StoreTable}
    (h : Stage serde readers start s table cursor)
    (hschema : s'[table.schemaKey]? = s[table.schemaKey]?)
    (hck : s'[checkpointKey table]? = s[checkpointKey table]?) :
    Stage serde readers start s' table cursor := by
  cases h with
  | done header checkpoint checked =>
    exact .done (hschema.trans header) (hck.trans checkpoint) checked
  | running legacy header checkpoint cursor_in checked =>
    refine .running legacy (hschema.trans header) ?_ cursor_in checked
    cases cursor with
    | none => exact hck.trans checkpoint
    | some c =>
      obtain ⟨bytes, hbytes, hencode⟩ := checkpoint
      exact ⟨bytes, hck.trans hbytes, hencode⟩

/-- A write that touches the metadata of one table only. -/
theorem Converting.update {start s s' : Store} {cursors : StoreTable → Option Bytes}
    (h : Converting serde readers start s cursors) {table : StoreTable} {cursor : Option Bytes}
    (hothers : ∀ key, key ≠ table.schemaKey → key ≠ checkpointKey table → s'[key]? = s[key]?)
    (hstage : Stage serde readers start s' table cursor) :
    Converting serde readers start s' (Function.update cursors table cursor) where
  stage := by
    intro u
    by_cases hu : u = table
    · subst hu
      rw [Function.update_self]
      exact hstage
    · rw [Function.update_of_ne hu]
      refine (h.stage u).transfer (hothers _ ?_ ?_) (hothers _ ?_ ?_)
      · exact fun heq => hu (StoreTable.schemaKey_inj heq)
      · exact Ne.symm (StoreTable.checkpointKey_ne_schemaKey table u)
      · exact StoreTable.checkpointKey_ne_schemaKey u table
      · exact fun heq => hu (StoreTable.checkpointKey_inj heq)
  frame := by
    intro key hkey
    rw [hothers key (fun heq => hkey ⟨table, .inl heq⟩) (fun heq => hkey ⟨table, .inr heq⟩)]
    exact h.frame key hkey

/-! ## The work left -/

/-- Steps a table may still need: one per pending record and one to finish. -/
def tableWork (start s : Store) (cursors : StoreTable → Option Bytes) (table : StoreTable) : Nat :=
  if s[table.schemaKey]?.isNone then (pending table.holds start (cursors table)).length + 1 else 0

def workLeft (start s : Store) (cursors : StoreTable → Option Bytes) : Nat :=
  (StoreTable.all.map (tableWork start s cursors)).sum

/-- The steps a store without headers can need. -/
def legacyWork (start : Store) : Nat := workLeft start start fun _ => none

theorem workLeft_lt {start s s' : Store} {cursors cursors' : StoreTable → Option Bytes}
    (table : StoreTable)
    (hothers : ∀ u, u ≠ table → tableWork start s' cursors' u = tableWork start s cursors u)
    (htable : tableWork start s' cursors' table < tableWork start s cursors table) :
    workLeft start s' cursors' < workLeft start s cursors := by
  refine List.sum_lt_sum _ _ (fun u _ => ?_) ⟨table, StoreTable.mem_all table, htable⟩
  by_cases hu : u = table
  · rw [hu]
    exact Nat.le_of_lt htable
  · exact Nat.le_of_eq (hothers u hu)

theorem tableWork_congr {start s s' : Store} {cursors cursors' : StoreTable → Option Bytes}
    {u : StoreTable} (hschema : s'[u.schemaKey]? = s[u.schemaKey]?)
    (hcursor : cursors' u = cursors u) :
    tableWork start s' cursors' u = tableWork start s cursors u := by
  rw [tableWork, tableWork, hschema, hcursor]

/-! ## One batch of one table -/

theorem tableVersion_done {table : StoreTable} {s : Store}
    (hheader : s[table.schemaKey]? = some (SchemaHeader.current table).encode)
    (hck : s[checkpointKey table]? = none) :
    tableVersion table table.currentVersion s[checkpointKey table]? s[table.schemaKey]? =
      .ok none := by
  have hdecode : SchemaHeader.decode table (SchemaHeader.current table).encode =
      .ok (SchemaHeader.current table) := SchemaHeader.decode_encode (SchemaHeader.current table)
  rw [hheader, hck]
  simp only [tableVersion, hdecode, ofSchema, Except.mapError, bind, Except.bind]
  rfl

theorem tableVersion_headerless {table : StoreTable} {s : Store} {target : UInt16}
    {checkpointBytes : Option Bytes} (hheader : s[table.schemaKey]? = none) :
    tableVersion table target checkpointBytes s[table.schemaKey]? = .ok (some 0) := by
  rw [hheader]
  rfl

/-- What a call on a running table goes on with. -/
theorem resumes_running {table : StoreTable} {s : Store} (hheader : s[table.schemaKey]? = none)
    (hck : HasCheckpoint table s 0 1 cursor) (hin : ∀ c, cursor = some c → table.holds c = true) :
    Resumes table table.currentVersion (migrationSteps serde readers table) s
      (legacyToV1 serde readers) ⟨table, 0, 1, cursor⟩ :=
  ⟨⟨0, tableVersion_headerless hheader, nextMigrationStep_legacy table⟩,
    resumeCheckpoint_of_hasCheckpoint hck hin⟩

theorem Resumes.unique {table : StoreTable} {target : UInt16} {steps : List MigrationStep}
    {s : Store} {step step' : MigrationStep} {checkpoint checkpoint' : MigrationCheckpoint}
    (h : Resumes table target steps s step checkpoint)
    (h' : Resumes table target steps s step' checkpoint') :
    step = step' ∧ checkpoint = checkpoint' := by
  obtain ⟨version, hversion, hstep⟩ := h.step_ok
  obtain ⟨version', hversion', hstep'⟩ := h'.step_ok
  rw [hversion] at hversion'
  cases hversion'
  rw [hstep] at hstep'
  cases hstep'
  exact ⟨rfl, Except.ok.inj (h.checkpoint_ok.symm.trans h'.checkpoint_ok)⟩

section Step

variable {start s s' : Store} {cursors : StoreTable → Option Bytes} {table : StoreTable}
  {options : MigrationOptions}

/-- A table that is running is done once nothing is pending. -/
theorem Converting.finishTable (h : Converting serde readers start s cursors)
    (header : s[table.schemaKey]? = none)
    (checked : ∀ key value, LegacyRecord start table key value →
      passed (cursors table) key = true → ValidRecord serde readers table key value)
    (hdone : pending table.holds s (cursors table) = [])
    (hwrite : s.applyBatch none [(table.schemaKey, (SchemaHeader.mk 1 table).encode)]
      [checkpointKey table] = .ok s') :
    ∃ cursors', Converting serde readers start s' cursors' ∧
      workLeft start s' cursors' < workLeft start s cursors := by
  have hlookup := get_finished hwrite
  have hothers : ∀ key, key ≠ table.schemaKey → key ≠ checkpointKey table →
      s'[key]? = s[key]? := fun key hschema hck => by
    rw [hlookup, if_neg hck, if_neg hschema]
  have hheader : s'[table.schemaKey]? = some (SchemaHeader.current table).encode := by
    rw [hlookup, if_neg (Ne.symm (StoreTable.checkpointKey_ne_schemaKey table table)), if_pos rfl]
    rfl
  have hstage : Stage serde readers start s' table none := by
    refine .done hheader (by rw [hlookup, if_pos rfl]) fun key value hrecord => ?_
    refine checked key value hrecord ?_
    cases hnew : passed (cursors table) key with
    | true => rfl
    | false =>
      have hmem := h.pending_iff.mpr (mem_pending.mpr ⟨hrecord.2.2, hrecord.2.1, hnew⟩)
      rw [hdone] at hmem
      cases hmem
  refine ⟨_, h.update hothers hstage, workLeft_lt table (fun u hu => ?_) ?_⟩
  · refine tableWork_congr (hothers _ (fun heq => hu (StoreTable.schemaKey_inj heq))
      (Ne.symm (StoreTable.checkpointKey_ne_schemaKey table u))) ?_
    rw [Function.update_of_ne hu]
  · rw [tableWork, tableWork, hheader, header]
    simp

/-- A page of a running table has been checked. -/
theorem Converting.checkPage {rest : List (Bytes × Bytes)} {last : Bytes × Bytes} {bytes : Bytes}
    {size : Nat} (h : Converting serde readers start s cursors)
    (legacy : start[table.schemaKey]? = none) (header : s[table.schemaKey]? = none)
    (checked : ∀ key value, LegacyRecord start table key value →
      passed (cursors table) key = true → ValidRecord serde readers table key value)
    (hpage : pending table.holds s (cursors table) = entries ++ rest)
    (hlast : entries.getLast? = some last)
    (hvalid : ∀ key value, (key, value) ∈ entries → ValidRecord serde readers table key value)
    (hcursor : (MigrationCheckpoint.mk table 0 1 (some last.1)).encode = .ok bytes)
    (hwrite : s.applyBatch none
      ((MutationBatch.mk ∅ ∅ size).sets.insert (checkpointKey table) bytes).toList
      (MutationBatch.mk ∅ ∅ size).deletes.toList = .ok s') :
    ∃ cursors', Converting serde readers start s' cursors' ∧
      workLeft start s' cursors' < workLeft start s cursors := by
  have hfree : ∀ key, (MutationBatch.mk ∅ ∅ size).Free key := fun key => ⟨by simp, by simp⟩
  have hlookup := MutationBatch.get_written (hfree (checkpointKey table)) hwrite
  have hothers : ∀ key, key ≠ checkpointKey table → s'[key]? = s[key]? := fun key hck => by
    rw [hlookup, if_neg hck, MutationBatch.overlay_free (hfree key)]
  have hschema := hothers _ (Ne.symm (StoreTable.checkpointKey_ne_schemaKey table table))
  have hmem : last ∈ pending table.holds s (cursors table) := by
    rw [hpage]
    exact List.mem_append_left _ (List.mem_of_getLast? hlast)
  have hstage : Stage serde readers start s' table (some last.1) := by
    refine .running legacy (hschema.trans header) ⟨bytes, by rw [hlookup, if_pos rfl], hcursor⟩
      (fun c hc => ?_) (fun key value hrecord hpassed => ?_)
    · cases hc
      exact (mem_pending.mp hmem).2.1
    · cases hold : passed (cursors table) key with
      | true => exact checked key value hrecord hold
      | false =>
        have hpending := h.pending_iff.mpr (mem_pending.mpr ⟨hrecord.2.2, hrecord.2.1, hold⟩)
        exact hvalid key value (mem_page hpage hlast hpending hpassed)
  refine ⟨_, h.update (fun key _ => hothers key) hstage,
    workLeft_lt table (fun u hu => ?_) ?_⟩
  · refine tableWork_congr (hothers _ (Ne.symm (StoreTable.checkpointKey_ne_schemaKey table u))) ?_
    rw [Function.update_of_ne hu]
  · have hlt := length_pending_lt (h.pending_iff.mp hmem)
    rw [tableWork, tableWork, hschema, header, Function.update_self]
    simpa using hlt

/-- What a successful call does to a table. -/
theorem Converting.tableStep {progress : Option MigrationProgress}
    (h : Converting serde readers start s cursors)
    (hstep : TableStep table table.currentVersion (migrationSteps serde readers table) options s
      progress s') :
    (progress = none ∧ s' = s ∧ s[table.schemaKey]? = some (SchemaHeader.current table).encode) ∨
      ∃ p, progress = some p ∧ p ≠ .complete ∧ s[table.schemaKey]? = none ∧
        ∃ cursors', Converting serde readers start s' cursors' ∧
          workLeft start s' cursors' < workLeft start s cursors := by
  have hstage := h.stage table
  generalize hc : cursors table = cursor at hstage
  cases hstage with
  | done header checkpoint checked =>
    -- the version is the current one: there is no step to resume
    have hversion := tableVersion_done header checkpoint
    cases hstep with
    | done _ => exact .inl ⟨rfl, rfl, header⟩
    | finish hresume _ _ =>
      obtain ⟨version, hfound, _⟩ := hresume.step_ok
      rw [hversion] at hfound
      cases hfound
    | page hresume _ _ _ _ _ =>
      obtain ⟨version, hfound, _⟩ := hresume.step_ok
      rw [hversion] at hfound
      cases hfound
  | running legacy header checkpoint cursor_in checked =>
    -- what is resumed is the step of the stage
    have hexpected : Resumes table table.currentVersion (migrationSteps serde readers table) s
        (legacyToV1 serde readers) ⟨table, 0, 1, cursor⟩ :=
      resumes_running header checkpoint cursor_in
    subst hc
    cases hstep with
    | done hversion =>
      rw [tableVersion_headerless header] at hversion
      cases hversion
    | finish hresume hscan hwrite =>
      obtain ⟨rfl, rfl⟩ := hresume.unique hexpected
      obtain ⟨rest, _, hempty⟩ := scan_eq_ok cursor_in hscan
      exact .inr ⟨_, rfl, by simp, header,
        h.finishTable header checked (hempty rfl) hwrite⟩
    | page hresume hscan hlast hbatch hcursor hwrite =>
      obtain ⟨rfl, rfl⟩ := hresume.unique hexpected
      obtain ⟨rest, hpage, _⟩ := scan_eq_ok cursor_in hscan
      obtain ⟨rfl, hvalid⟩ := collectPage_legacy_eq_ok hbatch
      exact .inr ⟨_, rfl, by simp, header,
        h.checkPage legacy header checked hpage hlast hvalid hcursor hwrite⟩

/-- All records that have to be checked pass, and their keys fit a checkpoint. -/
structure Migratable (serde : Serde) (readers : LegacyReaders) (start : Store) : Prop where
  valid : ∀ table key value, LegacyRecord start table key value →
    ValidRecord serde readers table key value
  short : ∀ table key value, LegacyRecord start table key value → key.length < 2 ^ 32

/-- The byte limit has room for every record that has to be checked. -/
def Ample (start : Store) (options : MigrationOptions) : Prop :=
  ∀ table key value, LegacyRecord start table key value →
    key.length + value.length ≤ options.maxBytes

/-- A call on any table succeeds. -/
theorem Converting.exists_tableStep (h : Converting serde readers start s cursors)
    (hgood : Migratable serde readers start) (hroom : Ample start options) (table : StoreTable) :
    ∃ progress s', TableStep table table.currentVersion (migrationSteps serde readers table)
      options s progress s' := by
  have hstage := h.stage table
  generalize cursors table = cursor at hstage
  cases hstage with
  | done header checkpoint checked => exact ⟨none, s, .done (tableVersion_done header checkpoint)⟩
  | running legacy header checkpoint cursor_in checked =>
    have hresume : Resumes table table.currentVersion (migrationSteps serde readers table) s
        (legacyToV1 serde readers) ⟨table, 0, 1, cursor⟩ :=
      resumes_running header checkpoint cursor_in
    have hrecord : ∀ key value, (key, value) ∈ pending table.holds s cursor →
        LegacyRecord start table key value := fun key value hmem => by
      obtain ⟨hget, hin, _⟩ := mem_pending.mp (h.pending_iff.mp hmem)
      exact ⟨legacy, hin, hget⟩
    obtain ⟨entries, hscan⟩ := scan_of_fits options cursor_in
      fun entry hmem => hroom table entry.1 entry.2 (hrecord entry.1 entry.2 hmem)
    obtain ⟨rest, hpage, _⟩ := scan_eq_ok cursor_in hscan
    cases hlast : entries.getLast? with
    | none =>
      rw [List.getLast?_eq_none_iff.mp hlast] at hscan
      exact ⟨_, _, .finish hresume hscan rfl⟩
    | some last =>
      have hin : ∀ key value, (key, value) ∈ entries → LegacyRecord start table key value :=
        fun key value hmem => hrecord key value (by
          rw [hpage]
          exact List.mem_append_left _ hmem)
      have hvalid : ∀ key value, (key, value) ∈ entries →
          ValidRecord serde readers table key value := fun key value hmem =>
        hgood.valid table key value (hin key value hmem)
      have hshort := hgood.short table last.1 last.2 (hin _ _ (List.mem_of_getLast? hlast))
      obtain ⟨bytes, hcursor⟩ := MigrationCheckpoint.encode_of_lt
        (c := ⟨table, 0, 1, some last.1⟩) hshort
      exact ⟨_, _, .page hresume hscan hlast (collectPage_legacy hvalid _) hcursor rfl⟩

end Step

/-! ## One step over all tables -/

variable {faults : MigrationAccess → Option StoreError}
  {result : Except MigrationError MigrationProgress}

/-- Everything a step of a session can do. -/
theorem exec_migrateTables {options : MigrationOptions} {tables : List StoreTable} {s s' : Store}
    (h : (migrateTables serde readers faults options tables).exec s = (result, s')) :
    (∃ e, result = .error e ∧ s' = s) ∨
      (result = .ok .complete ∧ s' = s ∧ ∀ table ∈ tables,
        TableStep table table.currentVersion (migrationSteps serde readers table) options s
          none s) ∨
      ∃ table progress, result = .ok progress ∧
        TableStep table table.currentVersion (migrationSteps serde readers table) options s
          (some progress) s' := by
  induction tables with
  | nil =>
    cases h
    exact .inr (.inl ⟨rfl, rfl, fun _ hmem => by cases hmem⟩)
  | cons table rest ih =>
    rw [migrateTables, StoreM.exec_bind] at h
    rcases hrun : (migrateTableBatch faults table table.currentVersion
      (migrationSteps serde readers table) options).exec s with ⟨e | progress, s₁⟩
    · rw [hrun] at h
      cases h
      exact .inl ⟨e, rfl, migrateTableBatch_failsClean faults s e _ hrun⟩
    · have hstep := exec_migrateTableBatch_ok hrun
      rw [hrun] at h
      cases progress with
      | some p =>
        cases h
        exact .inr (.inr ⟨table, p, rfl, hstep⟩)
      | none =>
        have hs : s₁ = s := by
          cases hstep
          rfl
        subst hs
        rcases ih h with herr | ⟨hcomplete, hs, hall⟩ | hmore
        · exact .inl herr
        · refine .inr (.inl ⟨hcomplete, hs, fun u hu => ?_⟩)
          rcases List.mem_cons.mp hu with rfl | hu
          · exact hstep
          · exact hall u hu
        · exact .inr (.inr hmore)

theorem preflightCheckpoint_readOnly (faults : MigrationAccess → Option StoreError)
    (table : StoreTable) :
    (preflightCheckpoint serde readers faults table).ReadOnly := by
  refine (StoreM.readOnly_read _ _).bind fun found => ?_
  cases found with
  | none => exact StoreM.readOnly_pure _
  | some bytes =>
    refine (StoreM.readOnly_ofExcept _).bind fun checkpoint => ?_
    split
    · exact StoreM.readOnly_throw _
    · refine (StoreM.readOnly_read _ _).bind fun schemaBytes => ?_
      refine (StoreM.readOnly_ofExcept _).bind fun version => ?_
      split
      · exact StoreM.readOnly_throw _
      · refine (StoreM.readOnly_ofExcept _).bind fun step => ?_
        split
        · exact StoreM.readOnly_throw _
        · exact StoreM.readOnly_pure _

theorem preflightCheckpoints_readOnly (faults : MigrationAccess → Option StoreError)
    (tables : List StoreTable) :
    (preflightCheckpoints serde readers faults tables).ReadOnly := by
  induction tables with
  | nil => exact StoreM.readOnly_pure _
  | cons table rest ih => exact (preflightCheckpoint_readOnly faults table).bind fun _ => ih

/-- Preflight accepts the checkpoints the migration writes. -/
theorem preflightCheckpoint_ok {start s : Store} {table : StoreTable}
    (h : Stage serde readers start s table cursor) :
    (preflightCheckpoint serde readers (fun _ => none) table).exec s = (.ok (), s) := by
  have hget : s.get none (checkpointKey table) = .ok s[checkpointKey table]? := rfl
  refine (StoreM.exec_read_bind hget).trans ?_
  cases h with
  | done header checkpoint checked =>
    rw [checkpoint]
    rfl
  | running legacy header checkpoint cursor_in checked =>
    cases cursor with
    | none =>
      rw [show s[checkpointKey table]? = none from checkpoint]
      rfl
    | some c =>
      obtain ⟨bytes, hbytes, hencode⟩ := checkpoint
      have hne : (some c : Option Bytes) ≠ some [] := fun heq =>
        StoreTable.holds_ne_nil (cursor_in c rfl) (Option.some.inj heq)
      have hdecode := MigrationCheckpoint.decode_encode hne hencode
      have hin :
          ((some c).any fun key => !startsWith key (asBytes table.dataPrefix)) = false := by
        simpa [StoreTable.holds] using cursor_in c rfl
      have hschema : s.get none table.schemaKey = .ok none := by
        rw [Store.get, header]
        rfl
      rw [hbytes]
      refine (StoreM.exec_ofExcept_bind hdecode).trans ?_
      rw [if_neg (by simp [hin])]
      refine (StoreM.exec_read_bind hschema).trans ?_
      rfl

theorem preflightCheckpoints_ok {start s : Store} {cursors : StoreTable → Option Bytes}
    (h : Converting serde readers start s cursors) (tables : List StoreTable) :
    (preflightCheckpoints serde readers (fun _ => none) tables).exec s = (.ok (), s) := by
  induction tables with
  | nil => rfl
  | cons table rest ih =>
    rw [preflightCheckpoints, StoreM.exec_bind, preflightCheckpoint_ok (h.stage table)]
    exact ih

/-- Everything a step of a session can do. -/
theorem exec_migrateSyncSchemaBatch {options : MigrationOptions} {s s' : Store}
    (h : (migrateSyncSchemaBatch serde readers faults options).exec s = (result, s')) :
    (∃ e, result = .error e ∧ s' = s) ∨
      (result = .ok .complete ∧ s' = s ∧ ∀ table : StoreTable,
        TableStep table table.currentVersion (migrationSteps serde readers table) options s
          none s) ∨
      ∃ table progress, result = .ok progress ∧
        TableStep table table.currentVersion (migrationSteps serde readers table) options s
          (some progress) s' := by
  have hpreflight : ((preflightCheckpoints serde readers faults StoreTable.all).exec s).2 = s :=
    preflightCheckpoints_readOnly faults StoreTable.all s
  rw [migrateSyncSchemaBatch, StoreM.exec_bind] at h
  rcases hrun : (preflightCheckpoints serde readers faults StoreTable.all).exec s with ⟨e | u, s₁⟩
  · rw [hrun] at h hpreflight
    cases h
    exact .inl ⟨e, rfl, hpreflight⟩
  · rw [hrun] at h hpreflight
    have hs : s₁ = s := hpreflight
    subst hs
    rcases exec_migrateTables h with herr | ⟨hcomplete, hs, hall⟩ | hmore
    · exact .inl herr
    · exact .inr (.inl ⟨hcomplete, hs, fun table => hall table (StoreTable.mem_all table)⟩)
    · exact .inr (.inr hmore)

/-- What a step makes of the invariant. -/
theorem Converting.step {options : MigrationOptions} {start s s' : Store}
    {cursors : StoreTable → Option Bytes} (h : Converting serde readers start s cursors)
    (hrun : (migrateSyncSchemaBatch serde readers faults options).exec s = (result, s')) :
    (∃ e, result = .error e ∧ s' = s) ∨
      (result = .ok .complete ∧ s' = s ∧ ∀ table : StoreTable,
        s[table.schemaKey]? = some (SchemaHeader.current table).encode) ∨
      ∃ table p cursors', result = .ok p ∧ p ≠ .complete ∧
        s[StoreTable.schemaKey table]? = none ∧ Converting serde readers start s' cursors' ∧
        workLeft start s' cursors' < workLeft start s cursors := by
  rcases exec_migrateSyncSchemaBatch hrun with herr | ⟨hcomplete, hs, hall⟩ | ⟨table, p, hp, hstep⟩
  · exact .inl herr
  · refine .inr (.inl ⟨hcomplete, hs, fun table => ?_⟩)
    rcases h.tableStep (hall table) with ⟨_, _, hheader⟩ | ⟨p, hp, _⟩
    · exact hheader
    · cases hp
  · rcases h.tableStep hstep with ⟨hnone, _⟩ | ⟨p', hp', hne, hheader, cursors', h', hlt⟩
    · cases hnone
    · cases hp'
      exact .inr (.inr ⟨table, p, cursors', hp, hne, hheader, h', hlt⟩)

/-- Without storage failures a step succeeds. -/
theorem Converting.exists_step {options : MigrationOptions} {start s : Store}
    {cursors : StoreTable → Option Bytes} (h : Converting serde readers start s cursors)
    (hgood : Migratable serde readers start) (hroom : Ample start options) :
    ∃ p s', (migrateSyncSchemaBatch serde readers (fun _ => none) options).exec s =
      (.ok p, s') := by
  have htables : ∀ tables, ∃ p s',
      (migrateTables serde readers (fun _ => none) options tables).exec s = (.ok p, s') := by
    intro tables
    induction tables with
    | nil => exact ⟨_, _, rfl⟩
    | cons table rest ih =>
      obtain ⟨progress, s', hstep⟩ := h.exists_tableStep hgood hroom table
      rw [migrateTables, StoreM.exec_bind, exec_of_tableStep hstep]
      cases progress with
      | some p => exact ⟨_, _, rfl⟩
      | none =>
        have hs : s' = s := by
          cases hstep
          rfl
        rw [hs]
        exact ih
  rw [migrateSyncSchemaBatch, StoreM.exec_bind, preflightCheckpoints_ok h]
  exact htables StoreTable.all

end Numax
