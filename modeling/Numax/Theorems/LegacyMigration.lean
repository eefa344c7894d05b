import Numax.Core.Converting
import Numax.Core.JsonForm

/-!
# Migration of stores without schema headers

Sessions may be abandoned at any point and use different limits. A run of
sessions takes at most `legacyWork` successful steps before `Complete`, and
`Complete` leaves every table with the current header and everything else as it
was (`legacyMigration_completes`). The one thing a table's records need besides
being valid is that their keys fit a checkpoint: a record key of more than
`u32::MAX` bytes is never passed (`longKey_never_completes`).
-/

open Base Std

namespace Numax

variable {serde : Serde} {readers : LegacyReaders}

/-! ## Sessions -/

/-- A successful step that is not the last one. -/
def isAdvance : Except MigrationError MigrationProgress → Bool
  | .ok .complete => false
  | .ok _ => true
  | .error _ => false

/-- Every table has the current header. -/
def AllCurrent (s : Store) : Prop :=
  ∀ table : StoreTable, s[table.schemaKey]? = some (SchemaHeader.current table).encode

/-- What a run of steps with these results makes of the invariant. -/
def Advances (serde : Serde) (readers : LegacyReaders) (start s : Store)
    (results : List (Except MigrationError MigrationProgress)) (s' : Store) : Prop :=
  ∀ cursors, Converting serde readers start s cursors →
    ∃ cursors', Converting serde readers start s' cursors' ∧
      results.countP isAdvance + workLeft start s' cursors' ≤ workLeft start s cursors ∧
      (AllCurrent s → s' = s) ∧ (.ok .complete ∈ results → AllCurrent s')

variable {cursors : StoreTable → Option Bytes}

section Run

variable {start s s₁ s' : Store} {first later : List (Except MigrationError MigrationProgress)}

theorem Advances.nil : Advances serde readers start s [] s := fun cursors h =>
  ⟨cursors, h, by simp, fun _ => rfl, fun hmem => by cases hmem⟩

theorem Advances.append (h₁ : Advances serde readers start s first s₁)
    (h₂ : Advances serde readers start s₁ later s') :
    Advances serde readers start s (first ++ later) s' := by
  intro cursors h
  obtain ⟨cursors₁, hc₁, hwork₁, hstay₁, hdone₁⟩ := h₁ cursors h
  obtain ⟨cursors', hc', hwork', hstay', hdone'⟩ := h₂ cursors₁ hc₁
  refine ⟨cursors', hc', ?_, fun hall => ?_, fun hmem => ?_⟩
  · rw [List.countP_append]
    omega
  · have hs : s₁ = s := hstay₁ hall
    rw [← hs] at hall
    exact (hstay' hall).trans hs
  · rcases List.mem_append.mp hmem with hin | hin
    · have hall := hdone₁ hin
      rw [hstay' hall]
      exact hall
    · exact hdone' hin

theorem Advances.step {faults : MigrationAccess → Option StoreError} {options : MigrationOptions}
    {result : Except MigrationError MigrationProgress}
    (hrun : (migrateSyncSchemaBatch serde readers faults options).exec s = (result, s')) :
    Advances serde readers start s [result] s' := by
  intro cursors h
  rcases h.step hrun with ⟨e, rfl, rfl⟩ | ⟨rfl, rfl, hall⟩ |
    ⟨table, p, cursors', rfl, hne, hheader, h', hlt⟩
  · exact ⟨cursors, h, by simp [isAdvance], fun _ => rfl, fun hmem => by simp at hmem⟩
  · exact ⟨cursors, h, by simp [isAdvance], fun _ => rfl, fun _ => hall⟩
  · refine ⟨cursors', h', ?_, fun hall => ?_, fun hmem => ?_⟩
    · have hone : List.countP isAdvance [.ok p] ≤ 1 := List.countP_le_length
      omega
    · rw [hall table] at hheader
      cases hheader
    · simp only [List.mem_singleton, Except.ok.injEq] at hmem
      exact absurd hmem.symm hne

theorem Advances.takeSteps (migration : SyncSchemaMigration)
    (steps : List (MigrationAccess → Option StoreError)) (s : Store) :
    Advances serde readers start s (migration.takeSteps serde readers steps s).1
      (migration.takeSteps serde readers steps s).2 := by
  induction steps generalizing s with
  | nil => exact .nil
  | cons faults rest ih =>
    rcases hrun : (migration.step serde readers faults).exec s with ⟨result, s₁⟩
    simp only [SyncSchemaMigration.takeSteps, hrun]
    exact (Advances.step hrun).append (ih s₁)

theorem Advances.sessions (sessions : List Session) (s : Store) :
    Advances serde readers start s (runSessions serde readers sessions s).1
      (runSessions serde readers sessions s).2 := by
  induction sessions generalizing s with
  | nil => exact .nil
  | cons session rest ih =>
    rw [runSessions]
    split
    · exact ih s
    · next migration _ => exact (Advances.takeSteps migration session.steps s).append (ih _)

/-- No storage failure in this session. -/
def Session.Undisturbed (session : Session) : Prop :=
  session.leaseFault = none ∧ ∀ faults ∈ session.steps, faults = fun _ => none

theorem takeSteps_ok {migration : SyncSchemaMigration}
    {steps : List (MigrationAccess → Option StoreError)}
    (h : Converting serde readers start s cursors) (hgood : Migratable serde readers start)
    (hroom : Ample start migration.options) (hsteps : ∀ faults ∈ steps, faults = fun _ => none) :
    ∀ r ∈ (migration.takeSteps serde readers steps s).1, ∃ p, r = .ok p := by
  induction steps generalizing s cursors with
  | nil => exact fun r hr => by cases hr
  | cons faults rest ih =>
    obtain ⟨p, s₁, hrun⟩ := h.exists_step hgood hroom
    have hfaults := hsteps faults List.mem_cons_self
    subst hfaults
    have hstep : (migration.step serde readers fun _ => none).exec s = (.ok p, s₁) := hrun
    obtain ⟨cursors₁, h₁, _⟩ := Advances.step hrun cursors h
    simp only [SyncSchemaMigration.takeSteps, hstep]
    intro r hr
    rcases List.mem_cons.mp hr with rfl | hr
    · exact ⟨p, rfl⟩
    · exact ih h₁ (fun f hf => hsteps f (List.mem_cons_of_mem _ hf)) r hr

theorem runSessions_ok {sessions : List Session} (h : Converting serde readers start s cursors)
    (hgood : Migratable serde readers start)
    (hroom : ∀ session ∈ sessions, Ample start session.options)
    (hcalm : ∀ session ∈ sessions, session.Undisturbed) :
    ∀ r ∈ (runSessions serde readers sessions s).1, ∃ p, r = .ok p := by
  induction sessions generalizing s cursors with
  | nil => exact fun r hr => by cases hr
  | cons session rest ih =>
    obtain ⟨hlease, hsteps⟩ := hcalm session List.mem_cons_self
    have hnew : SyncSchemaMigration.new serde readers session.leaseFault session.options =
        .ok ⟨session.options⟩ := by
      rw [hlease]
      rfl
    obtain ⟨cursors₁, h₁, _⟩ := Advances.takeSteps ⟨session.options⟩ session.steps s cursors h
    simp only [runSessions, hnew]
    intro r hr
    rcases List.mem_append.mp hr with hr | hr
    · exact takeSteps_ok h hgood (hroom session List.mem_cons_self) hsteps r hr
    · exact ih h₁ (fun σ hσ => hroom σ (List.mem_cons_of_mem _ hσ))
        (fun σ hσ => hcalm σ (List.mem_cons_of_mem _ hσ)) r hr

end Run

/-! ## The migrated store -/

/-- What `Complete` leaves behind. -/
structure Migrated (start s : Store) : Prop where
  header : AllCurrent s
  checkpoint : ∀ table, s[checkpointKey table]? = none
  frame : ∀ key, (∀ table : StoreTable, key ≠ table.schemaKey) → s[key]? = start[key]?
  ensure : (ensureSyncSchema fun _ => none).exec s = (.ok (), s)

theorem validateHeader_current (table : StoreTable) :
    validateHeader table (SchemaHeader.current table).encode = .ok () := by
  have hdecode : SchemaHeader.decode table (SchemaHeader.current table).encode =
      .ok (SchemaHeader.current table) := SchemaHeader.decode_encode (SchemaHeader.current table)
  rw [validateHeader, hdecode]
  rfl

/-- With all headers current, startup accepts the store and writes nothing. -/
theorem ensureSyncSchema_allCurrent {s : Store} (h : AllCurrent s) :
    (ensureSyncSchema fun _ => none).exec s = (.ok (), s) := by
  have hcollect : ∀ tables missing,
      (collectMissingTables (fun _ => none) tables missing).exec s = (.ok missing, s) := by
    intro tables missing
    induction tables with
    | nil => rfl
    | cons table rest ih =>
      have hget : s.get none table.schemaKey =
          .ok (some (SchemaHeader.current table).encode) := by
        rw [Store.get, h table]
        rfl
      rw [collectMissingTables]
      refine (StoreM.exec_read_bind hget).trans ?_
      exact (StoreM.exec_ofExcept_bind (validateHeader_current table)).trans ih
  rw [ensureSyncSchema, StoreM.exec_bind, hcollect]
  rfl

theorem Converting.migrated {start s : Store} (h : Converting serde readers start s cursors)
    (hstart : LegacyStore start) (hall : AllCurrent s) : Migrated start s := by
  have hck : ∀ table, s[checkpointKey table]? = none := fun table => by
    have hstage := h.stage table
    generalize cursors table = cursor at hstage
    cases hstage with
    | done _ checkpoint _ => exact checkpoint
    | running _ header _ _ _ =>
      rw [hall table] at header
      cases header
  refine ⟨hall, hck, fun key hkey => ?_, ensureSyncSchema_allCurrent hall⟩
  by_cases hmeta : ∃ table, key = checkpointKey table
  · obtain ⟨table, rfl⟩ := hmeta
    rw [hck, hstart.checkpoint]
  · refine h.frame key ?_
    rintro ⟨table, heq | heq⟩
    · exact hkey table heq
    · exact hmeta ⟨table, heq⟩

/-- A store without headers, or with current ones, is migrated by sessions with
any limits that have room for its records: they take at most `legacyWork`
successful steps before `Complete`, fail only on a storage failure, and
`Complete` leaves all tables current and every other key as it was. A table
with an invalid record never gets a header. -/
theorem legacyMigration_completes {start : Store} (hstart : LegacyStore start) :
    (Migratable serde readers start →
      ∀ sessions : List Session, (∀ session ∈ sessions, Ample start session.options) →
        (runSessions serde readers sessions start).1.countP isAdvance ≤ legacyWork start ∧
        ((∀ session ∈ sessions, session.Undisturbed) →
          (∀ r ∈ (runSessions serde readers sessions start).1, ∃ p, r = .ok p) ∧
          (legacyWork start < (runSessions serde readers sessions start).1.length →
            .ok .complete ∈ (runSessions serde readers sessions start).1)) ∧
        (.ok .complete ∈ (runSessions serde readers sessions start).1 →
          Migrated start (runSessions serde readers sessions start).2)) ∧
    ∀ (table : StoreTable) (key value : Bytes) (e : MigrationError),
      LegacyRecord start table key value →
      migrateLegacyRecord serde readers table key value = .error e →
      ∀ sessions : List Session,
        (runSessions serde readers sessions start).2[table.schemaKey]? = none := by
  have hconv : Converting serde readers start start fun _ => none := hstart.converting
  constructor
  · intro hgood sessions hroom
    obtain ⟨cursors, h, hwork, _, hdone⟩ := Advances.sessions sessions start _ hconv
    have hbound : (runSessions serde readers sessions start).1.countP isAdvance ≤
        legacyWork start := by
      rw [legacyWork]
      omega
    refine ⟨hbound, fun hcalm => ?_, fun hmem => h.migrated hstart (hdone hmem)⟩
    have hok := runSessions_ok hconv hgood hroom hcalm
    refine ⟨hok, fun hlong => ?_⟩
    by_contra hmem
    -- without `Complete` every step counts
    have hall : (runSessions serde readers sessions start).1.countP isAdvance =
        (runSessions serde readers sessions start).1.length := by
      rw [List.countP_eq_length]
      intro r hr
      obtain ⟨p, rfl⟩ := hok r hr
      cases p with
      | complete => exact absurd hr hmem
      | batchValidated => rfl
      | tableCompleted => rfl
    omega
  · intro table key value e hrecord hinvalid sessions
    obtain ⟨cursors, h, _⟩ := Advances.sessions sessions start _ hconv
    have hstage := h.stage table
    generalize cursors table = cursor at hstage
    cases hstage with
    | running _ header _ _ _ => exact header
    | done _ _ checked =>
      have hvalid := checked key value hrecord
      rw [ValidRecord, hinvalid] at hvalid
      cases hvalid

/-! Three records in two tables, migrated by two sessions. -/

/-- The JSON readers of the materialized collections. -/
def jsonReaders : LegacyReaders where
  mapEntries := readJson (Json.Codec.list (Json.Codec.pair Json.Codec.string JsonForm.bytes)
    JsonForm.entry_leads_item)
  setElements := readJson JsonForm.strings
  rgaValues := readJson (Json.Codec.list JsonForm.bytes JsonForm.bytes_leads_item)
  utf8Error := fun _ => "invalid utf-8 sequence"
where
  readJson {α : Type} (c : Json.Codec α) (b : Bytes) : Except String α :=
    match fromUtf8 b with
    | some text => JsonForm.ofText c text
    | none => .error "invalid UTF-8"

/-- Three records of two tables and a key of the guest's. -/
def headerlessStore : Store :=
  OrdMap.insertAll ∅ [(tableKey .gcounterMaterialized "hits", leBytes 8 3),
    (tableKey .seenOps "op-1", beBytes 8 0), (tableKey .seenOps "op-2", beBytes 8 1),
    (asBytes "user", [9])]

/-- A session of `n` undisturbed steps. -/
def calmSession (maxRecords : UInt32) (h : maxRecords ≠ 0) (n : Nat) : Session :=
  ⟨⟨maxRecords, 64, h, by decide⟩, none, List.replicate n fun _ => none⟩

theorem legacyStore_headerlessStore : LegacyStore headerlessStore := by
  have hheader : ∀ t ∈ StoreTable.all, headerlessStore[t.schemaKey]? = none := by decide +kernel
  have hck : ∀ t ∈ StoreTable.all, headerlessStore[checkpointKey t]? = none := by decide +kernel
  exact ⟨fun t => .inl (hheader t (StoreTable.mem_all t)),
    fun t => hck t (StoreTable.mem_all t)⟩

theorem headerlessStore_records : ∀ entry ∈ headerlessStore.toList, ∀ t ∈ StoreTable.all,
    t.holds entry.1 = true →
      migrateLegacyRecord jsonSerde jsonReaders t entry.1 entry.2 =
          .ok RecordMigration.unchanged ∧
        entry.1.length + entry.2.length ≤ 64 := by
  decide +kernel

theorem legacyMigration_completes_headerless :
    LegacyStore headerlessStore ∧
      Migrated headerlessStore (runSessions jsonSerde jsonReaders
        [calmSession 1 (by decide) 2, calmSession 2 (by decide) 16] headerlessStore).2 := by
  have hrecord : ∀ table key value, LegacyRecord headerlessStore table key value →
      migrateLegacyRecord jsonSerde jsonReaders table key value = .ok RecordMigration.unchanged ∧
        key.length + value.length ≤ 64 := fun table key value h =>
    headerlessStore_records (key, value) ((OrdMap.mem_toList _).mpr h.2.2) table
      (StoreTable.mem_all table) h.2.1
  refine ⟨legacyStore_headerlessStore,
    ((legacyMigration_completes legacyStore_headerlessStore).1 ⟨?_, ?_⟩ _ ?_).2.2 ?_⟩
  · exact fun table key value h => (hrecord table key value h).1
  · intro table key value h
    have hle := (hrecord table key value h).2
    omega
  · intro session hsession table key value h
    have hle := (hrecord table key value h).2
    simp only [List.mem_cons, List.not_mem_nil, or_false] at hsession
    rcases hsession with rfl | rfl <;> exact hle
  · decide +kernel

/-! ## A key that no checkpoint can hold -/

/-- A text of `n` letters. -/
def letters : Nat → String
  | 0 => ""
  | n + 1 => "a" ++ letters n

theorem length_asBytes_letters (n : Nat) : (asBytes (letters n)).length = n := by
  induction n with
  | zero => rfl
  | succ n ih =>
    have hone : (asBytes "a").length = 1 := by decide +kernel
    rw [letters, asBytes_append, List.length_append, ih, hone, Nat.add_comm]

/-- The record key of a register whose name has `2 ^ 32` letters. -/
def longKey : Bytes := tableKey .lwwRegisterMaterialized (letters (2 ^ 32))

/-- Current headers for all tables but one. -/
def registerHeaderless : Store :=
  OrdMap.insertAll ∅ ((StoreTable.all.filter (· ≠ .lwwRegisterMaterialized)).map fun t =>
    (t.schemaKey, (SchemaHeader.current t).encode))

/-- One record, with the long key, in the table without a header. -/
def longKeyStore : Store := registerHeaderless.insert longKey []

theorem length_longKey : 2 ^ 32 ≤ longKey.length := by
  rw [longKey, tableKey, prefixedStoreKey, List.length_append, length_asBytes_letters]
  exact Nat.le_add_left _ _

theorem holds_longKey (t : StoreTable) : t.holds longKey = true ↔ t = .lwwRegisterMaterialized :=
  startsWith_tableKey_iff t _ _

theorem longKeyStore_metadata {key : Bytes} (h : IsMetadataKey key) :
    longKeyStore[key]? = registerHeaderless[key]? :=
  OrdMap.get_insert_ne _ _ fun heq =>
    not_isMetadataKey_of_holds ((holds_longKey .lwwRegisterMaterialized).mpr rfl) (heq ▸ h)

theorem longKeyStore_header (t : StoreTable) : longKeyStore[t.schemaKey]? =
    if t = .lwwRegisterMaterialized then none else some (SchemaHeader.current t).encode := by
  have hall : ∀ t ∈ StoreTable.all, registerHeaderless[t.schemaKey]? =
      if t = .lwwRegisterMaterialized then none else some (SchemaHeader.current t).encode := by
    decide +kernel
  rw [longKeyStore_metadata ⟨t, .inl rfl⟩]
  exact hall t (StoreTable.mem_all t)

theorem legacyStore_longKeyStore : LegacyStore longKeyStore := by
  have hck : ∀ t ∈ StoreTable.all, registerHeaderless[checkpointKey t]? = none := by
    decide +kernel
  constructor
  · intro t
    rw [longKeyStore_header]
    split
    · exact .inl rfl
    · exact .inr rfl
  · intro t
    rw [longKeyStore_metadata ⟨t, .inr rfl⟩]
    exact hck t (StoreTable.mem_all t)

/-- The only record to check is the one with the long key. -/
theorem legacyRecord_longKeyStore {table : StoreTable} {key value : Bytes}
    (h : LegacyRecord longKeyStore table key value) :
    table = .lwwRegisterMaterialized ∧ key = longKey ∧ value = [] := by
  obtain ⟨hheader, hin, hget⟩ := h
  have htable : table = .lwwRegisterMaterialized := by
    rw [longKeyStore_header] at hheader
    split at hheader
    · assumption
    · cases hheader
  refine ⟨htable, ?_⟩
  rw [longKeyStore, OrdMap.get_insert] at hget
  split at hget
  · next heq =>
      cases hget
      exact ⟨heq.symm, rfl⟩
  · -- every other key is a header
    rcases OrdMap.mem_or_get_of_insertAll _ _ hget with hmem | hnone
    · obtain ⟨u, _, hu⟩ := List.mem_map.mp hmem
      cases hu
      rw [StoreTable.holds_schemaKey] at hin
      cases hin
    · simp at hnone

theorem longKeyStore_step {faults : MigrationAccess → Option StoreError}
    {options : MigrationOptions} {result : Except MigrationError MigrationProgress} {s' : Store}
    (h : (migrateSyncSchemaBatch serde readers faults options).exec longKeyStore = (result, s')) :
    result ≠ .ok .complete ∧ s' = longKeyStore := by
  have hconv : Converting serde readers longKeyStore longKeyStore fun _ => none :=
    legacyStore_longKeyStore.converting
  have hpending : (longKey, []) ∈
      pending StoreTable.lwwRegisterMaterialized.holds longKeyStore none :=
    mem_pending.mpr ⟨by rw [longKeyStore, OrdMap.get_insert, if_pos rfl],
      (holds_longKey _).mpr rfl, rfl⟩
  rcases exec_migrateSyncSchemaBatch h with ⟨e, rfl, rfl⟩ | ⟨_, _, hall⟩ | ⟨table, p, hp, hstep⟩
  · exact ⟨by simp, rfl⟩
  · rcases hconv.tableStep (hall .lwwRegisterMaterialized) with ⟨_, _, hheader⟩ | ⟨_, hp, _⟩
    · rw [longKeyStore_header, if_pos rfl] at hheader
      cases hheader
    · cases hp
  · -- only the table without a header can advance, and its page ends at the long key
    exfalso
    rcases hconv.tableStep hstep with ⟨hnone, _⟩ | ⟨_, _, _, hheader, _⟩
    · cases hnone
    · have htable : table = .lwwRegisterMaterialized := by
        rw [longKeyStore_header] at hheader
        split at hheader
        · assumption
        · cases hheader
      subst htable
      have hexpected : Resumes .lwwRegisterMaterialized
          StoreTable.lwwRegisterMaterialized.currentVersion
          (migrationSteps serde readers .lwwRegisterMaterialized) longKeyStore
          (legacyToV1 serde readers) ⟨.lwwRegisterMaterialized, 0, 1, none⟩ :=
        resumes_running hheader (legacyStore_longKeyStore.checkpoint _) (fun c hc => by cases hc)
      cases hstep with
      | finish hresume hscan hwrite =>
        obtain ⟨rfl, rfl⟩ := hresume.unique hexpected
        obtain ⟨rest, _, hempty⟩ := scan_eq_ok (fun c hc => by cases hc) hscan
        rw [hempty rfl] at hpending
        cases hpending
      | page hresume hscan hlast hbatch hcursor hwrite =>
        obtain ⟨rfl, rfl⟩ := hresume.unique hexpected
        obtain ⟨rest, hpage, _⟩ := scan_eq_ok (fun c hc => by cases hc) hscan
        have hmem := List.mem_append_left rest (List.mem_of_getLast? hlast)
        rw [← hpage] at hmem
        obtain ⟨hget, hin, _⟩ := mem_pending.mp hmem
        obtain ⟨_, hkey, _⟩ := legacyRecord_longKeyStore ⟨hheader, hin, hget⟩
        have hlt := MigrationCheckpoint.encode_eq_ok hcursor
        simp only [Option.getD_some, hkey] at hlt
        exact absurd length_longKey (Nat.not_le.mpr hlt)

/-- A store on which no step completes or writes stays without `Complete`. -/
theorem runSessions_stuck {s : Store}
    (h : ∀ faults options result s',
      (migrateSyncSchemaBatch serde readers faults options).exec s = (result, s') →
      result ≠ .ok .complete ∧ s' = s) (sessions : List Session) :
    .ok .complete ∉ (runSessions serde readers sessions s).1 ∧
      (runSessions serde readers sessions s).2 = s := by
  have hsteps : ∀ (migration : SyncSchemaMigration) steps,
      .ok .complete ∉ (migration.takeSteps serde readers steps s).1 ∧
        (migration.takeSteps serde readers steps s).2 = s := by
    intro migration steps
    induction steps with
    | nil => exact ⟨by simp [SyncSchemaMigration.takeSteps], rfl⟩
    | cons faults rest ih =>
      rcases hrun : (migration.step serde readers faults).exec s with ⟨result, s₁⟩
      obtain ⟨hresult, hs⟩ := h faults migration.options result s₁ hrun
      subst hs
      simp only [SyncSchemaMigration.takeSteps, hrun, List.mem_cons, not_or]
      exact ⟨⟨Ne.symm hresult, ih.1⟩, ih.2⟩
  induction sessions with
  | nil => exact ⟨by simp [runSessions], rfl⟩
  | cons session rest ih =>
    rw [runSessions]
    split
    · exact ih
    · next migration _ =>
        obtain ⟨hfirst, hs⟩ := hsteps migration session.steps
        simp only [hs, List.mem_append, not_or]
        exact ⟨⟨hfirst, ih.1⟩, ih.2⟩

/-- A valid record whose key has more than `u32::MAX` bytes is never passed:
its checkpoint cannot be written, with any limits. -/
theorem longKey_never_completes :
    LegacyStore longKeyStore ∧
      (∀ table key value, LegacyRecord longKeyStore table key value →
        ValidRecord jsonSerde jsonReaders table key value) ∧
      ∀ sessions : List Session,
        .ok .complete ∉ (runSessions jsonSerde jsonReaders sessions longKeyStore).1 := by
  refine ⟨legacyStore_longKeyStore, fun table key value h => ?_, fun sessions => ?_⟩
  · obtain ⟨rfl, rfl, rfl⟩ := legacyRecord_longKeyStore h
    have hkey : checkLogicalKey jsonReaders .lwwRegisterMaterialized longKey =
        .ok (letters (2 ^ 32)) := by
      rw [checkLogicalKey, longKey, logicalKey_tableKey]
    rw [ValidRecord, migrateLegacyRecord, hkey]
    rfl
  · exact (runSessions_stuck (fun _ _ _ _ => longKeyStore_step) sessions).1

end Numax
