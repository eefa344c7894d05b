import Numax.Core.Schema
import Numax.Core.Hydrate

/-!
# Schema migration

The migration engine of `migration.rs`. A table is brought from one layout
version to the next by a registered step that is applied to its records a page
at a time; after each page a checkpoint with the last processed key is written
in the same batch as the rewritten records, and when no record is left one
batch writes the new header and deletes the checkpoint. The step from the
layout without headers to version 1 (`migrateLegacyRecord`) checks each record
and changes none.

Sizes are those of a host with 64-bit `usize`.
-/

open Base Std

namespace Numax

def migrationMagic : Bytes := asBytes "NXMG"
def checkpointFormatVersion : UInt16 := 1
def checkpointFixedLen : Nat := 16
def migrationKeyPrefix : String := "__nx/migration/"

/-- The limits of one batch; both are non-zero. -/
structure MigrationOptions where
  maxRecords : UInt32
  maxBytes : Nat
  maxRecords_ne_zero : maxRecords ≠ 0
  maxBytes_ne_zero : maxBytes ≠ 0

/-- `MigrationOptions::default()`. -/
def MigrationOptions.default : MigrationOptions where
  maxRecords := 512
  maxBytes := 4 * 1024 * 1024
  maxRecords_ne_zero := by decide
  maxBytes_ne_zero := by decide

inductive MigrationProgress where
  | batchValidated (table : String) (records : Nat)
  | tableCompleted (table : String) (fromVersion toVersion : UInt16)
  | complete
deriving DecidableEq, Repr

inductive MigrationError where
  | store (error : StoreError)
  | schema (text : String)
  | invalidCheckpoint (table reason : String)
  | checkpointTableMismatch (expected : String) (actual : Nat)
  | unsupportedPath (table : String) (fromVersion toVersion : UInt16)
  | invalidRecord (table : String) (key : Bytes) (reason : String)
  | staleCheckpoint (table : String)
  | invalidRegistry (table reason : String)
  | batchMemoryLimitExceeded (table : String) (bytes maxBytes : Nat)
  | invalidMutation (table : String) (key : Bytes) (reason : String)
  /-- The panic of `unreachable!`. -/
  | unreachable (message : String)
deriving DecidableEq, Repr

/-- `From<SchemaError>`. -/
def ofSchema {α : Type} (r : Except SchemaError α) : Except MigrationError α :=
  r.mapError fun e => .schema e.text

/-- What a step makes of one record. -/
structure RecordMigration where
  sets : List (Bytes × Bytes)
  deletes : List Bytes
deriving DecidableEq, Repr

def RecordMigration.unchanged : RecordMigration := ⟨[], []⟩

abbrev RecordMigrator := StoreTable → Bytes → Bytes → Except MigrationError RecordMigration

structure MigrationStep where
  fromVersion : UInt16
  toVersion : UInt16
  migrateRecord : RecordMigrator

/-! ## Checkpoints -/

structure MigrationCheckpoint where
  table : StoreTable
  fromVersion : UInt16
  toVersion : UInt16
  lastProcessedKey : Option Bytes
deriving DecidableEq, Repr

def checkpointKey (table : StoreTable) : Bytes := asBytes (migrationKeyPrefix ++ table.name)

namespace MigrationCheckpoint

def new (table : StoreTable) (fromVersion toVersion : UInt16) : MigrationCheckpoint :=
  ⟨table, fromVersion, toVersion, none⟩

def encode (c : MigrationCheckpoint) : Except MigrationError Bytes :=
  let key := c.lastProcessedKey.getD []
  if 2 ^ 32 ≤ key.length then
    .error (.invalidCheckpoint c.table.name "cursor key exceeds u32")
  else
    .ok (migrationMagic ++ beBytes 2 checkpointFormatVersion.toNat ++ beBytes 2 c.table.tableId ++
      beBytes 2 c.fromVersion.toNat ++ beBytes 2 c.toVersion.toNat ++ beBytes 4 key.length ++ key)

def decode (table : StoreTable) (bytes : Bytes) : Except MigrationError MigrationCheckpoint :=
  if bytes.length < checkpointFixedLen then
    .error (.invalidCheckpoint table.name "checkpoint is truncated")
  else if bytes.take 4 ≠ migrationMagic then
    .error (.invalidCheckpoint table.name "invalid magic")
  else if UInt16.ofNat (ofBe ((bytes.drop 4).take 2)) ≠ checkpointFormatVersion then
    .error (.invalidCheckpoint table.name "unsupported checkpoint format version")
  else if ofBe ((bytes.drop 6).take 2) ≠ table.tableId then
    .error (.checkpointTableMismatch table.name (ofBe ((bytes.drop 6).take 2)))
  else
    let fromVersion := UInt16.ofNat (ofBe ((bytes.drop 8).take 2))
    let toVersion := UInt16.ofNat (ofBe ((bytes.drop 10).take 2))
    let keyLen := ofBe ((bytes.drop 12).take 4)
    if u64Max < checkpointFixedLen + keyLen then
      .error (.invalidCheckpoint table.name "cursor length overflow")
    else if bytes.length ≠ checkpointFixedLen + keyLen then
      .error (.invalidCheckpoint table.name "cursor length does not match checkpoint")
    else
      .ok ⟨table, fromVersion, toVersion,
        if 0 < keyLen then some (bytes.drop checkpointFixedLen) else none⟩

/-- `decode` with the indices and slices it reads the fields by; `none` is the
panic of a read out of range. -/
def decodeIndexed (table : StoreTable) (bytes : Bytes) :
    Option (Except MigrationError MigrationCheckpoint) := do
  if bytes.length < checkpointFixedLen then
    return .error (.invalidCheckpoint table.name "checkpoint is truncated")
  if (← sliceTo bytes 4) ≠ migrationMagic then
    return .error (.invalidCheckpoint table.name "invalid magic")
  let formatVersion := UInt16.ofNat (ofBe [← bytes[4]?, ← bytes[5]?])
  if formatVersion ≠ checkpointFormatVersion then
    return .error (.invalidCheckpoint table.name "unsupported checkpoint format version")
  let actualTable := ofBe [← bytes[6]?, ← bytes[7]?]
  if actualTable ≠ table.tableId then
    return .error (.checkpointTableMismatch table.name actualTable)
  let fromVersion := UInt16.ofNat (ofBe [← bytes[8]?, ← bytes[9]?])
  let toVersion := UInt16.ofNat (ofBe [← bytes[10]?, ← bytes[11]?])
  let keyLen := ofBe [← bytes[12]?, ← bytes[13]?, ← bytes[14]?, ← bytes[15]?]
  if u64Max < checkpointFixedLen + keyLen then
    return .error (.invalidCheckpoint table.name "cursor length overflow")
  if bytes.length ≠ checkpointFixedLen + keyLen then
    return .error (.invalidCheckpoint table.name "cursor length does not match checkpoint")
  if 0 < keyLen then
    return .ok ⟨table, fromVersion, toVersion, some (← sliceFrom bytes checkpointFixedLen)⟩
  return .ok ⟨table, fromVersion, toVersion, none⟩

end MigrationCheckpoint

/-! ## The registered path -/

/-- `saturating_add(1)` on versions. -/
def nextVersion (v : UInt16) : UInt16 := if v = 65535 then v else v + 1

/-- The loop of `validate_migration_path`: the version the steps reach. -/
def walkMigrationPath (table : StoreTable) (targetVersion : UInt16) :
    List MigrationStep → (expectedFrom : UInt16) → Except MigrationError UInt16
  | [], expectedFrom => .ok expectedFrom
  | step :: rest, expectedFrom =>
    if expectedFrom = targetVersion then
      .error (.invalidRegistry table.name "registry contains steps beyond the current schema")
    else if step.fromVersion ≠ expectedFrom then
      .error (.invalidRegistry table.name "registry contains a gap or unordered step")
    else if step.toVersion ≠ nextVersion expectedFrom then
      .error (.invalidRegistry table.name "steps must advance exactly one schema version")
    else walkMigrationPath table targetVersion rest step.toVersion

def validateMigrationPath (table : StoreTable) (targetVersion : UInt16)
    (steps : List MigrationStep) : Except MigrationError Unit := do
  let reached ← walkMigrationPath table targetVersion steps 0
  if reached ≠ targetVersion then
    .error (.invalidRegistry table.name "registry does not reach the current schema")
  else .ok ()

def nextMigrationStep (table : StoreTable) (fromVersion targetVersion : UInt16)
    (steps : List MigrationStep) : Except MigrationError MigrationStep :=
  match steps.find? fun step => step.fromVersion = fromVersion with
  | none => .error (.unsupportedPath table.name fromVersion targetVersion)
  | some step =>
    if step.toVersion ≠ nextVersion fromVersion ∨ step.toVersion > targetVersion then
      .error (.unsupportedPath table.name fromVersion targetVersion)
    else .ok step

/-! ## Collecting a batch -/

def validateMutationKey (table : StoreTable) (key : Bytes) : Except MigrationError Unit :=
  if startsWith key (asBytes schemaKeyPrefix) || startsWith key (asBytes migrationKeyPrefix) then
    .error (.invalidMutation table.name key
      "schema and migration metadata are managed by the engine")
  else .ok ()

def validateRecordMutationKey (table : StoreTable) (sourceKey key : Bytes) :
    Except MigrationError Unit := do
  validateMutationKey table key
  if startsWith key (asBytes table.dataPrefix) ∧ key ≠ sourceKey then
    .error (.invalidMutation table.name key
      "record migrations can only mutate their source key inside the source namespace")
  else .ok ()

/-- The mutations collected for one batch and the bytes they take. -/
structure MutationBatch where
  sets : OrdMap Bytes Bytes
  deletes : OrdSet Bytes
  bytes : Nat

section Collect

variable (table : StoreTable) (sourceKey : Bytes) (maxBytes : Nat)

/-- The check on the size of a batch after a mutation. -/
def MutationBatch.checked (batch : MutationBatch) : Except MigrationError MutationBatch :=
  if maxBytes < batch.bytes then
    .error (.batchMemoryLimitExceeded table.name batch.bytes maxBytes)
  else .ok batch

def collectSets : List (Bytes × Bytes) → MutationBatch → Except MigrationError MutationBatch
  | [], batch => .ok batch
  | (key, value) :: rest, batch => do
    validateRecordMutationKey table sourceKey key
    if batch.deletes.contains key || batch.sets.contains key then
      .error (.invalidMutation table.name key "duplicate or conflicting mutation")
    else
      let batch ← MutationBatch.checked table maxBytes
        ⟨batch.sets.insert key value, batch.deletes, batch.bytes + key.length + value.length⟩
      collectSets rest batch

def collectDeletes : List Bytes → MutationBatch → Except MigrationError MutationBatch
  | [], batch => .ok batch
  | key :: rest, batch => do
    validateRecordMutationKey table sourceKey key
    if batch.sets.contains key || batch.deletes.contains key then
      .error (.invalidMutation table.name key "duplicate or conflicting mutation")
    else
      let batch ← MutationBatch.checked table maxBytes
        ⟨batch.sets, batch.deletes.insert key, batch.bytes + key.length⟩
      collectDeletes rest batch

def collectRecordMigration (migration : RecordMigration) (batch : MutationBatch) :
    Except MigrationError MutationBatch := do
  let batch ← collectSets table sourceKey maxBytes migration.sets batch
  collectDeletes table sourceKey maxBytes migration.deletes batch

end Collect

/-- The loop over the records of a page. -/
def collectPage (table : StoreTable) (step : MigrationStep) (maxBytes : Nat) :
    List (Bytes × Bytes) → MutationBatch → Except MigrationError MutationBatch
  | [], batch => .ok batch
  | (key, value) :: rest, batch => do
    let migration ← step.migrateRecord table key value
    let batch ← collectRecordMigration table key maxBytes migration batch
    collectPage table step maxBytes rest batch

/-! ## One batch of a table -/

/-- The accesses of one migration call. -/
inductive MigrationAccess where
  | preflightCheckpoint (table : StoreTable)
  | preflightHeader (table : StoreTable)
  | checkpoint (table : StoreTable)
  | header (table : StoreTable)
  | scan (table : StoreTable)
  | write (table : StoreTable)
deriving DecidableEq, Repr

/-- The version a table has; nothing if it is at the target already. -/
def tableVersion (table : StoreTable) (targetVersion : UInt16)
    (checkpointBytes schemaBytes : Option Bytes) : Except MigrationError (Option UInt16) :=
  match schemaBytes with
  | none => .ok (some 0)
  | some bytes => do
    let header ← ofSchema (SchemaHeader.decode table bytes)
    if header.version = targetVersion then
      if checkpointBytes.isSome then .error (.staleCheckpoint table.name) else .ok none
    else if header.version > targetVersion then
      ofSchema (validateHeader table bytes)
      .error (.unreachable "future schema validation must fail")
    else .ok (some header.version)

/-- The stored checkpoint, or a new one. -/
def loadCheckpoint (table : StoreTable) (step : MigrationStep) (checkpointBytes : Option Bytes) :
    Except MigrationError MigrationCheckpoint :=
  match checkpointBytes with
  | some bytes => MigrationCheckpoint.decode table bytes
  | none => .ok (MigrationCheckpoint.new table step.fromVersion step.toVersion)

/-- The checkpoint to go on from. -/
def resumeCheckpoint (table : StoreTable) (step : MigrationStep) (checkpointBytes : Option Bytes) :
    Except MigrationError MigrationCheckpoint := do
  let checkpoint ← loadCheckpoint table step checkpointBytes
  if checkpoint.fromVersion ≠ step.fromVersion ∨ checkpoint.toVersion ≠ step.toVersion then
    .error (.invalidCheckpoint table.name
      "checkpoint migration path does not match registered step")
  else .ok checkpoint

section Batch

variable (faults : MigrationAccess → Option StoreError)

def migrateTableBatch (table : StoreTable) (targetVersion : UInt16) (steps : List MigrationStep)
    (options : MigrationOptions) : StoreM MigrationError (Option MigrationProgress) := do
  let checkpointBytes ←
    StoreM.read .store fun s => s.get (faults (.checkpoint table)) (checkpointKey table)
  let schemaBytes ←
    StoreM.read .store fun s => s.get (faults (.header table)) table.schemaKey
  match ← StoreM.ofExcept (tableVersion table targetVersion checkpointBytes schemaBytes) with
  | none => return none
  | some fromVersion =>
    let step ← StoreM.ofExcept (nextMigrationStep table fromVersion targetVersion steps)
    let checkpoint ← StoreM.ofExcept (resumeCheckpoint table step checkpointBytes)
    let entries ← StoreM.read .store fun s =>
      s.scanPrefixPageAfterBounded (faults (.scan table)) (asBytes table.dataPrefix)
        checkpoint.lastProcessedKey options.maxRecords options.maxBytes
    match entries.getLast? with
    | none =>
      StoreM.write .store fun s =>
        s.applyBatch (faults (.write table))
          [(table.schemaKey, (SchemaHeader.mk step.toVersion table).encode)]
          [checkpointKey table]
      return some (.tableCompleted table.name step.fromVersion step.toVersion)
    | some last =>
      let batch ← StoreM.ofExcept (collectPage table step options.maxBytes entries
        ⟨∅, ∅, (entries.map Store.recordBytes).sum⟩)
      let cursor ← StoreM.ofExcept
        { checkpoint with lastProcessedKey := some last.1 : MigrationCheckpoint }.encode
      StoreM.write .store fun s =>
        s.applyBatch (faults (.write table))
          (batch.sets.insert (checkpointKey table) cursor).toList batch.deletes.toList
      return some (.batchValidated table.name entries.length)

end Batch

/-! ## Legacy records -/

/-- What the checks of legacy records take from outside besides `Serde`: the
JSON readers of the materialized collections and the text of a UTF-8 error. -/
structure LegacyReaders where
  mapEntries : Bytes → Except String (List (String × Bytes))
  setElements : Bytes → Except String (List String)
  rgaValues : Bytes → Except String (List Bytes)
  utf8Error : Bytes → String

/-- The name of a kind in the messages about its durable state. -/
def CrdtKind.label : CrdtKind → String
  | .gcounter => "GCounter"
  | .pncounter => "PNCounter"
  | .lwwRegister => "LWW-Register"
  | .lwwMap => "LWW-Map"
  | .orset => "ORSet"
  | .rga => "RGA"

section Legacy

variable (serde : Serde) (readers : LegacyReaders)

def checkLogicalKey (table : StoreTable) (key : Bytes) : Except String String :=
  match logicalKeyForPrefix key table.dataPrefix with
  | .ok logical => .ok logical
  | .error .invalidKey => .error ("invalid " ++ table.name ++ " key")
  | .error .invalidUtf8 =>
    .error ("invalid UTF-8 in " ++ table.name ++ " key: " ++
      readers.utf8Error (key.drop (asBytes table.dataPrefix).length))

/-- A value of eight bytes. -/
def checkEightBytes {α : Type} (what : String) (parse : Bytes → Option α) (value : Bytes) :
    Except String Unit :=
  match parse value with
  | some _ => .ok ()
  | none => .error ("invalid " ++ what ++ " length: expected 8, got " ++ toString value.length)

def checkDurableState (k : CrdtKind) (value : Bytes) : Except String Unit :=
  match parseDurableState serde k value with
  | .ok _ => .ok ()
  | .error e =>
    match fromUtf8 value with
    | none => .error ("invalid UTF-8 in durable " ++ k.label ++ " state: " ++
        readers.utf8Error value)
    | some _ => .error ("invalid durable " ++ k.label ++ " JSON: " ++ e)

/-- The reason why an op-log value cannot be read. -/
def opLogValueReason (value : Bytes) : String :=
  if value.length < 8 then
    "invalid op log value length: expected at least 8, got " ++ toString value.length
  else
    match serde.op.fromBytes (value.drop 8) with
    | .ok _ => ""
    | .error e => "invalid durable op log JSON: " ++ e

def checkOpLogRecord (key value : Bytes) : Except String Unit :=
  match parseDurableOpLogValue serde value with
  | none => .error (opLogValueReason serde value)
  | some (_, op) => do
    let keyOpId ← checkLogicalKey readers .opLog key
    if op.id ≠ keyOpId then
      .error ("op id mismatch: key contains " ++ keyOpId ++ ", value contains " ++ op.id)
    else .ok ()

def checkLegacyValue (table : StoreTable) (key value : Bytes) : Except String Unit :=
  match table with
  | .gcounterMaterialized =>
    checkEightBytes "materialized GCounter value" parseMaterializedGcounterValue value
  | .gcounterState => checkDurableState serde readers .gcounter value
  | .pncounterMaterialized =>
    checkEightBytes "materialized PNCounter value" parseMaterializedPncounterValue value
  | .pncounterState => checkDurableState serde readers .pncounter value
  | .lwwRegisterMaterialized => .ok ()
  | .lwwRegisterState => checkDurableState serde readers .lwwRegister value
  | .lwwMapMaterialized => (readers.mapEntries value).map fun _ => ()
  | .lwwMapState => checkDurableState serde readers .lwwMap value
  | .orsetMaterialized => (readers.setElements value).map fun _ => ()
  | .orsetState => checkDurableState serde readers .orset value
  | .rgaMaterialized => (readers.rgaValues value).map fun _ => ()
  | .rgaState => checkDurableState serde readers .rga value
  | .seenOps => checkEightBytes "seen OpId sequence" parseSeenOpSequence value
  | .opLog => checkOpLogRecord serde readers key value

def migrateLegacyRecord : RecordMigrator := fun table key value =>
  match checkLogicalKey readers table key with
  | .error reason => .error (.invalidRecord table.name key reason)
  | .ok _ =>
    match checkLegacyValue serde readers table key value with
    | .error reason => .error (.invalidRecord table.name key reason)
    | .ok () => .ok RecordMigration.unchanged

def legacyToV1 : MigrationStep := ⟨0, 1, migrateLegacyRecord serde readers⟩

/-- The registry: every table has the one step from the layout without headers. -/
def migrationSteps (_table : StoreTable) : List MigrationStep := [legacyToV1 serde readers]

def validateMigrationRegistries : Except MigrationError Unit :=
  StoreTable.all.forM fun table =>
    validateMigrationPath table table.currentVersion (migrationSteps serde readers table)

/-! ## The whole schema -/

section Schema

variable (faults : MigrationAccess → Option StoreError)

/-- The preflight check of one table's checkpoint. -/
def preflightCheckpoint (table : StoreTable) : StoreM MigrationError Unit := do
  match ← StoreM.read .store fun s =>
      s.get (faults (.preflightCheckpoint table)) (checkpointKey table) with
  | none => return ()
  | some bytes =>
    let checkpoint ← StoreM.ofExcept (MigrationCheckpoint.decode table bytes)
    if checkpoint.lastProcessedKey.any fun key => !startsWith key (asBytes table.dataPrefix) then
      throw (.invalidCheckpoint table.name "cursor is outside the table prefix")
    else
      let schemaBytes ← StoreM.read .store fun s =>
        s.get (faults (.preflightHeader table)) table.schemaKey
      let schemaVersion ← StoreM.ofExcept <|
        match schemaBytes with
        | some bytes => (ofSchema (SchemaHeader.decode table bytes)).map SchemaHeader.version
        | none => .ok 0
      if schemaVersion = table.currentVersion then throw (.staleCheckpoint table.name)
      else
        let step ← StoreM.ofExcept (nextMigrationStep table schemaVersion table.currentVersion
          (migrationSteps serde readers table))
        if checkpoint.fromVersion ≠ step.fromVersion ∨ checkpoint.toVersion ≠ step.toVersion then
          throw (.invalidCheckpoint table.name
            "checkpoint migration path does not match registered step")
        else return ()

def preflightCheckpoints : List StoreTable → StoreM MigrationError Unit
  | [] => return ()
  | table :: rest => do
    preflightCheckpoint serde readers faults table
    preflightCheckpoints rest

/-- The loop over the tables: the first one that is not done makes the progress. -/
def migrateTables (options : MigrationOptions) :
    List StoreTable → StoreM MigrationError MigrationProgress
  | [] => return .complete
  | table :: rest => do
    match ← migrateTableBatch faults table table.currentVersion
        (migrationSteps serde readers table) options with
    | some progress => return progress
    | none => migrateTables options rest

def migrateSyncSchemaBatch (options : MigrationOptions) :
    StoreM MigrationError MigrationProgress := do
  preflightCheckpoints serde readers faults StoreTable.all
  migrateTables serde readers faults options StoreTable.all

end Schema

/-! ## Sessions -/

/-- An open migration; it holds the write lease of the store. -/
structure SyncSchemaMigration where
  options : MigrationOptions

def SyncSchemaMigration.new (leaseFault : Option StoreError) (options : MigrationOptions) :
    Except MigrationError SyncSchemaMigration := do
  validateMigrationRegistries serde readers
  match Store.accessing leaseFault () with
  | .error e => .error (.store e)
  | .ok () => .ok ⟨options⟩

def SyncSchemaMigration.step (migration : SyncSchemaMigration)
    (faults : MigrationAccess → Option StoreError) : StoreM MigrationError MigrationProgress :=
  migrateSyncSchemaBatch serde readers faults migration.options

/-- A migration that is opened with `options` and abandoned after some steps;
`steps` lists the storage failures each of them meets. -/
structure Session where
  options : MigrationOptions
  leaseFault : Option StoreError
  steps : List (MigrationAccess → Option StoreError)

/-- Take the steps of an open migration. -/
def SyncSchemaMigration.takeSteps (migration : SyncSchemaMigration) :
    List (MigrationAccess → Option StoreError) → Store →
      List (Except MigrationError MigrationProgress) × Store
  | [], s => ([], s)
  | faults :: rest, s =>
    let (result, s) := (migration.step serde readers faults).exec s
    let (results, s) := migration.takeSteps rest s
    (result :: results, s)

/-- Open one migration after the other; a session that cannot be opened takes no step. -/
def runSessions : List Session → Store → List (Except MigrationError MigrationProgress) × Store
  | [], s => ([], s)
  | session :: rest, s =>
    match SyncSchemaMigration.new serde readers session.leaseFault session.options with
    | .error _ => runSessions rest s
    | .ok migration =>
      let (first, s) := migration.takeSteps serde readers session.steps s
      let (later, s) := runSessions rest s
      (first ++ later, s)

end Legacy

end Numax
