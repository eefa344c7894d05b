import Numax.Core.Tables
import Numax.Store.Access

/-!
# Schema headers

Every table has a schema record under `__nx/schema/<name>`: a magic number, the
version of the table's layout and the table's number (`schema.rs`). A node
starts only if `ensureSyncSchema` accepts the headers; it gives empty tables
without a header the current one and refuses tables with data but no header.
-/

open Base Std

namespace Numax

def schemaMagic : Bytes := asBytes "NXDB"
def schemaHeaderLen : Nat := 8
def schemaKeyPrefix : String := "__nx/schema/"
def initialSchemaVersion : UInt16 := 1

namespace StoreTable

def currentVersion (_ : StoreTable) : UInt16 := initialSchemaVersion

def schemaKey (t : StoreTable) : Bytes := asBytes (schemaKeyPrefix ++ t.name)

end StoreTable

/-! ## Headers -/

structure SchemaHeader where
  version : UInt16
  table : StoreTable
deriving DecidableEq, Repr

inductive SchemaError where
  | store (error : StoreError)
  | invalidHeaderLength (table : StoreTable) (actual : Nat)
  | invalidMagic (table : StoreTable)
  | tableMismatch (expected : StoreTable) (actual : Nat)
  | legacyTable (table : StoreTable)
  | olderVersion (table : StoreTable) (found current : UInt16)
  | futureVersion (table : StoreTable) (found current : UInt16)
deriving DecidableEq, Repr

/-- The text of a store error, as `nx-store` prints it. -/
def StoreError.text : StoreError → String
  | .sled message => "sled error: " ++ message
  | .scanBatchByteLimitExceeded recordBytes maxBytes =>
    "record size " ++ toString recordBytes ++ " exceeds scan batch byte limit " ++
      toString maxBytes
  | .writeLockPoisoned => "store write lock is poisoned"
  | .injectedDiskFull => "injected storage write failure: no space left on device"

def SchemaError.text : SchemaError → String
  | .store error => "schema store error: " ++ error.text
  | .invalidHeaderLength table actual =>
    "invalid schema header length for " ++ table.name ++ ": expected " ++
      toString schemaHeaderLen ++ ", got " ++ toString actual
  | .invalidMagic table => "invalid schema magic for " ++ table.name
  | .tableMismatch expected actual =>
    "schema table mismatch: expected " ++ expected.name ++ ", got table id " ++ toString actual
  | .legacyTable table =>
    "legacy unversioned data found in " ++ table.name ++ "; an explicit migration is required"
  | .olderVersion table found current =>
    "schema migration required for " ++ table.name ++ ": found version " ++ toString found ++
      ", current version is " ++ toString current
  | .futureVersion table found current =>
    "unsupported future schema for " ++ table.name ++ ": found version " ++ toString found ++
      ", current version is " ++ toString current

namespace SchemaHeader

def current (table : StoreTable) : SchemaHeader := ⟨table.currentVersion, table⟩

def encode (h : SchemaHeader) : Bytes :=
  schemaMagic ++ beBytes 2 h.version.toNat ++ beBytes 2 h.table.tableId

def decode (table : StoreTable) (bytes : Bytes) : Except SchemaError SchemaHeader :=
  if bytes.length ≠ schemaHeaderLen then .error (.invalidHeaderLength table bytes.length)
  else if bytes.take 4 ≠ schemaMagic then .error (.invalidMagic table)
  else
    let version := UInt16.ofNat (ofBe ((bytes.drop 4).take 2))
    let actualTable := ofBe ((bytes.drop 6).take 2)
    if actualTable ≠ table.tableId then .error (.tableMismatch table actualTable)
    else .ok ⟨version, table⟩

end SchemaHeader

def validateHeader (table : StoreTable) (bytes : Bytes) : Except SchemaError Unit :=
  match SchemaHeader.decode table bytes with
  | .error e => .error e
  | .ok header =>
    let current := table.currentVersion
    if header.version < current then .error (.olderVersion table header.version current)
    else if header.version > current then .error (.futureVersion table header.version current)
    else .ok ()

/-! ## Startup check -/

/-- The accesses `ensureSyncSchema` makes. -/
inductive SchemaAccess where
  | header (table : StoreTable)
  | data (table : StoreTable)
  | writeHeaders
deriving DecidableEq, Repr

section Ensure

variable (faults : SchemaAccess → Option StoreError)

/-- The loop over the tables, collecting those that need a header. -/
def collectMissingTables :
    List StoreTable → (missing : List StoreTable) → StoreM SchemaError (List StoreTable)
  | [], missing => pure missing
  | table :: rest, missing => do
    match ← StoreM.read .store fun s => s.get (faults (.header table)) table.schemaKey with
    | some bytes =>
      StoreM.ofExcept (validateHeader table bytes)
      collectMissingTables rest missing
    | none =>
      if ← StoreM.read .store fun s =>
          s.prefixExists (faults (.data table)) (asBytes table.dataPrefix) then
        throw (.legacyTable table)
      else collectMissingTables rest (missing ++ [table])

def ensureSyncSchema : StoreM SchemaError Unit := do
  let missing ← collectMissingTables faults StoreTable.all []
  if missing.isEmpty then return ()
  else
    StoreM.write .store fun s =>
      s.applyBatch (faults .writeHeaders)
        (missing.map fun table => (table.schemaKey, (SchemaHeader.current table).encode)) []

end Ensure

/-! ## Header lemmas -/

theorem StoreTable.tableId_lt (t : StoreTable) : t.tableId < 256 ^ 2 := by
  cases t <;> decide

theorem StoreTable.schemaKey_inj {t u : StoreTable} (h : t.schemaKey = u.schemaKey) : t = u := by
  have hall : ∀ t ∈ all, ∀ u ∈ all, t.schemaKey = u.schemaKey → t = u := by decide +kernel
  exact hall t (mem_all t) u (mem_all u) h

/-- Schema records lie outside every table. -/
theorem StoreTable.schemaKey_not_data (t u : StoreTable) :
    startsWith t.schemaKey (asBytes u.dataPrefix) = false := by
  have hall : ∀ t ∈ all, ∀ u ∈ all, startsWith t.schemaKey (asBytes u.dataPrefix) = false := by
    decide +kernel
  exact hall t (mem_all t) u (mem_all u)

/-- A `u16` is read back from its big-endian bytes. -/
theorem ofBe_beBytes_u16 (v : UInt16) : UInt16.ofNat (ofBe (beBytes 2 v.toNat)) = v := by
  have hlt : v.toNat < 256 ^ 2 := v.toNat_lt
  rw [ofBe_beBytes_of_lt hlt, UInt16.ofNat_toNat]

theorem SchemaHeader.decode_encode (h : SchemaHeader) :
    SchemaHeader.decode h.table h.encode = .ok h := by
  have hmagic : schemaMagic.length = 4 := by decide +kernel
  have hlen : h.encode.length = schemaHeaderLen := by
    simp [encode, hmagic, length_beBytes, schemaHeaderLen]
  have hstart : h.encode.drop 0 =
      schemaMagic ++ (beBytes 2 h.version.toNat ++ (beBytes 2 h.table.tableId ++ [])) := by
    rw [List.drop_zero, encode, List.append_assoc, List.append_nil]
  obtain ⟨htake, hnext⟩ := read_field hstart hmagic
  obtain ⟨hversion, hnext⟩ := read_field hnext (length_beBytes 2 _)
  obtain ⟨htable, -⟩ := read_field hnext (length_beBytes 2 _)
  rw [List.drop_zero] at htake
  rw [decode, if_neg (by simp [hlen]), if_neg (by simp [htake])]
  simp only [hversion, htable, ofBe_beBytes_of_lt h.table.tableId_lt, ofBe_beBytes_u16, ne_eq,
    not_true_eq_false, if_false]

end Numax
