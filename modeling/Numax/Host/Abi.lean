import Numax.Host.Memory

/-!
# Encoders of the guest interface

Lists cross the guest boundary as a little-endian `u32` count followed by the
items (`host_api/db.rs`, `host_api/crdt.rs`). The five encoders differ in the
layout of an item only; each fails with the internal error if the count or a
length does not fit a `u32`.
-/

open Base

namespace Numax

/-- `u32::try_from(len)`, written little-endian. -/
def encodeLen (len : Nat) : Except Int Bytes :=
  if len < 2 ^ 32 then .ok (leBytes 4 len) else .error errInternal

/-- The common loop: the count, then every item. -/
def encodeList {α : Type} (encodeItem : α → Except Int Bytes) (items : List α) :
    Except Int Bytes := do
  let count ← encodeLen items.length
  items.foldlM (fun out item => do
    let encoded ← encodeItem item
    pure (out ++ encoded)) count

/-- Both lengths, then key and value. -/
def encodeScanRow (row : Bytes × Bytes) : Except Int Bytes := do
  let keyLen ← encodeLen row.1.length
  let valueLen ← encodeLen row.2.length
  pure (keyLen ++ valueLen ++ row.1 ++ row.2)

/-- A length and the bytes. -/
def encodeSized (bytes : Bytes) : Except Int Bytes := do
  let len ← encodeLen bytes.length
  pure (len ++ bytes)

/-- Each part right after its length. -/
def encodeLwwMapEntry (entry : String × Bytes) : Except Int Bytes := do
  let fieldLen ← encodeLen (asBytes entry.1).length
  let valueLen ← encodeLen entry.2.length
  pure (fieldLen ++ asBytes entry.1 ++ valueLen ++ entry.2)

def encodeScanRows (rows : List (Bytes × Bytes)) : Except Int Bytes := encodeList encodeScanRow rows

def encodeKeys (keys : List Bytes) : Except Int Bytes := encodeList encodeSized keys

def encodeStringList (values : List String) : Except Int Bytes :=
  encodeList (fun value => encodeSized (asBytes value)) values

def encodeBytesList (values : List Bytes) : Except Int Bytes := encodeList encodeSized values

def encodeLwwMapEntries (entries : List (String × Bytes)) : Except Int Bytes :=
  encodeList encodeLwwMapEntry entries

end Numax
