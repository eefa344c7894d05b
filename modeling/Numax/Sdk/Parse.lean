import Numax.Base.Bytes

/-!
# Parsers of the guest library

How `nx-sdk` reads the lists the host returns: a cursor `offset` walks over the
buffer with saturating arithmetic, every length is checked against the end of
the buffer, and bytes after the last item are an error. Indexing and slicing are
modelled with their panics (`ParseError.outOfRange`), so that their absence is a
statement.

`usize` has 32 bits on the guest's target and 64 bits where the library is
tested; a slice is never longer than `isize::MAX`.
-/

open Base

namespace Numax

inductive UsizeWidth where
  | bits32
  | bits64
deriving DecidableEq, Repr

namespace UsizeWidth

/-- `usize::MAX`. -/
def max : UsizeWidth → Nat
  | bits32 => 2 ^ 32 - 1
  | bits64 => 2 ^ 64 - 1

/-- `isize::MAX`. -/
def isizeMax : UsizeWidth → Nat
  | bits32 => 2 ^ 31 - 1
  | bits64 => 2 ^ 63 - 1

end UsizeWidth

/-- A byte slice. -/
structure Slice (w : UsizeWidth) where
  bytes : Bytes
  length_le : bytes.length ≤ w.isizeMax

/-- Why a parser stops: `NxError::Internal`, or a panic. -/
inductive ParseError where
  | internal
  | outOfRange
deriving DecidableEq, Repr

section Parse

variable (w : UsizeWidth) (buf : Bytes)

/-- `usize::saturating_add`. -/
def saturatingAdd (a b : Nat) : Nat := min (a + b) w.max

/-- `buf[i]`. -/
def byteAt (i : Nat) : Except ParseError UInt8 :=
  match buf[i]? with
  | some b => .ok b
  | none => .error .outOfRange

/-- `buf[start..stop]`. -/
def byteRange (start stop : Nat) : Except ParseError Bytes :=
  if start ≤ stop ∧ stop ≤ buf.length then .ok ((buf.drop start).take (stop - start))
  else .error .outOfRange

def readU32Le (offset : Nat) : Except ParseError (Nat × Nat) := do
  let stop := saturatingAdd w offset 4
  if stop > buf.length then .error .internal
  else
    let b₀ ← byteAt buf offset
    let b₁ ← byteAt buf (offset + 1)
    let b₂ ← byteAt buf (offset + 2)
    let b₃ ← byteAt buf (offset + 3)
    pure (ofLe [b₀, b₁, b₂, b₃], stop)

/-- The next `len` bytes. -/
def takeBytes (offset len : Nat) : Except ParseError (Bytes × Nat) := do
  let stop := saturatingAdd w offset len
  if stop > buf.length then .error .internal
  else
    let bytes ← byteRange buf offset stop
    pure (bytes, stop)

/-! ## Items -/

/-- A length and that many bytes. -/
def parseSized (offset : Nat) : Except ParseError (Bytes × Nat) := do
  let (len, offset) ← readU32Le w buf offset
  takeBytes w buf offset len

/-- A length and that many bytes of text. -/
def parseText (offset : Nat) : Except ParseError (String × Nat) := do
  let (bytes, offset) ← parseSized w buf offset
  match fromUtf8 bytes with
  | none => .error .internal
  | some text => pure (text, offset)

/-- Key and value of a row; both ends are checked first. -/
def takeRow (offset keyLen valueLen : Nat) : Except ParseError ((Bytes × Bytes) × Nat) := do
  let keyEnd := saturatingAdd w offset keyLen
  let valueEnd := saturatingAdd w keyEnd valueLen
  if keyEnd > buf.length ∨ valueEnd > buf.length then .error .internal
  else
    let key ← byteRange buf offset keyEnd
    let value ← byteRange buf keyEnd valueEnd
    pure ((key, value), valueEnd)

/-- Two lengths, then key and value. -/
def parseScanRow (offset : Nat) : Except ParseError ((Bytes × Bytes) × Nat) := do
  let (keyLen, offset) ← readU32Le w buf offset
  let (valueLen, offset) ← readU32Le w buf offset
  takeRow w buf offset keyLen valueLen

def parseEntry (offset : Nat) : Except ParseError ((String × Bytes) × Nat) := do
  let (field, offset) ← parseText w buf offset
  let (value, offset) ← parseSized w buf offset
  pure ((field, value), offset)

/-! ## Lists -/

/-- The loop over the announced number of items. -/
def parseLoop {α : Type} (parseItem : Bytes → Nat → Except ParseError (α × Nat)) :
    (count offset : Nat) → (out : List α) → Except ParseError (List α × Nat)
  | 0, offset, out => .ok (out, offset)
  | count + 1, offset, out => do
    let (item, offset) ← parseItem buf offset
    parseLoop parseItem count offset (out ++ [item])

/-- The common scheme: the count, the items, and nothing after them. -/
def parseList {α : Type} (parseItem : Bytes → Nat → Except ParseError (α × Nat)) :
    Except ParseError (List α) := do
  let (count, offset) ← readU32Le w buf 0
  let (items, offset) ← parseLoop buf parseItem count offset []
  if offset ≠ buf.length then .error .internal else pure items

def parseScanRows : Except ParseError (List (Bytes × Bytes)) := parseList w buf (parseScanRow w)

def parseKeys : Except ParseError (List Bytes) := parseList w buf (parseSized w)

/-- `parse_elements` of a set. -/
def parseElements : Except ParseError (List String) := parseList w buf (parseText w)

/-- `parse_values` of an array. -/
def parseValues : Except ParseError (List Bytes) := parseList w buf (parseSized w)

/-- `parse_entries` of a map. -/
def parseEntries : Except ParseError (List (String × Bytes)) := parseList w buf (parseEntry w)

end Parse

end Numax
