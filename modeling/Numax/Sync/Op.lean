import Numax.Base.Bytes

/-!
# CRDT operations

The operations a node exchanges with its peers (`nx-sync`, `op.rs`). The Rust
newtypes around `String` (`NodeId`, `OpId`, `RgaElementId`) are transparent
here. Constructors that call `OpId::generate` take the generated id as an
argument.
-/

open Base

namespace Numax

/-- Identity of a node. -/
abbrev NodeId := String

/-- Globally unique id of an operation. -/
abbrev OpId := String

/-- Type and data of an operation. -/
inductive OpKind where
  | gcounterIncrement (key : String) (increment : UInt64)
  | pncounterIncrement (key : String) (increment : UInt64)
  | pncounterDecrement (key : String) (decrement : UInt64)
  | lwwRegisterSet (key : String) (value : Bytes) (timestampMs : UInt64)
  | lwwMapSet (key field : String) (value : Bytes) (timestampMs : UInt64)
  | lwwMapRemove (key field : String) (timestampMs : UInt64)
  | orsetAdd (key element tag : String)
  | orsetRemove (key element : String) (observedTags : List String)
  | rgaInsert (key id : String) (parent : Option String) (value : Bytes)
  | rgaDelete (key id : String)
deriving DecidableEq, Repr

/-- A complete operation, ready to be sent or received. -/
structure Op where
  id : OpId
  origin : NodeId
  kind : OpKind
deriving DecidableEq, Repr

namespace Op

variable (generated : OpId) (origin : NodeId)

def gcounterIncrement (key : String) (increment : UInt64) : Op :=
  { id := generated, origin, kind := .gcounterIncrement key increment }

def pncounterIncrement (key : String) (increment : UInt64) : Op :=
  { id := generated, origin, kind := .pncounterIncrement key increment }

def pncounterDecrement (key : String) (decrement : UInt64) : Op :=
  { id := generated, origin, kind := .pncounterDecrement key decrement }

def lwwRegisterSet (key : String) (value : Bytes) (timestampMs : UInt64) : Op :=
  { id := generated, origin, kind := .lwwRegisterSet key value timestampMs }

def lwwMapSet (key field : String) (value : Bytes) (timestampMs : UInt64) : Op :=
  { id := generated, origin, kind := .lwwMapSet key field value timestampMs }

def lwwMapRemove (key field : String) (timestampMs : UInt64) : Op :=
  { id := generated, origin, kind := .lwwMapRemove key field timestampMs }

/-- The add tag is the id of the operation itself. -/
def orsetAddWithOpIdTag (key element : String) : Op :=
  { id := generated, origin, kind := .orsetAdd key element generated }

def orsetRemove (key element : String) (observedTags : List String) : Op :=
  { id := generated, origin, kind := .orsetRemove key element observedTags }

/-- The element id is the id of the operation itself. -/
def rgaInsertWithOpId (key : String) (parent : Option String) (value : Bytes) : Op :=
  { id := generated, origin, kind := .rgaInsert key generated parent value }

def rgaDelete (key id : String) : Op :=
  { id := generated, origin, kind := .rgaDelete key id }

end Op

end Numax
