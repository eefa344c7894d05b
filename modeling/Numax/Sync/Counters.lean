import Numax.Base.OrdMap
import Numax.Base.Machine
import Numax.Sync.Op

/-!
# Counters

The grow-only counter and the positive–negative counter (`gcounter.rs`,
`pncounter.rs`). A `GCounter` holds one saturating slot per node; a
`PNCounter` is a pair of them. Increments of any two nodes commute.
-/

open Base Std

namespace Numax

/-- One slot per node that has contributed. -/
structure GCounter where
  counts : OrdMap String UInt64 := ∅
deriving DecidableEq

namespace GCounter

def new : GCounter := {}

/-- The sum of all slots; the release build's `u64` sum wraps. -/
def value (c : GCounter) : UInt64 := (OrdMap.valuesAsc c.counts).sum

/-- The slot of one node. -/
def valueFor (c : GCounter) (node : NodeId) : UInt64 := (c.counts[node]?).getD 0

/-- Saturating increment of the node's slot, created at zero if absent. -/
def increment (c : GCounter) (node : NodeId) (delta : UInt64) : GCounter :=
  { counts := c.counts.alter node (fun slot => some (satAdd (slot.getD 0) delta)) }

/-- Apply an increment operation; the flag says whether the slot changed. -/
def applyOp (c : GCounter) (op : Op) : GCounter × Bool :=
  match op.kind with
  | .gcounterIncrement _ increment =>
    let current := c.valueFor op.origin
    let newValue := satAdd current increment
    if newValue ≠ current then ({ counts := c.counts.insert op.origin newValue }, true)
    else (c, false)
  | _ => (c, false)

/-- The greater of the two slots of every node. -/
def merge (c other : GCounter) : GCounter :=
  { counts := OrdMap.upsertAll (fun slot value => max (slot.getD 0) value) c.counts
      other.counts.toList }

def mergedWith (c other : GCounter) : GCounter := c.merge other

theorem increment_right_comm (c : GCounter) (n m : NodeId) (d e : UInt64) :
    (c.increment n d).increment m e = (c.increment m e).increment n d := by
  simp only [increment, GCounter.mk.injEq]
  apply OrdMap.alter_comm
  intro _ slot
  simp only [Option.getD_some, satAdd_right_comm]

end GCounter

/-- A positive and a negative side. -/
structure PNCounter where
  positive : GCounter := {}
  negative : GCounter := {}
deriving DecidableEq

namespace PNCounter

def new : PNCounter := {}

/-- The difference of the two sums, clamped into `i64`. -/
def value (c : PNCounter) : Int :=
  clampI64 ((c.positive.value.toNat : Int) - (c.negative.value.toNat : Int))

def positiveFor (c : PNCounter) (node : NodeId) : UInt64 := c.positive.valueFor node

def negativeFor (c : PNCounter) (node : NodeId) : UInt64 := c.negative.valueFor node

def increment (c : PNCounter) (node : NodeId) (delta : UInt64) : PNCounter :=
  { c with positive := c.positive.increment node delta }

def decrement (c : PNCounter) (node : NodeId) (delta : UInt64) : PNCounter :=
  { c with negative := c.negative.increment node delta }

/-- Apply a PNCounter operation; the flag says whether a slot changed. -/
def applyOp (c : PNCounter) (op : Op) : PNCounter × Bool :=
  match op.kind with
  | .pncounterIncrement _ increment =>
    let before := c.positiveFor op.origin
    let c := c.increment op.origin increment
    (c, c.positiveFor op.origin != before)
  | .pncounterDecrement _ decrement =>
    let before := c.negativeFor op.origin
    let c := c.decrement op.origin decrement
    (c, c.negativeFor op.origin != before)
  | _ => (c, false)

/-- Merge both sides. -/
def merge (c other : PNCounter) : PNCounter :=
  { positive := c.positive.merge other.positive
    negative := c.negative.merge other.negative }

def mergedWith (c other : PNCounter) : PNCounter := c.merge other

theorem increment_right_comm (c : PNCounter) (n m : NodeId) (d e : UInt64) :
    (c.increment n d).increment m e = (c.increment m e).increment n d := by
  simp only [increment, GCounter.increment_right_comm]

theorem decrement_right_comm (c : PNCounter) (n m : NodeId) (d e : UInt64) :
    (c.decrement n d).decrement m e = (c.decrement m e).decrement n d := by
  simp only [decrement, GCounter.increment_right_comm]

/-- The two sides are independent. -/
theorem increment_decrement_comm (c : PNCounter) (n m : NodeId) (d e : UInt64) :
    (c.increment n d).decrement m e = (c.decrement m e).increment n d := rfl

end PNCounter

end Numax
