import Numax.Base.OrdMap
import Numax.Sync.Op

/-!
# Observed-remove set

`orset.rs`. Every add carries a unique tag; a remove carries the tags its
replica has observed. An element is visible while one of its add tags is not
removed. Both sides only ever grow, so all updates commute.
-/

open Base Std

namespace Numax

structure ORSet where
  adds : OrdMap String (OrdSet String) := ∅
  removes : OrdMap String (OrdSet String) := ∅
deriving DecidableEq

namespace ORSet

/-- `entry(element).or_default()` extended by some tags. -/
def extendTags (m : OrdMap String (OrdSet String)) (element : String) (tags : List String) :
    OrdMap String (OrdSet String) :=
  m.alter element (fun old => some ((old.getD ∅).insertMany tags))

def new : ORSet := {}

/-- Add `element` under a tag; the flag says whether the tag is new. -/
def add (s : ORSet) (element tag : String) : ORSet × Bool :=
  let known := ((s.adds[element]?).getD ∅).contains tag
  ({ s with adds := extendTags s.adds element [tag] }, !known)

/-- The add of a remote operation. -/
def applyAdd (s : ORSet) (element tag : String) : ORSet × Bool := s.add element tag

/-- The remove of a remote operation. -/
def applyRemove (s : ORSet) (element : String) (observedTags : List String) : ORSet × Bool :=
  let before := ((s.removes[element]?).getD ∅).size
  let removes := extendTags s.removes element observedTags
  ({ s with removes }, ((removes[element]?).getD ∅).size != before)

/-- The add tags of `element` in ascending order. -/
def observedTags (s : ORSet) (element : String) : List String :=
  ((s.adds[element]?).map fun tags => tags.toList).getD []

/-- Remove every add tag observed here; the tags go into the operation. -/
def remove (s : ORSet) (element : String) : ORSet × List String :=
  let observedTags := ((s.adds[element]?).map fun tags => tags.toList).getD []
  ((s.applyRemove element observedTags).1, observedTags)

/-- The add tags of `element` that no remove has covered. -/
def visibleTags (s : ORSet) (element : String) : List String :=
  (((s.adds[element]?).map fun tags => tags.toList).getD []).filter fun tag =>
    match s.removes[element]? with
    | none => true
    | some removed => !removed.contains tag

def contains (s : ORSet) (element : String) : Bool := (s.visibleTags element).head?.isSome

/-- Visible elements in ascending order. -/
def elements (s : ORSet) : List String := s.adds.keys.filter s.contains

/-- Extend the tags of every element of `other`; the flag says whether any grew. -/
def mergeTags (m other : OrdMap String (OrdSet String)) : OrdMap String (OrdSet String) × Bool :=
  other.toList.foldl (fun (acc, changed) (element, tags) =>
    let before := ((acc[element]?).getD ∅).size
    let acc := extendTags acc element tags.toList
    (acc, changed || ((acc[element]?).getD ∅).size != before)) (m, false)

/-- Union of the adds and of the removes. -/
def merge (s other : ORSet) : ORSet × Bool :=
  let (adds, addsChanged) := mergeTags s.adds other.adds
  let (removes, removesChanged) := mergeTags s.removes other.removes
  ({ adds, removes }, addsChanged || removesChanged)

def mergedWith (s other : ORSet) : ORSet := (s.merge other).1

theorem insertMany_right_comm (old : OrdSet String) (ts us : List String) :
    (old.insertMany ts).insertMany us = (old.insertMany us).insertMany ts := by
  apply ExtTreeSet.ext_mem
  intro a
  simp only [ExtTreeSet.mem_insertMany_list, or_assoc, or_comm (a := (us.contains a = true))]

theorem extendTags_right_comm (m : OrdMap String (OrdSet String)) (e f : String)
    (ts us : List String) :
    extendTags (extendTags m e ts) f us = extendTags (extendTags m f us) e ts := by
  apply OrdMap.alter_comm
  intro _ old
  simp only [Option.getD_some, insertMany_right_comm]

theorem applyAdd_right_comm (s : ORSet) (e f t u : String) :
    ((s.applyAdd e t).1.applyAdd f u).1 = ((s.applyAdd f u).1.applyAdd e t).1 := by
  simp only [applyAdd, add, extendTags_right_comm]

theorem applyRemove_right_comm (s : ORSet) (e f : String) (ts us : List String) :
    ((s.applyRemove e ts).1.applyRemove f us).1 = ((s.applyRemove f us).1.applyRemove e ts).1 := by
  simp only [applyRemove, extendTags_right_comm]

/-- Adds and removes touch different sides. -/
theorem applyAdd_applyRemove_comm (s : ORSet) (e f t : String) (us : List String) :
    ((s.applyAdd e t).1.applyRemove f us).1 = ((s.applyRemove f us).1.applyAdd e t).1 := rfl

end ORSet

end Numax
