import Numax.Base.OrdMap
import Numax.Base.Machine
import Numax.Base.Pick
import Numax.Sync.Op

/-!
# Last-writer-wins register and map

`lww_register.rs` and `lww_map.rs`. Both keep the greatest write seen so far:

* a register orders writes by timestamp, then writer (`stampCmp`), so writes
  that share both keep whichever came first;
* a map entry breaks that tie by content (`entryCmp`): a tombstone beats a
  value and a larger value beats a smaller one, so the order on entries is
  total and field writes always commute.

The Boolean tests `candidateWins` and `entryWins` follow the source; their
`_iff` lemmas identify them with the two comparisons.
-/

open Base Std

namespace Numax

/-! ## Register -/

structure LwwRegister where
  value : Bytes
  timestampMs : UInt64
  writer : NodeId
deriving DecidableEq, Repr

/-- Does `candidate` replace `current`? -/
def candidateWins (candidate current : LwwRegister) : Bool :=
  candidate.timestampMs > current.timestampMs
    || (candidate.timestampMs == current.timestampMs && candidate.writer > current.writer)

namespace LwwRegister

/-- Merge another register into this one; the flag says whether it won. -/
def merge (r other : LwwRegister) : LwwRegister × Bool :=
  if candidateWins other r then (other, true) else (r, false)

/-- The merged register. -/
def mergedWith (r other : LwwRegister) : LwwRegister := (r.merge other).1

/-- Replace the register if the written candidate wins. -/
def assign (r : LwwRegister) (value : Bytes) (timestampMs : UInt64) (writer : NodeId) :
    LwwRegister × Bool :=
  r.merge { value, timestampMs, writer }

/-- Registers ordered by timestamp, then writer. -/
def stampCmp : LwwRegister → LwwRegister → Ordering :=
  compareLex (compareOn timestampMs) (compareOn writer)

instance : TransCmp stampCmp :=
  inferInstanceAs (TransCmp (compareLex (compareOn timestampMs) (compareOn writer)))

end LwwRegister

theorem candidateWins_iff (candidate current : LwwRegister) :
    candidateWins candidate current = true ↔ current.stampCmp candidate = .lt := by
  unfold candidateWins LwwRegister.stampCmp compareLex compareOn
  rw [Ordering.then_eq_lt, compare_u64_lt, compare_lt_iff_lt, Std.compare_eq_iff_eq]
  simp only [Bool.or_eq_true, Bool.and_eq_true, decide_eq_true_eq, beq_iff_eq, gt_iff_lt]
  rw [eq_comm]

theorem LwwRegister.merge_fst (r other : LwwRegister) :
    (r.merge other).1 = pick stampCmp r other := by
  unfold merge pick
  simp only [candidateWins_iff]
  split <;> rfl

/-! ## Map -/

structure LwwMapEntry where
  value : Option Bytes
  timestampMs : UInt64
  writer : NodeId
deriving DecidableEq, Repr

namespace LwwMapEntry

def present (value : Bytes) (timestampMs : UInt64) (writer : NodeId) : LwwMapEntry :=
  { value := some value, timestampMs, writer }

def tombstone (timestampMs : UInt64) (writer : NodeId) : LwwMapEntry :=
  { value := none, timestampMs, writer }

/-- Entries ordered by timestamp, writer, and content with the tombstone on top. -/
def entryCmp : LwwMapEntry → LwwMapEntry → Ordering :=
  compareLex (compareOn timestampMs) (compareLex (compareOn writer)
    (compareLex (compareOn fun e => e.value.isNone) (compareOn fun e => e.value.getD [])))

instance : TransCmp entryCmp :=
  inferInstanceAs (TransCmp (compareLex (compareOn timestampMs) (compareLex (compareOn writer)
    (compareLex (compareOn fun e => e.value.isNone) (compareOn fun e => e.value.getD [])))))

/-- Entries that tie in every component are equal. -/
theorem eq_of_entryCmp_eq {a b : LwwMapEntry} (h : entryCmp a b = .eq) : a = b := by
  obtain ⟨va, ta, wa⟩ := a
  obtain ⟨vb, tb, wb⟩ := b
  simp only [entryCmp, compareLex, compareOn, Ordering.then_eq_eq, Std.compare_eq_iff_eq] at h
  obtain ⟨ht, hw, hnone, hval⟩ := h
  rw [ht, hw]
  cases va <;> cases vb <;> simp_all

end LwwMapEntry

/-- On equal timestamp and writer a tombstone beats a value and a larger value
beats a smaller one. -/
def valueWins (candidate current : Option Bytes) : Bool :=
  match candidate, current with
  | none, some _ => true
  | some _, none => false
  | none, none => false
  | some candidate, some current => compare candidate current == .gt

/-- Does `candidate` replace `current`? -/
def entryWins (candidate current : LwwMapEntry) : Bool :=
  candidate.timestampMs > current.timestampMs
    || (candidate.timestampMs == current.timestampMs
      && (candidate.writer > current.writer
        || (candidate.writer == current.writer && valueWins candidate.value current.value)))

theorem valueWins_iff (candidate current : Option Bytes) :
    valueWins candidate current = true ↔
      (compare current.isNone candidate.isNone).then
        (compare (current.getD []) (candidate.getD [])) = .lt := by
  cases candidate with
  | none =>
    cases current with
    | none => simp [valueWins]
    | some b => exact ⟨fun _ => rfl, fun _ => rfl⟩
  | some c =>
    cases current with
    | none => exact ⟨nofun, nofun⟩
    | some b => simp [valueWins, OrientedCmp.gt_iff_lt]

theorem entryWins_iff (candidate current : LwwMapEntry) :
    entryWins candidate current = true ↔ current.entryCmp candidate = .lt := by
  unfold entryWins LwwMapEntry.entryCmp compareLex compareOn
  rw [Ordering.then_eq_lt, Ordering.then_eq_lt, compare_u64_lt, compare_lt_iff_lt,
    Std.compare_eq_iff_eq, Std.compare_eq_iff_eq, ← valueWins_iff]
  simp only [Bool.or_eq_true, Bool.and_eq_true, decide_eq_true_eq, beq_iff_eq, gt_iff_lt]
  rw [eq_comm, eq_comm (a := candidate.writer)]

structure LwwMap where
  entries : OrdMap String LwwMapEntry := ∅
deriving DecidableEq

namespace LwwMap

def new : LwwMap := {}

/-- Write an entry unless the field's current one beats it. -/
def applyEntry (m : LwwMap) (field : String) (candidate : LwwMapEntry) : LwwMap × Bool :=
  match m.entries[field]? with
  | some current =>
    if !entryWins candidate current then (m, false)
    else ({ entries := m.entries.insert field candidate }, true)
  | none => ({ entries := m.entries.insert field candidate }, true)

def set (m : LwwMap) (field : String) (value : Bytes) (timestampMs : UInt64)
    (writer : NodeId) : LwwMap × Bool :=
  m.applyEntry field (.present value timestampMs writer)

def remove (m : LwwMap) (field : String) (timestampMs : UInt64) (writer : NodeId) :
    LwwMap × Bool :=
  m.applyEntry field (.tombstone timestampMs writer)

/-- Write every entry of another map; the flag says whether one of them won. -/
def merge (m other : LwwMap) : LwwMap × Bool :=
  other.entries.toList.foldl
    (fun (merged, changed) (field, entry) =>
      let (merged, won) := merged.applyEntry field entry
      (merged, changed || won))
    (m, false)

/-- The merged map. -/
def mergedWith (m other : LwwMap) : LwwMap := (m.merge other).1

/-- The winning entry of a field, tombstones included. -/
def entry (m : LwwMap) (field : String) : Option LwwMapEntry := m.entries[field]?

/-- The visible value of a field. -/
def getBytes (m : LwwMap) (field : String) : Option Bytes :=
  (m.entries[field]?).bind LwwMapEntry.value

def contains (m : LwwMap) (field : String) : Bool := (m.getBytes field).isSome

/-- Visible entries in field order. -/
def visibleEntries (m : LwwMap) : List (String × Bytes) :=
  m.entries.toList.filterMap fun (field, entry) => entry.value.map fun value => (field, value)

/-- A field write keeps the greater of the old entry and the candidate. -/
theorem applyEntry_entries (m : LwwMap) (field : String) (candidate : LwwMapEntry) :
    (m.applyEntry field candidate).1.entries =
      m.entries.alter field (fun current => pickOpt LwwMapEntry.entryCmp current candidate) := by
  unfold applyEntry
  split
  · next current hcur =>
      by_cases hwin : current.entryCmp candidate = .lt
      · rw [← entryWins_iff] at hwin
        simp only [hwin, Bool.not_true, Bool.false_eq_true, if_false, OrdMap.insert_eq_alter]
        apply OrdMap.alter_congr
        rw [hcur, pickOpt, pick_of_lt _ ((entryWins_iff _ _).mp hwin)]
      · have hlose : entryWins candidate current = false := by
          rw [← entryWins_iff] at hwin
          simpa using hwin
        simp only [hlose, Bool.not_false, if_true]
        symm
        apply OrdMap.alter_eq_self
        rw [hcur, pickOpt, pick_of_not_lt _ hwin]
  · next hcur =>
      simp only [OrdMap.insert_eq_alter]
      apply OrdMap.alter_congr
      rw [hcur, pickOpt]

/-- Merging keeps, field by field, the greater of the two entries. -/
theorem mergedWith_entry (m other : LwwMap) (field : String) :
    (m.mergedWith other).entry field =
      pickBoth LwwMapEntry.entryCmp (m.entry field) (other.entry field) := by
  let keep (current : Option LwwMapEntry) (candidate : LwwMapEntry) : LwwMapEntry :=
    match current with
    | none => candidate
    | some current => pick LwwMapEntry.entryCmp current candidate
  have hkeep (current : Option LwwMapEntry) (candidate : LwwMapEntry) :
      pickOpt LwwMapEntry.entryCmp current candidate = some (keep current candidate) := by
    cases current <;> rfl
  have hfold : ∀ (writes : List (String × LwwMapEntry)) (m : LwwMap) (changed : Bool),
      (writes.foldl
        (fun (merged, changed) (field, entry) =>
          let (merged, won) := merged.applyEntry field entry
          (merged, changed || won))
        (m, changed)).1.entries = OrdMap.upsertAll keep m.entries writes := by
    intro writes
    induction writes with
    | nil => exact fun m changed => rfl
    | cons write rest ih =>
      intro m changed
      rw [List.foldl_cons, ih, applyEntry_entries]
      simp only [hkeep]
      rfl
  rw [entry, mergedWith, merge, hfold, OrdMap.get_upsertAll_toList, entry, entry]
  cases other.entries[field]? with
  | none => rfl
  | some candidate => exact (hkeep _ _).symm

/-- Field writes commute, whatever their stamps. -/
theorem applyEntry_right_comm (m : LwwMap) (f g : String) (a b : LwwMapEntry) :
    ((m.applyEntry f a).1.applyEntry g b).1 = ((m.applyEntry g b).1.applyEntry f a).1 := by
  suffices h : ((m.applyEntry f a).1.applyEntry g b).1.entries
      = ((m.applyEntry g b).1.applyEntry f a).1.entries by
    cases h1 : ((m.applyEntry f a).1.applyEntry g b).1
    cases h2 : ((m.applyEntry g b).1.applyEntry f a).1
    simp_all
  simp only [applyEntry_entries]
  apply OrdMap.alter_comm
  intro _ current
  exact pickOpt_right_comm _ current a b LwwMapEntry.eq_of_entryCmp_eq

end LwwMap

end Numax
