import Numax.Sync.Lww
import Numax.Base.Utf8Order

/-!
# Merge laws of the map

Field entries are totally ordered by timestamp, writer and content, the tombstone above
every value (`LwwMapEntry.Le`). A write keeps the greater entry of its field and so does
a merge, so maps form a semilattice, and a map that was put together from writes and
merges (`MapHistory`) has in each field the greatest of all the writes that went into it.
-/

open Base Std

namespace Numax

/-! ## The order on entries -/

/-- The order on contents: values as byte strings, and the tombstone on top. -/
def ValueLe : Option Bytes → Option Bytes → Prop
  | _, none => True
  | none, some _ => False
  | some a, some b => (compare a b).isLE

namespace LwwMapEntry

/-- By timestamp, then the bytes of the writer, then content. -/
def Le (a b : LwwMapEntry) : Prop :=
  a.timestampMs < b.timestampMs ∨
    a.timestampMs = b.timestampMs ∧
      (asBytes a.writer < asBytes b.writer ∨ a.writer = b.writer ∧ ValueLe a.value b.value)

theorem valueLe_iff (a b : Option Bytes) :
    ValueLe a b ↔
      ((compare a.isNone b.isNone).then (compare (a.getD []) (b.getD []))).isLE = true := by
  cases a with
  | none =>
    cases b with
    | none => simp [ValueLe]
    | some b => exact ⟨nofun, nofun⟩
  | some a =>
    cases b with
    | none => exact ⟨fun _ => rfl, fun _ => trivial⟩
    | some b => simp [ValueLe]

theorem le_iff (a b : LwwMapEntry) : a.Le b ↔ (entryCmp a b).isLE = true := by
  unfold Le entryCmp compareLex compareOn
  rw [asBytes_lt_iff, Ordering.isLE_then_iff_or, Ordering.isLE_then_iff_or, compare_u64_lt,
    compare_lt_iff_lt, Std.compare_eq_iff_eq, Std.compare_eq_iff_eq, valueLe_iff]

theorem Le.total (a b : LwwMapEntry) : a.Le b ∨ b.Le a := by
  have hswap : entryCmp b a = (entryCmp a b).swap := OrientedCmp.eq_swap
  rw [le_iff, le_iff, hswap]
  cases entryCmp a b <;> simp

theorem Le.trans {a b c : LwwMapEntry} (hab : a.Le b) (hbc : b.Le c) : a.Le c := by
  rw [le_iff] at *
  exact TransCmp.isLE_trans hab hbc

theorem Le.antisymm {a b : LwwMapEntry} (hab : a.Le b) (hba : b.Le a) : a = b := by
  rw [le_iff] at *
  exact eq_of_entryCmp_eq (OrientedCmp.isLE_antisymm hab hba)

end LwwMapEntry

/-! ## Histories -/

/-- How a map was put together. -/
inductive MapHistory where
  | new
  | set (before : MapHistory) (field : String) (value : Bytes) (timestampMs : UInt64)
      (writer : NodeId)
  | remove (before : MapHistory) (field : String) (timestampMs : UInt64) (writer : NodeId)
  | merge (before other : MapHistory)

namespace MapHistory

def replay : MapHistory → LwwMap
  | .new => .new
  | .set before field value timestampMs writer =>
    (before.replay.set field value timestampMs writer).1
  | .remove before field timestampMs writer => (before.replay.remove field timestampMs writer).1
  | .merge before other => (before.replay.merge other.replay).1

/-- All writes to a field, each as the entry it proposes. -/
def writes (field : String) : MapHistory → List LwwMapEntry
  | .new => []
  | .set before f value timestampMs writer =>
    before.writes field ++ if f = field then [.present value timestampMs writer] else []
  | .remove before f timestampMs writer =>
    before.writes field ++ if f = field then [.tombstone timestampMs writer] else []
  | .merge before other => before.writes field ++ other.writes field

theorem greatest_applyEntry {m : LwwMap} {field : String} {ws : List LwwMapEntry}
    (h : Greatest LwwMapEntry.entryCmp ws (m.entry field)) (f : String) (candidate : LwwMapEntry) :
    Greatest LwwMapEntry.entryCmp (ws ++ if f = field then [candidate] else [])
      ((m.applyEntry f candidate).1.entry field) := by
  rw [LwwMap.entry, LwwMap.applyEntry_entries, OrdMap.get_alter]
  split
  next hfield =>
    rw [hfield]
    exact h.join (.single candidate)
  next =>
    rw [List.append_nil]
    exact h

/-- Each field has the greatest of the writes to it. -/
theorem greatest_replay (history : MapHistory) (field : String) :
    Greatest LwwMapEntry.entryCmp (history.writes field) (history.replay.entry field) := by
  induction history with
  | new => rfl
  | set before f value timestampMs writer ih => exact greatest_applyEntry ih f _
  | remove before f timestampMs writer ih => exact greatest_applyEntry ih f _
  | merge before other ih ihOther =>
    have hentry := LwwMap.mergedWith_entry before.replay other.replay field
    rw [LwwMap.mergedWith] at hentry
    rw [replay, writes, hentry]
    exact ih.join ihOther

end MapHistory

namespace LwwMap

theorem ext_entry {a b : LwwMap} (h : ∀ field, a.entry field = b.entry field) : a = b := by
  obtain ⟨a⟩ := a
  obtain ⟨b⟩ := b
  exact congrArg LwwMap.mk (ExtTreeMap.ext_getElem? h)

theorem mem_visibleEntries (m : LwwMap) (field : String) (value : Bytes) :
    (field, value) ∈ m.visibleEntries ↔ ∃ e, m.entry field = some e ∧ e.value = some value := by
  rw [visibleEntries, List.mem_filterMap]
  constructor
  · rintro ⟨⟨f, e⟩, hmem, hvisible⟩
    obtain ⟨value', hvalue, heq⟩ := Option.map_eq_some_iff.mp hvisible
    cases heq
    exact ⟨e, (OrdMap.mem_toList _).mp hmem, hvalue⟩
  · rintro ⟨e, hentry, hvalue⟩
    exact ⟨(field, e), (OrdMap.mem_toList _).mpr hentry, by simp only [hvalue, Option.map_some]⟩

/-- Visible fields are listed in ascending order, each once. -/
theorem visibleEntries_sorted (m : LwwMap) :
    m.visibleEntries.Pairwise fun a b => a.1 < b.1 := by
  refine List.Pairwise.filterMap _ ?_ (OrdMap.toList_sorted m.entries)
  rintro ⟨f, e⟩ ⟨f', e'⟩ hlt visible hvisible visible' hvisible'
  obtain ⟨value, -, rfl⟩ := Option.map_eq_some_iff.mp hvisible
  obtain ⟨value', -, rfl⟩ := Option.map_eq_some_iff.mp hvisible'
  exact compare_lt_iff_lt.mp hlt

end LwwMap

/-- The greatest write to a field, and nothing if there is none. -/
def MaximumOf (writes : List LwwMapEntry) : Option LwwMapEntry → Prop
  | none => writes = []
  | some top => top ∈ writes ∧ ∀ e ∈ writes, e.Le top

theorem maximumOf_iff (writes : List LwwMapEntry) (cell : Option LwwMapEntry) :
    MaximumOf writes cell ↔ Greatest LwwMapEntry.entryCmp writes cell := by
  cases cell with
  | none => exact Iff.rfl
  | some top => simp only [MaximumOf, Greatest, LwwMapEntry.le_iff]

/-- Merging maps is commutative, associative and idempotent. A map holds in each field the
greatest of the writes it was put together from, whatever their order and however often
each was applied, and lists the fields where that is a value. -/
theorem lwwMap_laws (a b c : LwwMap) (history : MapHistory) :
    (a.mergedWith b = b.mergedWith a ∧
      (a.mergedWith b).mergedWith c = a.mergedWith (b.mergedWith c) ∧ a.mergedWith a = a) ∧
    ((∀ x y : LwwMapEntry, x.Le y ∨ y.Le x) ∧ (∀ x y : LwwMapEntry, x.Le y → y.Le x → x = y) ∧
      ∀ x y z : LwwMapEntry, x.Le y → y.Le z → x.Le z) ∧
    (∀ field, MaximumOf (history.writes field) (history.replay.entry field)) ∧
    (∀ other : MapHistory, (∀ field e, e ∈ other.writes field ↔ e ∈ history.writes field) →
      other.replay = history.replay) ∧
    (∀ field value, (field, value) ∈ history.replay.visibleEntries ↔
      ∃ e, MaximumOf (history.writes field) (some e) ∧ e.value = some value) ∧
    history.replay.visibleEntries.Pairwise fun x y => x.1 < y.1 := by
  have htie := fun x y => @LwwMapEntry.eq_of_entryCmp_eq x y
  have hmax := history.greatest_replay
  refine ⟨⟨?_, ?_, ?_⟩, ⟨LwwMapEntry.Le.total, fun _ _ => LwwMapEntry.Le.antisymm,
    fun _ _ _ => LwwMapEntry.Le.trans⟩, ?_, ?_,
    ?_, LwwMap.visibleEntries_sorted _⟩
  · refine LwwMap.ext_entry fun field => ?_
    rw [LwwMap.mergedWith_entry, LwwMap.mergedWith_entry, pickBoth_comm _ htie]
  · refine LwwMap.ext_entry fun field => ?_
    simp only [LwwMap.mergedWith_entry]
    exact pickBoth_assoc _ _ _ _
  · refine LwwMap.ext_entry fun field => ?_
    rw [LwwMap.mergedWith_entry, pickBoth_self]
  · exact fun field => (maximumOf_iff _ _).mpr (hmax field)
  · intro other hsame
    refine LwwMap.ext_entry fun field => ?_
    exact (other.greatest_replay field).unique htie (hmax field) (hsame field)
  · intro field value
    rw [LwwMap.mem_visibleEntries]
    simp only [maximumOf_iff]
    constructor
    · rintro ⟨e, hentry, hvalue⟩
      exact ⟨e, hentry ▸ hmax field, hvalue⟩
    · rintro ⟨e, hgreatest, hvalue⟩
      exact ⟨e, (hmax field).unique htie hgreatest fun _ => Iff.rfl, hvalue⟩

end Numax
