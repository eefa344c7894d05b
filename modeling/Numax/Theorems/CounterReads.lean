import Numax.Sync.Counters

/-!
# Reading counters

Slots saturate, but a read adds up all of them with the plain `u64` sum: in a
build with overflow checks it panics when the total does not fit, in a release
build it wraps. Reads are exact, and do not decrease under any update, as long
as the slots of the counter being read add up to at most `u64::MAX`
(`counterReads_iff`). The slots live in a hash map, so a read may visit them in
any order.
-/

open Base Std

namespace Numax

/-! ## The sum of a build -/

/-- The `u64` sum of a build with or without overflow checks; a panic is `none`. -/
def sumSlots (overflowChecks : Bool) : List UInt64 → (acc : UInt64) → Option UInt64
  | [], acc => some acc
  | slot :: rest, acc =>
    if overflowChecks ∧ u64Max < acc.toNat + slot.toNat then none
    else sumSlots overflowChecks rest (acc + slot)

/-- The mathematical sum. -/
def totalOf (slots : List UInt64) : Nat := (slots.map UInt64.toNat).sum

theorem add_toNat_of_le {a b : UInt64} (h : a.toNat + b.toNat ≤ u64Max) :
    (a + b).toNat = a.toNat + b.toNat := by
  rw [UInt64.toNat_add]
  simp only [u64Max] at h
  omega

theorem sumSlots_of_le {checks : Bool} {slots : List UInt64} {acc : UInt64}
    (h : acc.toNat + totalOf slots ≤ u64Max) :
    (sumSlots checks slots acc).map UInt64.toNat = some (acc.toNat + totalOf slots) := by
  induction slots generalizing acc with
  | nil => simp [sumSlots, totalOf]
  | cons slot rest ih =>
    have hsum : totalOf (slot :: rest) = slot.toNat + totalOf rest := by simp [totalOf]
    have hacc : (acc + slot).toNat = acc.toNat + slot.toNat := add_toNat_of_le (by omega)
    rw [sumSlots, if_neg (by omega), ih (by omega), hacc, hsum]
    congr 1
    omega

/-- A checked sum that does not fit panics. -/
theorem sumSlots_checked_of_lt {slots : List UInt64} {acc : UInt64}
    (h : u64Max < acc.toNat + totalOf slots) : sumSlots true slots acc = none := by
  induction slots generalizing acc with
  | nil =>
    have hlt := acc.toNat_lt
    simp only [totalOf, List.map_nil, List.sum_nil, u64Max] at h
    omega
  | cons slot rest ih =>
    have hsum : totalOf (slot :: rest) = slot.toNat + totalOf rest := by simp [totalOf]
    rw [sumSlots]
    split
    · rfl
    · next hfit =>
        have hacc : (acc + slot).toNat = acc.toNat + slot.toNat :=
          add_toNat_of_le (by simpa using hfit)
        exact ih (by omega)

/-- The release build's read is `GCounter.value`. -/
theorem sumSlots_release (c : GCounter) :
    sumSlots false (OrdMap.valuesAsc c.counts) 0 = some c.value := by
  have hfold : ∀ (slots : List UInt64) (acc : UInt64),
      sumSlots false slots acc = some (acc + slots.sum) := by
    intro slots
    induction slots with
    | nil => simp [sumSlots]
    | cons slot rest ih => simp [sumSlots, ih, UInt64.add_assoc]
  rw [hfold, GCounter.value, UInt64.zero_add]

theorem totalOf_perm {slots slots' : List UInt64} (h : slots.Perm slots') :
    totalOf slots = totalOf slots' := (h.map _).sum_eq

/-! ## Slots -/

namespace GCounter

/-- The slots in some order of the hash map. -/
def SlotOrder (c : GCounter) (slots : List UInt64) : Prop :=
  slots.Perm (OrdMap.valuesAsc c.counts)

/-- A read neither panics nor wraps, in any build and visiting order. -/
def ReadsExactly (c : GCounter) : Prop :=
  ∀ checks slots, c.SlotOrder slots →
    (sumSlots checks slots 0).map UInt64.toNat = some (totalOf (OrdMap.valuesAsc c.counts))

theorem readsExactly_iff_total (c : GCounter) :
    c.ReadsExactly ↔ totalOf (OrdMap.valuesAsc c.counts) ≤ u64Max := by
  constructor
  · intro h
    by_contra hlt
    have hread := h true _ (List.Perm.refl _)
    rw [sumSlots_checked_of_lt (by simpa using hlt)] at hread
    cases hread
  · intro h checks slots horder
    have htotal := totalOf_perm horder
    rw [sumSlots_of_le (by simpa [htotal] using h), htotal]
    simp

/-- The nodes with a slot. -/
def slotNodes (c : GCounter) : Finset NodeId := c.counts.keys.toFinset

theorem total_eq_sum (c : GCounter) :
    totalOf (OrdMap.valuesAsc c.counts) = ∑ node ∈ c.slotNodes, (c.valueFor node).toNat := by
  have hnodup : c.counts.keys.Nodup := ExtTreeMap.nodup_keys
  have hvalues : (OrdMap.valuesAsc c.counts).map UInt64.toNat =
      c.counts.keys.map fun node => (c.valueFor node).toNat := by
    rw [OrdMap.valuesAsc, ← ExtTreeMap.map_fst_toList_eq_keys, List.map_map, List.map_map]
    refine List.map_congr_left fun entry hentry => ?_
    have hget := (OrdMap.mem_toList c.counts).mp hentry
    simp only [Function.comp_apply, valueFor]
    rw [hget]
    rfl
  rw [totalOf, hvalues, slotNodes, List.sum_toFinset _ hnodup]

theorem valueFor_of_not_mem {c : GCounter} {node : NodeId} (h : node ∉ c.slotNodes) :
    c.valueFor node = 0 := by
  rw [slotNodes, List.mem_toFinset, ExtTreeMap.mem_keys] at h
  rw [valueFor, ExtTreeMap.getElem?_eq_none h]
  rfl

/-- The slots fit a `u64` together. -/
def SlotsFit (slot : NodeId → Nat) : Prop :=
  ∀ nodes : Finset NodeId, ∑ node ∈ nodes, slot node ≤ u64Max

theorem slotsFit_iff (c : GCounter) :
    SlotsFit (fun node => (c.valueFor node).toNat) ↔
      totalOf (OrdMap.valuesAsc c.counts) ≤ u64Max := by
  rw [total_eq_sum]
  constructor
  · intro h
    exact h c.slotNodes
  · intro h nodes
    refine Nat.le_trans ?_ h
    -- nodes without a slot add nothing
    calc ∑ node ∈ nodes, (c.valueFor node).toNat
        ≤ ∑ node ∈ nodes ∪ c.slotNodes, (c.valueFor node).toNat :=
          Finset.sum_le_sum_of_subset Finset.subset_union_left
      _ = ∑ node ∈ c.slotNodes, (c.valueFor node).toNat :=
          (Finset.sum_subset Finset.subset_union_right fun node _ hnot => by
            rw [valueFor_of_not_mem hnot]; rfl).symm

theorem readsExactly_iff (c : GCounter) :
    c.ReadsExactly ↔ SlotsFit fun node => (c.valueFor node).toNat :=
  (readsExactly_iff_total c).trans (slotsFit_iff c).symm

/-! ## Updates -/

/-- The updates of a counter. -/
inductive Update where
  | increment (node : NodeId) (delta : UInt64)
  | applyOp (op : Op)
  | merge (other : GCounter)

def after (c : GCounter) : Update → GCounter
  | .increment node delta => c.increment node delta
  | .applyOp op => (c.applyOp op).1
  | .merge other => c.merge other

/-- A slot after adding to it, as a number. -/
def slotPlus (slot delta : UInt64) : Nat := min (slot.toNat + delta.toNat) u64Max

/-- The slots an update leads to, from the counter before it. -/
def slotAfter (c : GCounter) (update : Update) (node : NodeId) : Nat :=
  match update with
  | .increment at' delta => if at' = node then slotPlus (c.valueFor node) delta
      else (c.valueFor node).toNat
  | .applyOp op =>
    match op.kind with
    | .gcounterIncrement _ delta => if op.origin = node then slotPlus (c.valueFor node) delta
        else (c.valueFor node).toNat
    | _ => (c.valueFor node).toNat
  | .merge other => max (c.valueFor node).toNat (other.valueFor node).toNat

theorem valueFor_increment (c : GCounter) (node at' : NodeId) (delta : UInt64) :
    (c.increment at' delta).valueFor node =
      if at' = node then satAdd (c.valueFor node) delta else c.valueFor node := by
  rw [valueFor, increment, OrdMap.get_alter]
  split
  · next heq =>
      subst heq
      rfl
  · rfl

theorem valueFor_applyOp (c : GCounter) (node : NodeId) {op : Op} {key : String} {delta : UInt64}
    (hkind : op.kind = .gcounterIncrement key delta) :
    (c.applyOp op).1.valueFor node =
      if op.origin = node then satAdd (c.valueFor node) delta else c.valueFor node := by
  rw [applyOp, hkind]
  dsimp only
  split
  · rw [valueFor, OrdMap.get_insert]
    split
    · next heq => rw [heq]; rfl
    · rfl
  · next hsame =>
      split
      · next heq =>
          rw [not_not, heq] at hsame
          exact hsame.symm
      · rfl

theorem valueFor_merge (c other : GCounter) (node : NodeId) :
    (c.merge other).valueFor node = max (c.valueFor node) (other.valueFor node) := by
  rw [valueFor, merge, OrdMap.get_upsertAll_toList]
  cases hother : other.counts[node]? with
  | none =>
    have hzero : other.valueFor node = 0 := by rw [valueFor, hother]; rfl
    rw [hzero, ← UInt64.toNat_inj, toNat_max]
    exact (max_eq_left (Nat.zero_le _)).symm
  | some value =>
    have hvalue : other.valueFor node = value := by rw [valueFor, hother]; rfl
    rw [hvalue]
    rfl

theorem slotAfter_eq (c : GCounter) (update : Update) (node : NodeId) :
    c.slotAfter update node = ((c.after update).valueFor node).toNat := by
  cases update with
  | increment at' delta =>
    simp only [slotAfter, after, valueFor_increment]
    split
    · exact (satAdd_toNat _ _).symm
    · rfl
  | applyOp op =>
    simp only [slotAfter, after]
    split
    · next key delta hkind =>
        rw [valueFor_applyOp c node hkind]
        split
        · exact (satAdd_toNat _ _).symm
        · rfl
    · next hkind =>
        rw [applyOp]
        split
        · next key delta hinc => exact absurd hinc (hkind key delta)
        · rfl
  | merge other => rw [slotAfter, after, valueFor_merge, toNat_max]

/-- No update lowers a slot. -/
theorem valueFor_le_slotAfter (c : GCounter) (update : Update) (node : NodeId) :
    (c.valueFor node).toNat ≤ c.slotAfter update node := by
  have hplus : ∀ delta, (c.valueFor node).toNat ≤ slotPlus (c.valueFor node) delta :=
      fun delta => by
    have hlt := (c.valueFor node).toNat_lt
    simp only [slotPlus, u64Max]
    omega
  cases update with
  | increment at' delta =>
    simp only [slotAfter]
    split
    · exact hplus delta
    · exact Nat.le_refl _
  | applyOp op =>
    simp only [slotAfter]
    split
    · split
      · exact hplus _
      · exact Nat.le_refl _
    · exact Nat.le_refl _
  | merge other => exact Nat.le_max_left _ _

/-- The counter is read exactly before and after the update, and not lower after it. -/
def ReadsGrow (c : GCounter) (update : Update) : Prop :=
  c.ReadsExactly ∧ (c.after update).ReadsExactly ∧
    ∀ checks before after v v', c.SlotOrder before → (c.after update).SlotOrder after →
      sumSlots checks before 0 = some v → sumSlots checks after 0 = some v' → v ≤ v'

theorem total_le_after (c : GCounter) (update : Update) :
    totalOf (OrdMap.valuesAsc c.counts) ≤ totalOf (OrdMap.valuesAsc (c.after update).counts) := by
  rw [total_eq_sum, total_eq_sum]
  calc ∑ node ∈ c.slotNodes, (c.valueFor node).toNat
      ≤ ∑ node ∈ c.slotNodes, ((c.after update).valueFor node).toNat :=
        Finset.sum_le_sum fun node _ => by
          rw [← slotAfter_eq]
          exact valueFor_le_slotAfter c update node
    _ ≤ ∑ node ∈ c.slotNodes ∪ (c.after update).slotNodes, ((c.after update).valueFor node).toNat :=
        Finset.sum_le_sum_of_subset Finset.subset_union_left
    _ = ∑ node ∈ (c.after update).slotNodes, ((c.after update).valueFor node).toNat :=
        (Finset.sum_subset Finset.subset_union_right fun node _ hnot => by
          rw [valueFor_of_not_mem hnot]; rfl).symm

theorem readsGrow_iff (c : GCounter) (update : Update) :
    c.ReadsGrow update ↔ SlotsFit (c.slotAfter update) := by
  have hslots : c.slotAfter update = fun node => ((c.after update).valueFor node).toNat :=
    funext (slotAfter_eq c update)
  rw [hslots, ← readsExactly_iff]
  constructor
  · exact fun h => h.2.1
  · intro h
    have hfit := (readsExactly_iff_total _).mp h
    have hbefore : c.ReadsExactly :=
      (readsExactly_iff_total _).mpr (Nat.le_trans (total_le_after c update) hfit)
    refine ⟨hbefore, h, fun checks before after v v' hord hord' hv hv' => ?_⟩
    have hread := hbefore checks before hord
    have hread' := h checks after hord'
    rw [hv, Option.map_some, Option.some.injEq] at hread
    rw [hv', Option.map_some, Option.some.injEq] at hread'
    rw [UInt64.le_iff_toNat_le, hread, hread']
    exact total_le_after c update

end GCounter

/-! ## The signed counter -/

namespace PNCounter

/-- A read of a build: the two sums, subtracted as `i128` and clamped. -/
def readIn (checks : Bool) (positive negative : List UInt64) : Option Int := do
  let positive ← sumSlots checks positive 0
  let negative ← sumSlots checks negative 0
  return clampI64 ((positive.toNat : Int) - (negative.toNat : Int))

/-- The release build's read is `PNCounter.value`. -/
theorem readIn_release (c : PNCounter) :
    readIn false (OrdMap.valuesAsc c.positive.counts) (OrdMap.valuesAsc c.negative.counts) =
      some c.value := by
  rw [readIn, sumSlots_release, sumSlots_release]
  rfl

/-- A read is the clamped difference of the sums of the slots. -/
def ReadsExactly (c : PNCounter) : Prop :=
  ∀ checks positive negative, c.positive.SlotOrder positive → c.negative.SlotOrder negative →
    readIn checks positive negative =
      some (clampI64 ((totalOf (OrdMap.valuesAsc c.positive.counts) : Int) -
        (totalOf (OrdMap.valuesAsc c.negative.counts) : Int)))

theorem readsExactly_iff (c : PNCounter) :
    c.ReadsExactly ↔
      GCounter.SlotsFit (fun node => (c.positiveFor node).toNat) ∧
        GCounter.SlotsFit (fun node => (c.negativeFor node).toNat) := by
  simp only [positiveFor, negativeFor, GCounter.slotsFit_iff]
  constructor
  · intro h
    have hread := h true _ _ (List.Perm.refl _) (List.Perm.refl _)
    constructor
    · by_contra hlt
      rw [readIn, sumSlots_checked_of_lt (by simpa using hlt)] at hread
      cases hread
    · by_contra hlt
      have hnone : sumSlots true (OrdMap.valuesAsc c.negative.counts) 0 = none :=
        sumSlots_checked_of_lt (by simpa using hlt)
      rw [readIn, hnone] at hread
      cases hsum : sumSlots true (OrdMap.valuesAsc c.positive.counts) 0 with
      | none => rw [hsum] at hread; cases hread
      | some v => rw [hsum] at hread; cases hread
  · rintro ⟨hpos, hneg⟩ checks positive negative hp hn
    have hread := (GCounter.readsExactly_iff_total _).mpr hpos checks positive hp
    have hread' := (GCounter.readsExactly_iff_total _).mpr hneg checks negative hn
    obtain ⟨v, hv, hvt⟩ := Option.map_eq_some_iff.mp hread
    obtain ⟨w, hw, hwt⟩ := Option.map_eq_some_iff.mp hread'
    rw [readIn, hv, hw, ← hvt, ← hwt]
    rfl

end PNCounter

/-- Counter reads are exact, and those of a grow-only counter do not decrease,
exactly while the slots add up to at most `u64::MAX`. -/
theorem counterReads_iff (c : GCounter) (update : GCounter.Update) (p : PNCounter) :
    (c.ReadsExactly ↔ GCounter.SlotsFit fun node => (c.valueFor node).toNat) ∧
    (c.ReadsGrow update ↔ GCounter.SlotsFit (c.slotAfter update)) ∧
    (p.ReadsExactly ↔ GCounter.SlotsFit (fun node => (p.positiveFor node).toNat) ∧
      GCounter.SlotsFit (fun node => (p.negativeFor node).toNat)) :=
  ⟨c.readsExactly_iff, c.readsGrow_iff update, p.readsExactly_iff⟩

/-- Two nodes' slots that together exceed `u64::MAX`: the read panics with
overflow checks and falls from `u64::MAX` to 0 without. -/
theorem fullSlots_read_wraps :
    let one := GCounter.new.increment "node-a" 0xFFFFFFFFFFFFFFFF
    let two := one.increment "node-b" 1
    one.value = 0xFFFFFFFFFFFFFFFF ∧ two.value = 0 ∧
      sumSlots true (OrdMap.valuesAsc two.counts) 0 = none ∧
      ((PNCounter.new.increment "node-a" 0xFFFFFFFFFFFFFFFF).increment "node-b" 1).value = 0 := by
  decide +kernel

end Numax
