import Numax.Host.Run
import Numax.Core.JsonForm

/-!
# Local last-writer-wins writes

A guest's write to a register or to a field of a map gets the clock's timestamp,
pushed past the entry it is about to replace. The push saturates, so an entry at
`u64::MAX` (a peer may send any timestamp) is not overtaken: the call reports
success and queues its operation, while the entry stays unless the node's id is
greater than the entry's writer. `lwwWrite_takesEffect_iff` says that this is the
only way for a write to be lost, and that runs without it never queue two writes
with one timestamp and writer.
-/

open Base Std

namespace Numax

/-! ## Cells -/

/-- Entries ordered by timestamp and writer alone. -/
def LwwMapEntry.stampCmp : LwwMapEntry → LwwMapEntry → Ordering :=
  compareLex (compareOn timestampMs) (compareOn writer)

instance : TransCmp LwwMapEntry.stampCmp :=
  inferInstanceAs (TransCmp
    (compareLex (compareOn LwwMapEntry.timestampMs) (compareOn LwwMapEntry.writer)))

namespace LwwSlot

/-- What a reader gets. -/
def read (r : Registries) (slot : LwwSlot) : Option Bytes := (slot.entry r).bind LwwMapEntry.value

/-- The order that decides which write the cell keeps. -/
def cmp : LwwSlot → LwwMapEntry → LwwMapEntry → Ordering
  | register _ => LwwMapEntry.stampCmp
  | field _ _ => LwwMapEntry.entryCmp

theorem cmp_of_stamp_lt (slot : LwwSlot) {a b : LwwMapEntry} (h : a.stampCmp b = .lt) :
    slot.cmp a b = .lt := by
  cases slot with
  | register key => exact h
  | field key field =>
    simp only [cmp, LwwMapEntry.entryCmp, LwwMapEntry.stampCmp, compareLex, compareOn,
      Ordering.then_eq_lt] at h ⊢
    rcases h with h | ⟨heq, h⟩
    · exact .inl h
    · exact .inr ⟨heq, .inl h⟩

/-- The kept entry is never older than the one before it. -/
theorem stamp_le_pick (slot : LwwSlot) (a b : LwwMapEntry) :
    (a.stampCmp (pick slot.cmp a b)).isLE := by
  by_cases h : slot.cmp a b = .lt
  · rw [pick_of_lt _ h]
    cases slot with
    | register key =>
      rw [show a.stampCmp b = .lt from h]
      rfl
    | field key field =>
      simp only [cmp, LwwMapEntry.entryCmp, compareLex, compareOn, Ordering.then_eq_lt] at h
      rw [LwwMapEntry.stampCmp, compareLex, compareOn, compareOn]
      rcases h with h | ⟨heq, h | ⟨heq', -⟩⟩
      · rw [h]
        rfl
      · rw [heq, h]
        rfl
      · rw [heq, heq']
        rfl
  · rw [pick_of_not_lt _ h]
    exact Ordering.isLE_of_eq_eq ReflCmp.compare_self

end LwwSlot

/-- What an operation does to a cell. -/
def Op.writeTo (op : Op) (slot : LwwSlot) (old : Option LwwMapEntry) : Option LwwMapEntry :=
  match op.lwwWrite with
  | none => old
  | some (target, new) => if target = slot then pickOpt slot.cmp old new else old

theorem entry_lwwRegisterSet (r : Registries) (id : OpId) (origin : NodeId) (key : String)
    (value : Bytes) (timestampMs : UInt64) (slot : LwwSlot) :
    slot.entry (applyOp r ⟨id, origin, .lwwRegisterSet key value timestampMs⟩) =
      Op.writeTo ⟨id, origin, .lwwRegisterSet key value timestampMs⟩ slot (slot.entry r) := by
  cases slot with
  | field k field => rfl
  | register k =>
    change ((r.lwwRegisters.alter key _)[k]?).map _ =
      if LwwSlot.register key = .register k then _ else _
    rw [OrdMap.get_alter]
    by_cases hkey : key = k
    · subst hkey
      rw [if_pos rfl, if_pos rfl, LwwSlot.entry, effect_lwwRegisterSet]
      cases r.lwwRegisters[key]? with
      | none => rfl
      | some reg =>
        -- a register compares as the entry it is read as
        exact congrArg some (apply_ite (fun reg : LwwRegister =>
          LwwMapEntry.present reg.value reg.timestampMs reg.writer)
          (reg.stampCmp ⟨value, timestampMs, origin⟩ = .lt) _ _)
    · rw [if_neg hkey, if_neg (by simpa using hkey)]
      rfl

/-- Both map operations write one entry into one field. -/
theorem entry_applyEntry (r : Registries) (key field : String) (new : LwwMapEntry)
    (slot : LwwSlot) :
    slot.entry (r.update .lwwMap key fun map =>
        ((map.getD LwwMap.new).applyEntry field new).1) =
      if .field key field = slot then pickOpt slot.cmp (slot.entry r) new else slot.entry r := by
  cases slot with
  | register k => rfl
  | field k f =>
    change ((r.lwwMaps.alter key _)[k]?).bind _ = _
    rw [OrdMap.get_alter]
    by_cases hkey : key = k
    · subst hkey
      rw [if_pos rfl, Option.bind_some, LwwMap.entry, LwwMap.applyEntry_entries,
        OrdMap.get_alter]
      have hold : ((r.lwwMaps[key]?).getD LwwMap.new).entries[f]? =
          LwwSlot.entry r (.field key f) := (LwwSlot.entry_field r key f).symm
      by_cases hfield : field = f
      · subst hfield
        rw [if_pos rfl, if_pos rfl, hold]
        rfl
      · rw [if_neg hfield, if_neg (by simpa using hfield), hold]
    · rw [if_neg hkey, if_neg (by simp [hkey])]
      rfl

theorem entry_applyOp (r : Registries) (op : Op) (slot : LwwSlot) :
    slot.entry (applyOp r op) = op.writeTo slot (slot.entry r) := by
  obtain ⟨id, origin, kind⟩ := op
  cases kind with
  | lwwRegisterSet key value timestampMs => exact entry_lwwRegisterSet ..
  | lwwMapSet key field value timestampMs => exact entry_applyEntry ..
  | lwwMapRemove key field timestampMs => exact entry_applyEntry ..
  | _ => cases slot <;> rfl

variable {slot : LwwSlot} {old : LwwMapEntry}

/-- No operation moves a cell back. -/
theorem entry_applyOp_le (r : Registries) (op : Op) (h : slot.entry r = some old) :
    ∃ new, slot.entry (applyOp r op) = some new ∧ (old.stampCmp new).isLE := by
  have hrefl : (old.stampCmp old).isLE := Ordering.isLE_of_eq_eq ReflCmp.compare_self
  rw [entry_applyOp, h, Op.writeTo]
  cases op.lwwWrite with
  | none => exact ⟨old, rfl, hrefl⟩
  | some write =>
    obtain ⟨target, new⟩ := write
    simp only
    split
    · exact ⟨_, rfl, slot.stamp_le_pick old new⟩
    · exact ⟨old, rfl, hrefl⟩

theorem entry_foldl_applyOp_le (ops : List Op) (r : Registries) (h : slot.entry r = some old) :
    ∃ new, slot.entry (ops.foldl applyOp r) = some new ∧ (old.stampCmp new).isLE := by
  induction ops generalizing r old with
  | nil => exact ⟨old, h, Ordering.isLE_of_eq_eq ReflCmp.compare_self⟩
  | cons op rest ih =>
    obtain ⟨mid, hmid, hle⟩ := entry_applyOp_le r op h
    obtain ⟨last, hlast, hle'⟩ := ih _ hmid
    exact ⟨last, hlast, TransCmp.isLE_trans hle hle'⟩

namespace Node

variable {serde : Serde} {n : Node} {memory : Option GuestMemory} {env : CallEnv} {c : CrdtCall}

/-- A call fails and queues nothing, or it queues what it issues. -/
theorem call_issues (serde : Serde) (n : Node) (memory : Option GuestMemory) (env : CallEnv)
    (c : CrdtCall) :
    ((n.call serde memory env c).2 < 0 ∧ n.queuedSince (n.call serde memory env c).1 = []) ∨
      ∃ op, n.queuedSince (n.call serde memory env c).1 = op.toList ∧
        Issues env ⟨memory, n.store, some n.sync⟩ c op (n.call serde memory env c).2 := by
  have houtcome := crdtCall_outcome serde env ⟨memory, n.store, some n.sync⟩ c
  unfold call
  generalize crdtCall serde env ⟨memory, n.store, some n.sync⟩ c = result at houtcome ⊢
  cases houtcome with
  | rejected negative => exact .inl ⟨negative, by simp [queuedSince]⟩
  | unchanged done => exact .inr ⟨none, by simp [queuedSince], done⟩
  | committed enabled issued persisted nonneg done =>
    cases enabled
    exact .inr ⟨_, by simp [queuedSince], done⟩
  | queuedOnly enabled issued same done =>
    cases enabled
    exact .inr ⟨_, by simp [queuedSince], done⟩
  | unreported enabled issued persisted unwritable =>
    cases enabled
    exact .inl ⟨(by decide : errInternal < 0), by simp [queuedSince]⟩

/-! ## One write -/

/-- A local write can overtake what the cell holds: the timestamp can still grow,
or the node's id breaks the tie. -/
def CanOvertake (n : Node) (slot : LwwSlot) : Prop :=
  ∀ old, slot.entry n.sync.registries = some old →
    old.timestampMs.toNat < u64Max ∨ old.writer < n.sync.nodeId

theorem stampCmp_stamped_iff (hold : slot.entry n.sync.registries = some old)
    (content : Option Bytes) (observed : UInt64) :
    old.stampCmp (n.sync.stamped slot content observed) = .lt ↔
      old.timestampMs.toNat < u64Max ∨ old.writer < n.sync.nodeId := by
  have hnext := satAdd_le_nextTimestamp observed old.timestampMs
  simp only [LwwMapEntry.stampCmp, compareLex, compareOn, Ordering.then_eq_lt, compare_u64_lt,
    Std.compare_eq_iff_eq, compare_lt_iff_lt, SyncState.stamped, hold, Option.map_some]
  generalize nextTimestamp observed (some old.timestampMs) = timestampMs at hnext ⊢
  by_cases hmax : old.timestampMs.toNat < u64Max
  · have hlt := lt_satAdd_one hmax
    rw [UInt64.lt_iff_toNat_lt] at hlt ⊢
    rw [UInt64.le_iff_toNat_le] at hnext
    exact iff_of_true (.inl (Nat.lt_of_lt_of_le hlt hnext)) (.inl hmax)
  · -- the timestamp is the greatest there is, so the new one is the same
    have hsame : old.timestampMs = timestampMs := by
      apply UInt64.toNat_inj.mp
      rw [UInt64.le_iff_toNat_le, satAdd_toNat] at hnext
      have hbound := timestampMs.toNat_lt
      have hbound' := old.timestampMs.toNat_lt
      unfold u64Max at hmax hnext
      omega
    subst hsame
    have hirrefl : ¬ old.timestampMs < old.timestampMs := by
      rw [UInt64.lt_iff_toNat_lt]
      omega
    rw [or_iff_right hirrefl, or_iff_right hmax, and_iff_right rfl]

variable {op : Op}

/-- The registries after a write call that returned 0. -/
theorem registries_of_written (hzero : (n.call serde memory env c).2 = 0)
    (hqueued : n.queuedSince (n.call serde memory env c).1 = [op]) :
    (n.call serde memory env c).1.sync.registries = applyOp n.sync.registries op := by
  obtain ⟨-, -, ⟨hnone, -⟩ | ⟨op', -, hsome, hregistries⟩⟩ :=
    call_success serde n memory env c (by rw [hzero])
  · rw [hnone] at hqueued
    cases hqueued
  · rw [hsome] at hqueued
    cases hqueued
    exact hregistries

/-- A write that overtakes the old entry is what the cell then holds. -/
theorem entry_of_overtaking {r : Registries} {new : LwwMapEntry}
    (hwrite : op.lwwWrite = some (slot, new))
    (hover : ∀ old, slot.entry r = some old → old.stampCmp new = .lt) :
    slot.entry (applyOp r op) = some new := by
  rw [entry_applyOp, Op.writeTo, hwrite]
  simp only [if_pos]
  cases hold : slot.entry r with
  | none => rfl
  | some old => exact congrArg some (pick_of_lt _ (slot.cmp_of_stamp_lt (hover old hold)))

/-! ## Runs -/

section Runs

variable (serde)

/-- The operations an event adds to the queue. -/
def queuedBy (n : Node) : Event → List Op
  | .call memory env c => n.queuedSince (n.call serde memory env c).1
  | _ => []

/-- The operations queued in a run, oldest first. -/
def queuedIn (n : Node) : List Event → List Op
  | [] => []
  | event :: rest => n.queuedBy serde event ++ (n.handle serde event).queuedIn rest

/-- If the event is a write call that returns 0, it can overtake its cell. -/
def Overtakes (n : Node) : Event → Prop
  | .call (some mem) env c =>
    (n.call serde (some mem) env c).2 = 0 →
      ∀ slot content, c.lwwTarget mem = .ok (slot, content) → n.CanOvertake slot
  | _ => True

end Runs

/-- Registries change by operations only. -/
theorem handle_registries (event : Event) :
    ∃ ops : List Op,
      (n.handle serde event).sync.registries = ops.foldl applyOp n.sync.registries := by
  cases event with
  | call memory env c =>
    have houtcome := crdtCall_outcome serde env ⟨memory, n.store, some n.sync⟩ c
    simp only [handle, call]
    generalize crdtCall serde env ⟨memory, n.store, some n.sync⟩ c = result at houtcome ⊢
    cases houtcome with
    | rejected negative => exact ⟨[], rfl⟩
    | unchanged => exact ⟨[], rfl⟩
    | @committed _ _ op _ _ enabled issued persisted nonneg =>
      cases enabled
      exact ⟨[op], rfl⟩
    | queuedOnly enabled issued same =>
      cases enabled
      exact ⟨[], rfl⟩
    | @unreported _ op _ enabled issued persisted unwritable =>
      cases enabled
      exact ⟨[op], rfl⟩
  | recv => exact ⟨[], rfl⟩
  | remember fault ops =>
    simp only [handle]
    obtain ⟨e, heq⟩ | ⟨store, -, heq⟩ := rememberOps_cases serde fault n ops <;> rw [heq]
    · exact ⟨[], rfl⟩
    · exact ⟨[], rfl⟩
  | applyRemote fault ops =>
    simp only [handle]
    obtain ⟨-, heq⟩ | ⟨e, heq⟩ | ⟨store, -, heq⟩ := applyRemoteOps_cases serde fault n ops <;>
      rw [heq]
    · exact ⟨[], rfl⟩
    · exact ⟨[], rfl⟩
    · exact ⟨freshOps n.sync.seenOps ops, rfl⟩

/-- What an overtaking event queues is newer than its cell, and the cell then
holds it. -/
theorem queuedBy_spec {event : Event} (hover : n.Overtakes serde event)
    (hop : op ∈ n.queuedBy serde event) {new : LwwMapEntry}
    (hwrite : op.lwwWrite = some (slot, new)) :
    n.queuedBy serde event = [op] ∧
      (∀ old, slot.entry n.sync.registries = some old → old.stampCmp new = .lt) ∧
      slot.entry (n.handle serde event).sync.registries = some new := by
  cases event with
  | call memory env c =>
    rw [queuedBy] at hop ⊢
    rcases call_issues serde n memory env c with ⟨-, hnone⟩ | ⟨issued, hqueued, hissues⟩
    · rw [hnone] at hop
      cases hop
    · rw [hqueued] at hop
      cases Option.mem_toList.mp hop
      generalize hcode : (n.call serde memory env c).2 = code at hissues
      cases hissues with
      | plain other apart =>
        rw [Option.bind_some, hwrite] at apart
        cases apart
      | @write mem sync _ content observed _ memory_eq enabled target clock written =>
        cases enabled
        cases memory_eq
        -- the one write it issues is newer than the cell
        cases hwrite.symm.trans written
        have hnewer : ∀ old, slot.entry n.sync.registries = some old →
            old.stampCmp (n.sync.stamped slot content observed) = .lt := fun old hold =>
          (stampCmp_stamped_iff hold content observed).mpr
            (hover hcode slot content target old hold)
        refine ⟨hqueued, hnewer, ?_⟩
        rw [handle, registries_of_written hcode hqueued]
        exact entry_of_overtaking hwrite hnewer
  | _ => cases hop

/-- Once a cell holds an entry, overtaking writes to it are newer. -/
theorem queuedIn_newer (events : List Event) (hover : ∀ before event, before ++ [event] <+: events →
      (n.run serde before).Overtakes serde event) {past current : LwwMapEntry}
    (hcurrent : slot.entry n.sync.registries = some current) (hle : (past.stampCmp current).isLE) :
    ∀ op ∈ n.queuedIn serde events, ∀ new, op.lwwWrite = some (slot, new) →
      past.stampCmp new = .lt := by
  induction events generalizing n current with
  | nil => exact nofun
  | cons event rest ih =>
    intro op hop new hwrite
    rcases List.mem_append.mp hop with hop | hop
    · have hnow : n.Overtakes serde event := hover [] event ⟨rest, rfl⟩
      obtain ⟨-, hnewer, -⟩ := queuedBy_spec hnow hop hwrite
      exact TransCmp.lt_of_isLE_of_lt hle (hnewer current hcurrent)
    · obtain ⟨ops, hops⟩ := @handle_registries serde n event
      obtain ⟨next, hnext, hle'⟩ := entry_foldl_applyOp_le ops n.sync.registries hcurrent
      refine ih (fun before e hpre => ?_) (by rw [hops]; exact hnext)
        (TransCmp.isLE_trans hle hle') op hop new hwrite
      exact hover (event :: before) e (List.cons_prefix_cons.mpr ⟨rfl, hpre⟩)

/-- In a run of overtaking writes, later writes to a cell are newer. -/
theorem queuedIn_increasing (events : List Event)
    (hover : ∀ before event, before ++ [event] <+: events →
      (n.run serde before).Overtakes serde event) :
    (n.queuedIn serde events).Pairwise fun a b => ∀ slot older newer,
      a.lwwWrite = some (slot, older) → b.lwwWrite = some (slot, newer) →
        older.stampCmp newer = .lt := by
  induction events generalizing n with
  | nil => exact .nil
  | cons event rest ih =>
    have hnow : n.Overtakes serde event := hover [] event ⟨rest, rfl⟩
    have hlater : ∀ before e, before ++ [e] <+: rest →
        ((n.handle serde event).run serde before).Overtakes serde e := fun before e hpre =>
      hover (event :: before) e (List.cons_prefix_cons.mpr ⟨rfl, hpre⟩)
    rw [queuedIn, List.pairwise_append]
    refine ⟨?_, ih hlater, ?_⟩
    · -- a call that queues a write queues nothing else
      by_cases hsome : ∃ a ∈ n.queuedBy serde event, a.lwwWrite.isSome
      · obtain ⟨a, ha, hsome⟩ := hsome
        obtain ⟨⟨slot, entry⟩, hwrite⟩ := Option.isSome_iff_exists.mp hsome
        rw [(queuedBy_spec hnow ha hwrite).1]
        exact List.pairwise_singleton _ _
      · refine List.pairwise_of_forall_mem_list fun a ha b _ slot older newer hwrite => ?_
        exact absurd ⟨a, ha, by rw [hwrite]; rfl⟩ hsome
    · intro a ha b hb slot older newer hwritea hwriteb
      obtain ⟨-, -, hheld⟩ := queuedBy_spec hnow ha hwritea
      exact queuedIn_newer rest hlater hheld
        (Ordering.isLE_of_eq_eq ReflCmp.compare_self) b hb newer hwriteb

/-! ## Local writes take effect -/

/-- For every node, in whatever state remote operations have left it, a write call
that returns 0 queues the write it was asked for; the write is read back and newer
than the replaced entry if and only if the cell can be overtaken. In every run of
writes that can overtake, no two queued writes to a cell share timestamp and
writer. -/
theorem lwwWrite_takesEffect_iff (serde : Serde) (n : Node) :
    (∀ memory env c, c.isLwwWrite = true → (n.call serde memory env c).2 = 0 →
      ∃ mem slot new, memory = some mem ∧ c.lwwTarget mem = .ok (slot, new.value) ∧
        new.writer = n.sync.nodeId ∧
        (n.queuedSince (n.call serde memory env c).1).map Op.lwwWrite = [some (slot, new)] ∧
        ((slot.read (n.call serde memory env c).1.sync.registries = new.value ∧
            ∀ old, slot.entry n.sync.registries = some old → old.stampCmp new = .lt) ↔
          n.CanOvertake slot)) ∧
    ∀ events, (∀ before event, before ++ [event] <+: events →
        (n.run serde before).Overtakes serde event) →
      (n.queuedIn serde events).Pairwise fun a b => ∀ slot older newer,
        a.lwwWrite = some (slot, older) → b.lwwWrite = some (slot, newer) →
          ¬ (older.timestampMs = newer.timestampMs ∧ older.writer = newer.writer) := by
  refine ⟨fun memory env c hc hzero => ?_, fun events hover => ?_⟩
  · rcases call_issues serde n memory env c with ⟨hneg, -⟩ | ⟨issued, hqueued, hissues⟩
    · rw [hzero] at hneg
      cases hneg
    rw [hzero] at hissues
    cases hissues with
    | plain other apart =>
      rw [hc] at other
      cases other
    | @write mem sync slot content observed op memory_eq enabled target clock written =>
      cases enabled
      refine ⟨mem, slot, n.sync.stamped slot content observed, memory_eq, target, rfl, ?_, ?_⟩
      · rw [hqueued, Option.toList_some, List.map_singleton, written]
      · constructor
        · rintro ⟨-, hnewer⟩ old hold
          exact (stampCmp_stamped_iff hold content observed).mp (hnewer old hold)
        · intro hclear
          have hnewer : ∀ old, slot.entry n.sync.registries = some old →
              old.stampCmp (n.sync.stamped slot content observed) = .lt := fun old hold =>
            (stampCmp_stamped_iff hold content observed).mpr (hclear old hold)
          refine ⟨?_, hnewer⟩
          rw [LwwSlot.read, registries_of_written hzero hqueued,
            entry_of_overtaking written hnewer]
          rfl
  · refine (queuedIn_increasing events hover).imp fun h slot older newer ha hb => ?_
    rintro ⟨htime, hwriter⟩
    have hlt := h slot older newer ha hb
    rw [LwwMapEntry.stampCmp, compareLex, compareOn, compareOn, htime, hwriter, Std.compare_self,
      Std.compare_self] at hlt
    cases hlt

/-- A guest that keeps the key `k` and the value `2` in its memory, and sets the
register to it. -/
def setMemory : GuestMemory := ⟨asBytes "k" ++ [2]⟩

def setCall : CrdtCall := .lwwSet 0 1 1 1

def setEnv : CallEnv where
  now := some 7
  opId := "op"

/-- A node that has received a peer's write of the register. -/
def afterPeerWrite (timestampMs : UInt64) : Node :=
  (start "a" 8 8 8).run jsonSerde [.applyRemote none [.lwwRegisterSet "x" "z" "k" [1] timestampMs]]

theorem lwwWrite_takesEffect_ordinary :
    ((afterPeerWrite 100).call jsonSerde (some setMemory) setEnv setCall).2 = 0 ∧
      (LwwSlot.register "k").read
        ((afterPeerWrite 100).call jsonSerde (some setMemory) setEnv setCall).1.sync.registries =
          some [2] := by
  have hzero : ((afterPeerWrite 100).call jsonSerde (some setMemory) setEnv setCall).2 = 0 := by
    decide +kernel
  obtain ⟨mem, slot, new, hmem, htarget, -, -, hiff⟩ :=
    (lwwWrite_takesEffect_iff jsonSerde (afterPeerWrite 100)).1
      (some setMemory) setEnv setCall rfl hzero
  cases hmem
  have hargs : setCall.lwwTarget setMemory = .ok (.register "k", some [2]) := by decide +kernel
  obtain ⟨hslot, hvalue⟩ := Prod.mk.inj (Except.ok.inj (hargs.symm.trans htarget))
  subst hslot
  rw [← hvalue] at hiff
  refine ⟨hzero, (hiff.mpr fun old hold => .inl ?_).1⟩
  have hentry : (LwwSlot.register "k").entry (afterPeerWrite 100).sync.registries =
      some (.present [1] 100 "z") := by decide +kernel
  cases hentry.symm.trans hold
  decide

/-- At the greatest timestamp the write of a smaller node id is dropped, although
the call returns 0, and two of them are queued with one timestamp and writer. -/
theorem saturatedRegister_drops_write :
    ((afterPeerWrite (UInt64.ofNat u64Max)).call jsonSerde (some setMemory) setEnv setCall).2 = 0 ∧
      setCall.lwwTarget setMemory = .ok (.register "k", some [2]) ∧
      (LwwSlot.register "k").read
        ((afterPeerWrite (UInt64.ofNat u64Max)).call jsonSerde (some setMemory) setEnv
          setCall).1.sync.registries = some [1] ∧
      ((afterPeerWrite (UInt64.ofNat u64Max)).queuedIn jsonSerde
        [.call (some setMemory) setEnv setCall, .call (some setMemory) setEnv setCall]).map
          Op.lwwWrite =
        [some (.register "k", .present [2] (UInt64.ofNat u64Max) "a"),
          some (.register "k", .present [2] (UInt64.ofNat u64Max) "a")] := by
  decide +kernel

end Node

end Numax
