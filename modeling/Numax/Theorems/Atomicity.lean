import Numax.Host.CallOutcome
import Numax.Core.JsonForm

/-!
# All-or-nothing local calls

A mutating call that fails leaves registries, store and queue as they were, and
a call that succeeds queues one operation for a changed entry. Nine of the ten
calls keep this on every path. An insertion into an array keeps it unless the
guest passes an output pointer that leaves no room for the new element id: the
insertion is then published and persisted, reported as failed, and never queued
for the peers.
-/

open Base Std

namespace Numax

def HostState.registries (h : HostState) : Option Registries := h.sync.map SyncState.registries

def HostState.opQueue (h : HostState) : Option OpQueue := h.sync.map SyncState.opQueue

/-- A failed call changes nothing; a successful one that changed a registry
queued exactly one operation. -/
structure AllOrNothing (h : HostState) (result : HostState × Int) : Prop where
  failed : result.2 < 0 →
    result.1.registries = h.registries ∧ result.1.store = h.store ∧ result.1.opQueue = h.opQueue
  queued : 0 ≤ result.2 → result.1.registries ≠ h.registries →
    ∃ op, result.1.opQueue =
      h.opQueue.map fun q => { q with ops := q.ops ++ [op] }

/-- The generated id names no element of an array of the node. -/
def FreshElementId (env : CallEnv) (h : HostState) : Prop :=
  ∀ sync, h.sync = some sync → ∀ (key : String) (rga : Rga),
    sync.registries.rgas[key]? = some rga → env.opId ∉ rga.elements

/-- Inserting a new id changes the registries. -/
theorem applyOp_rgaInsert_ne (r : Registries) (id origin key : String) (parent : Option String)
    (value : Bytes) (hfresh : ∀ rga : Rga, r.rgas[key]? = some rga → id ∉ rga.elements) :
    applyOp r (Op.rgaInsertWithOpId id origin key parent value) ≠ r := by
  intro hsame
  let inserted := (((r.rgas[key]?).getD Rga.new).applyInsert id parent value).1
  have hentry : r.rgas[key]? = some inserted := by
    have h := applyOp_entry r (Op.rgaInsertWithOpId id origin key parent value)
    rw [hsame] at h
    exact h
  have hmem : id ∈ inserted.elements := by
    unfold inserted Rga.applyInsert Rga.insert
    split
    · next hin => simpa using hin
    · simp
  exact hfresh inserted hentry hmem

variable {env : CallEnv} {h : HostState}

/-- What an insertion does when the id cannot be written. -/
theorem crdtRgaInsert_of_idLost (serde : Serde) {args : RgaInsertArgs}
    (hlost : InsertIdLost env h args) :
    ∃ sync key parent value, h.sync = some sync ∧
      (crdtRgaInsert serde env h args).1.registries =
        some (applyOp sync.registries
          (Op.rgaInsertWithOpId env.opId sync.nodeId key parent value)) ∧
      (crdtRgaInsert serde env h args).2 = errInternal := by
  obtain ⟨⟨sync, hsync, hslot⟩, ⟨memory, hmemory, hargs, hsize⟩, hcap, hfault⟩ := hlost
  obtain ⟨permit, hpermit⟩ := Option.isSome_iff_exists.mp hslot
  obtain ⟨⟨key, parent, value⟩, hparsed⟩ :
      ∃ parsed, readRgaInsertArgs memory args = .ok parsed := by
    cases hread : readRgaInsertArgs memory args with
    | error code => rw [hread] at hargs; cases hargs
    | ok parsed => exact ⟨parsed, rfl⟩
  have hwrite : memory.write args.outIdPtr.toNat (asBytes env.opId) = none := by
    unfold GuestMemory.write
    rw [if_neg (by omega)]
  obtain ⟨store, hstore⟩ : ∃ store, persistRgaState serde env.fault h.store key
      (((sync.registries.rgas[key]?).getD Rga.new).insert env.opId parent value).1 =
        .ok store := ⟨_, by rw [hfault]; rfl⟩
  refine ⟨sync, key, parent, value, hsync, ?_, ?_⟩
  · rw [← insert_newEntry]
    simp only [crdtRgaInsert, hmemory, hparsed, hsync, hpermit, hstore, hwrite,
      Nat.not_lt.mpr hcap]
    rfl
  · simp only [crdtRgaInsert, hmemory, hparsed, hsync, hpermit, hstore, hwrite,
      Nat.not_lt.mpr hcap]
    rfl

/-- A lost element id leaves a published insertion behind a failed call. -/
theorem not_allOrNothing_of_idLost (serde : Serde) {args : RgaInsertArgs}
    (hfresh : FreshElementId env h) (hlost : InsertIdLost env h args) :
    ¬ AllOrNothing h (crdtRgaInsert serde env h args) := by
  intro hall
  obtain ⟨sync, key, parent, value, hsync, hregistries, hcode⟩ :=
    crdtRgaInsert_of_idLost serde hlost
  have hsame := (hall.failed (by rw [hcode]; decide)).1
  rw [hregistries, HostState.registries, hsync] at hsame
  exact applyOp_rgaInsert_ne sync.registries env.opId sync.nodeId key parent value
    (hfresh sync hsync key) (Option.some.inj hsame)

/-- Every other result of a call is all-or-nothing. -/
theorem CallOutcome.allOrNothing {serde : Serde} {lost : Op → Prop}
    {issues : Option Op → Int → Prop} {result : HostState × Int}
    (outcome : CallOutcome serde env h lost issues result) (hkept : ∀ op, ¬ lost op) :
    AllOrNothing h result := by
  cases outcome with
  | rejected negative => exact ⟨fun _ => ⟨rfl, rfl, rfl⟩, fun _ hne => absurd rfl hne⟩
  | unchanged => exact ⟨fun _ => ⟨rfl, rfl, rfl⟩, fun _ hne => absurd rfl hne⟩
  | committed enabled issued persisted nonneg =>
    refine ⟨fun hneg => absurd hneg (by simpa using nonneg), fun _ _ => ?_⟩
    exact ⟨_, by rw [HostState.opQueue, HostState.opQueue, enabled]; rfl⟩
  | queuedOnly enabled issued same =>
    refine ⟨fun hneg => absurd hneg (lt_irrefl (0 : Int)), fun _ _ => ?_⟩
    exact ⟨_, by rw [HostState.opQueue, HostState.opQueue, enabled]; rfl⟩
  | unreported enabled issued persisted unwritable => exact absurd unwritable (hkept _)

/-- A mutating call is all-or-nothing exactly when it does not lose the id of
an element it inserts. -/
theorem crdtCall_allOrNothing_iff (serde : Serde) (env : CallEnv) (h : HostState)
    (call : CrdtCall) (hfresh : FreshElementId env h) :
    AllOrNothing h (crdtCall serde env h call) ↔ ¬ IdLost env h call := by
  constructor
  · intro hall hlost
    cases call with
    | rgaInsert args => exact not_allOrNothing_of_idLost serde hfresh hlost hall
    | _ => exact hlost
  · exact fun hkept =>
      (crdtCall_outcome serde env h call).allOrNothing fun _ hop => hkept hop.idLost

/-! ## An insertion with and without room for the id -/

/-- A host whose guest memory holds the key `k` in its first byte. -/
def insertHost : HostState where
  memory := some { bytes := asBytes "k" ++ List.replicate 63 0 }
  store := ∅
  sync := some
    { nodeId := "node"
      opQueue := { capacity := 4 }
      seenOps := SeenOps.new 8
      opLogLimit := 8 }

def insertEnv : CallEnv where
  now := some 1
  opId := "2f1c7b0e-5d3a-4f6b-9e8d-1a2b3c4d5e6f"

/-- Insert an empty value at the head of `k`, the id to be written at `outIdPtr`. -/
def insertArgs (outIdPtr : UInt32) : RgaInsertArgs where
  keyPtr := 0
  keyLen := 1
  parentPtr := 0
  parentLen := 0
  valuePtr := 0
  valueLen := 0
  outIdPtr
  outIdCap := 64

theorem insertHost_fresh : FreshElementId insertEnv insertHost := by
  rintro sync ⟨⟩ key rga hrga
  change (∅ : OrdMap String Rga)[key]? = some rga at hrga
  simp at hrga

/-- With the output pointer inside the memory the insertion is all-or-nothing. -/
theorem crdtCall_allOrNothing_room :
    AllOrNothing insertHost
      (crdtCall jsonSerde insertEnv insertHost (.rgaInsert (insertArgs 4))) := by
  refine (crdtCall_allOrNothing_iff jsonSerde insertEnv insertHost _ insertHost_fresh).mpr ?_
  rintro ⟨-, ⟨memory, hmemory, -, hsize⟩, -, -⟩
  cases hmemory
  revert hsize
  decide

/-- With the output pointer at the end of the memory it is not. -/
theorem rgaInsert_not_allOrNothing :
    ¬ AllOrNothing insertHost
      (crdtCall jsonSerde insertEnv insertHost (.rgaInsert (insertArgs 64))) := by
  have hlost : InsertIdLost insertEnv insertHost (insertArgs 64) :=
    { enabled := ⟨_, rfl, rfl⟩
      args_ok := ⟨_, rfl, by decide +kernel, by decide⟩
      cap_ok := by decide
      store_ok := rfl }
  exact not_allOrNothing_of_idLost jsonSerde insertHost_fresh hlost

end Numax
