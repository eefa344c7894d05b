import Numax.Host.Run
import Numax.Core.HydrateSpec
import Numax.Core.JsonForm

/-!
# Restarting gives the state back

A node runs from a store without records of its own; every event may fail at
its store batch. Whenever the node stops, hydrating its store rebuilds the
registries, the seen ids and the log it had in memory, with the next sequences,
and every materialized record is the rendering of its state record.
-/

open Base Std

namespace Numax

/-- Every materialized record of the store is the rendering of the state record
of the same entry. -/
def RendersStates (serde : Serde) (store : Store) : Prop :=
  ∀ k : CrdtKind, ∀ entry ∈ store.withPrefix (asBytes (k.table .materialized).dataPrefix),
    ∃ key value state, entry.1 = crdtStoreKey k .materialized key ∧
      store[crdtStoreKey k .state key]? = some value ∧
      parseDurableState serde k value = .ok state ∧ entry.2 = render serde k state

theorem Mirrors.rendersStates {serde : Serde} {acc : List Op} {left : List (Op × Nat)}
    {s : SyncState} {store : Store} (h : Mirrors serde acc left s store) :
    RendersStates serde store := by
  intro k entry hentry
  obtain ⟨rows, hscan, -, hmem⟩ := h.tidy.withPrefix_eq (k.table .materialized)
  rw [hscan] at hentry
  obtain ⟨⟨key, v⟩, hrow, rfl⟩ := List.mem_map.mp hentry
  rw [hmem, h.entry] at hrow
  obtain ⟨st, hst, rfl⟩ := Option.map_eq_some_iff.mp hrow
  have hstate : store.record (k.table .state) key = some (stateValue serde k .state st) := by
    rw [h.entry, hst]
    rfl
  exact ⟨key, _, st, rfl, hstate, parseDurableState_stateValue serde k st, rfl⟩

namespace Node

/-- After any run, hydrating the store gives the state in memory. -/
theorem hydrate_run (serde : Serde) {n : Node} (hinit : n.Initial)
    (hpos : 1 ≤ n.sync.opLogLimit) (hle : n.sync.opLogLimit ≤ n.sync.seenOps.limit)
    (events : List Event) (hcount : (n.acceptedIn serde events).length < 2 ^ 64) :
    (∃ store', hydrate serde none (n.run serde events).store n.sync.nodeId n.sync.opLogLimit
        n.sync.seenOps.limit = .ok ((n.run serde events).sync.hydrated, store')) ∧
      RendersStates serde (n.run serde events).store := by
  have hmax : (n.acceptedIn serde events).length ≤ u64Max := by
    unfold u64Max
    omega
  have hstart : Durable serde [] [] n := hinit.durable hpos hle
  obtain ⟨⟨left, hrun⟩, hlog, hseen⟩ := hstart.run events (by simpa using hmax)
  rw [List.nil_append] at hrun
  obtain ⟨store', hhydrate, -⟩ :=
    hrun.mirrors.hydrate hrun.tracks hrun.leftover hmax n.sync.nodeId
  rw [hlog, hseen] at hhydrate
  exact ⟨⟨store', hhydrate⟩, hrun.mirrors.rendersStates⟩

/-- A batch larger than the log, a failed one and a local call. -/
def restartEvents : List Event :=
  [.applyRemote none [.gcounterIncrement "a" "peer" "k" 3, .gcounterIncrement "b" "peer" "k" 4],
    .remember (some .injectedDiskFull) [.gcounterIncrement "c" "node" "k" 5],
    .call (some { bytes := asBytes "k" }) { now := some 1, opId := "d" } (.gcounterInc 0 1 6)]

theorem hydrate_run_counter :
    ((start "node" 8 1 2).run jsonSerde restartEvents).sync.opLog.map Op.id = ["b"] ∧
    (∃ store', hydrate jsonSerde none ((start "node" 8 1 2).run jsonSerde restartEvents).store
        "node" 1 2 =
          .ok (((start "node" 8 1 2).run jsonSerde restartEvents).sync.hydrated, store')) ∧
      RendersStates jsonSerde ((start "node" 8 1 2).run jsonSerde restartEvents).store :=
  ⟨by decide +kernel,
    hydrate_run jsonSerde (start_initial "node" 8 1 2) (by decide) (by decide) restartEvents
      (by decide +kernel)⟩

end Node

end Numax
