import Numax.Base.Bytes
import Numax.Store.Store

/-!
# Store tables of the sync manager

The runtime keeps its records under fourteen key prefixes (`types.rs`,
`schema.rs`): a materialized and a state table for each CRDT kind, the seen
operation ids and the operation log. No prefix is a prefix of another
(`dataPrefix_not_prefix`), so a store key belongs to one table and has one
logical key (`tableKey_inj`).
-/

open Base Std

namespace Numax

def gcounterStorePrefix : String := "__nx/crdt/gcounter/"
def gcounterStateStorePrefix : String := "__nx/crdt/state/gcounter/"
def pncounterStorePrefix : String := "__nx/crdt/pncounter/"
def pncounterStateStorePrefix : String := "__nx/crdt/state/pncounter/"
def lwwRegisterStorePrefix : String := "__nx/crdt/lww-register/"
def lwwRegisterStateStorePrefix : String := "__nx/crdt/state/lww-register/"
def lwwMapStorePrefix : String := "__nx/crdt/lww-map/"
def lwwMapStateStorePrefix : String := "__nx/crdt/state/lww-map/"
def orsetStorePrefix : String := "__nx/crdt/orset/"
def orsetStateStorePrefix : String := "__nx/crdt/state/orset/"
def rgaStorePrefix : String := "__nx/crdt/rga/"
def rgaStateStorePrefix : String := "__nx/crdt/state/rga/"
def seenOpStorePrefix : String := "__nx/crdt/seen-op/"
def opLogStorePrefix : String := "__nx/crdt/op-log/"

inductive StoreTable where
  | gcounterMaterialized | gcounterState
  | pncounterMaterialized | pncounterState
  | lwwRegisterMaterialized | lwwRegisterState
  | lwwMapMaterialized | lwwMapState
  | orsetMaterialized | orsetState
  | rgaMaterialized | rgaState
  | seenOps | opLog
deriving DecidableEq, Repr

namespace StoreTable

/-- All tables in the order the source lists them. -/
def all : List StoreTable :=
  [gcounterMaterialized, gcounterState, pncounterMaterialized, pncounterState,
    lwwRegisterMaterialized, lwwRegisterState, lwwMapMaterialized, lwwMapState,
    orsetMaterialized, orsetState, rgaMaterialized, rgaState, seenOps, opLog]

theorem mem_all (t : StoreTable) : t ∈ all := by
  cases t <;> decide

def name : StoreTable → String
  | gcounterMaterialized => "gcounter-materialized"
  | gcounterState => "gcounter-state"
  | pncounterMaterialized => "pncounter-materialized"
  | pncounterState => "pncounter-state"
  | lwwRegisterMaterialized => "lww-register-materialized"
  | lwwRegisterState => "lww-register-state"
  | lwwMapMaterialized => "lww-map-materialized"
  | lwwMapState => "lww-map-state"
  | orsetMaterialized => "orset-materialized"
  | orsetState => "orset-state"
  | rgaMaterialized => "rga-materialized"
  | rgaState => "rga-state"
  | seenOps => "seen-ops"
  | opLog => "op-log"

def dataPrefix : StoreTable → String
  | gcounterMaterialized => gcounterStorePrefix
  | gcounterState => gcounterStateStorePrefix
  | pncounterMaterialized => pncounterStorePrefix
  | pncounterState => pncounterStateStorePrefix
  | lwwRegisterMaterialized => lwwRegisterStorePrefix
  | lwwRegisterState => lwwRegisterStateStorePrefix
  | lwwMapMaterialized => lwwMapStorePrefix
  | lwwMapState => lwwMapStateStorePrefix
  | orsetMaterialized => orsetStorePrefix
  | orsetState => orsetStateStorePrefix
  | rgaMaterialized => rgaStorePrefix
  | rgaState => rgaStateStorePrefix
  | seenOps => seenOpStorePrefix
  | opLog => opLogStorePrefix

/-- The discriminant of the `repr(u16)` enumeration. -/
def tableId : StoreTable → Nat
  | gcounterMaterialized => 1
  | gcounterState => 2
  | pncounterMaterialized => 3
  | pncounterState => 4
  | lwwRegisterMaterialized => 5
  | lwwRegisterState => 6
  | lwwMapMaterialized => 7
  | lwwMapState => 8
  | orsetMaterialized => 9
  | orsetState => 10
  | rgaMaterialized => 11
  | rgaState => 12
  | seenOps => 13
  | opLog => 14

theorem dataPrefix_not_prefix {t u : StoreTable} (h : t ≠ u) :
    ¬ asBytes t.dataPrefix <+: asBytes u.dataPrefix := by
  have hall : ∀ t ∈ all, ∀ u ∈ all, t ≠ u → ¬ asBytes t.dataPrefix <+: asBytes u.dataPrefix := by
    decide +kernel
  exact hall t (mem_all t) u (mem_all u) h

end StoreTable

/-! ## Store keys -/

def prefixedStoreKey (pfx key : String) : Bytes := asBytes pfx ++ asBytes key

/-- The store key of a logical key of a table. -/
def tableKey (t : StoreTable) (key : String) : Bytes := prefixedStoreKey t.dataPrefix key

/-- The logical key of a store key, with the error cases of the source. -/
inductive KeyError where
  | invalidKey
  | invalidUtf8
deriving DecidableEq, Repr

def logicalKeyForPrefix (storeKey : Bytes) (pfx : String) : Except KeyError String :=
  match (asBytes pfx).isPrefixOf storeKey with
  | false => .error .invalidKey
  | true =>
    match fromUtf8 (storeKey.drop (asBytes pfx).length) with
    | none => .error .invalidUtf8
    | some key => .ok key

/-- A table's prefix matches exactly the store keys of that table. -/
theorem startsWith_tableKey_iff (t u : StoreTable) (key : String) :
    startsWith (tableKey u key) (asBytes t.dataPrefix) = true ↔ t = u := by
  rw [startsWith_iff]
  constructor
  · intro h
    by_contra hne
    rcases List.prefix_or_prefix_of_prefix h
      (List.prefix_append (asBytes u.dataPrefix) _) with hp | hp
    · exact StoreTable.dataPrefix_not_prefix hne hp
    · exact StoreTable.dataPrefix_not_prefix (Ne.symm hne) hp
  · rintro rfl
    exact List.prefix_append _ _

theorem tableKey_inj {t u : StoreTable} {k l : String} (h : tableKey t k = tableKey u l) :
    t = u ∧ k = l := by
  have htu : t = u := by
    rw [← startsWith_tableKey_iff t u l, ← h, startsWith_tableKey_iff]
  subst htu
  exact ⟨rfl, asBytes_inj.mp (List.append_cancel_left h)⟩

theorem tableKey_eq_iff {t u : StoreTable} {k l : String} :
    tableKey t k = tableKey u l ↔ t = u ∧ k = l :=
  ⟨tableKey_inj, by rintro ⟨rfl, rfl⟩; rfl⟩

theorem logicalKey_tableKey (t : StoreTable) (key : String) :
    logicalKeyForPrefix (tableKey t key) t.dataPrefix = .ok key := by
  have hpre : (asBytes t.dataPrefix).isPrefixOf (tableKey t key) = true :=
    List.isPrefixOf_iff_prefix.mpr (List.prefix_append _ _)
  have hdrop : (tableKey t key).drop (asBytes t.dataPrefix).length = asBytes key :=
    List.drop_left
  rw [logicalKeyForPrefix, hpre]
  simp only [hdrop, fromUtf8_asBytes]

end Numax
