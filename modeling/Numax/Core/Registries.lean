import Numax.Sync.Counters
import Numax.Sync.Lww
import Numax.Sync.ORSet
import Numax.Sync.Rga

/-!
# CRDT registries and the effect of an operation

A node keeps six registries, one per CRDT kind, each from logical keys to CRDT
states. `Registries.get` and `Registries.set` index them by kind, so that
what holds of every registry is stated once.

`Op.effect` is the meaning of an operation: how it changes the entry of its
key in the registry of its kind. `applyOp` performs it on the registries, and
`applyOp_comm` shows that two operations commute unless they are

* register writes of one key with the same timestamp and writer, or
* insertions of one element id into one array.

The host calls and the remote batches of the runtime are later shown to have
exactly this effect.
-/

open Base Std

namespace Numax

inductive CrdtKind where
  | gcounter | pncounter | lwwRegister | lwwMap | orset | rga
deriving DecidableEq, Repr

/-- The state type of each kind. -/
@[reducible] def CrdtKind.State : CrdtKind → Type
  | .gcounter => GCounter
  | .pncounter => PNCounter
  | .lwwRegister => LwwRegister
  | .lwwMap => LwwMap
  | .orset => ORSet
  | .rga => Rga

/-- The in-memory registries of a node. -/
structure Registries where
  counters : OrdMap String GCounter := ∅
  pncounters : OrdMap String PNCounter := ∅
  lwwRegisters : OrdMap String LwwRegister := ∅
  lwwMaps : OrdMap String LwwMap := ∅
  orsets : OrdMap String ORSet := ∅
  rgas : OrdMap String Rga := ∅
deriving DecidableEq

namespace Registries

/-- The registry of a kind. -/
def get (r : Registries) : (k : CrdtKind) → OrdMap String k.State
  | .gcounter => r.counters
  | .pncounter => r.pncounters
  | .lwwRegister => r.lwwRegisters
  | .lwwMap => r.lwwMaps
  | .orset => r.orsets
  | .rga => r.rgas

/-- Replace the registry of a kind. -/
def set (r : Registries) : (k : CrdtKind) → OrdMap String k.State → Registries
  | .gcounter, m => { r with counters := m }
  | .pncounter, m => { r with pncounters := m }
  | .lwwRegister, m => { r with lwwRegisters := m }
  | .lwwMap, m => { r with lwwMaps := m }
  | .orset, m => { r with orsets := m }
  | .rga, m => { r with rgas := m }

@[simp] theorem get_set_self (r : Registries) (k : CrdtKind) (m : OrdMap String k.State) :
    (r.set k m).get k = m := by
  cases k <;> rfl

theorem get_set_of_ne (r : Registries) {k l : CrdtKind} (m : OrdMap String k.State)
    (h : k ≠ l) : (r.set k m).get l = r.get l := by
  cases k <;> cases l <;> first | rfl | exact absurd rfl h

/-- Registries that agree in every kind are equal. -/
theorem ext_get {a b : Registries} (h : ∀ k, a.get k = b.get k) : a = b := by
  cases a; cases b
  simp only [mk.injEq]
  exact ⟨h .gcounter, h .pncounter, h .lwwRegister, h .lwwMap, h .orset, h .rga⟩

/-- Change the entry of one key. -/
def update (r : Registries) (k : CrdtKind) (key : String) (f : Option k.State → k.State) :
    Registries :=
  r.set k ((r.get k).alter key (fun entry => some (f entry)))

theorem get_update_self (r : Registries) (k : CrdtKind) (key : String)
    (f : Option k.State → k.State) :
    (r.update k key f).get k = (r.get k).alter key (fun entry => some (f entry)) :=
  get_set_self _ _ _

theorem get_update_of_ne (r : Registries) {k l : CrdtKind} (key : String)
    (f : Option k.State → k.State) (h : k ≠ l) : (r.update k key f).get l = r.get l :=
  get_set_of_ne _ _ h

/-- Updates in different registries commute. -/
theorem update_comm_of_ne (r : Registries) {k l : CrdtKind} (x y : String)
    (f : Option k.State → k.State) (g : Option l.State → l.State) (h : k ≠ l) :
    (r.update k x f).update l y g = (r.update l y g).update k x f := by
  cases k <;> cases l <;> first | rfl | exact absurd rfl h

/-- Updates in one registry commute if, at a common key, the changes do. -/
theorem update_comm (r : Registries) (k : CrdtKind) (x y : String)
    (f g : Option k.State → k.State) (h : x = y → ∀ e, g (some (f e)) = f (some (g e))) :
    (r.update k x f).update k y g = (r.update k y g).update k x f := by
  have halter := OrdMap.alter_comm (r.get k) x y (fun e => some (f e)) (fun e => some (g e))
    fun hxy e => congrArg some (h hxy e)
  apply ext_get
  intro l
  by_cases hkl : k = l
  · subst hkl
    simp only [get_update_self, halter]
  · simp only [get_update_of_ne _ _ _ hkl]

end Registries

/-! ## Effects -/

namespace OpKind

/-- The kind of CRDT an operation belongs to. -/
@[reducible] def crdtKind : OpKind → CrdtKind
  | gcounterIncrement .. => .gcounter
  | pncounterIncrement .. => .pncounter
  | pncounterDecrement .. => .pncounter
  | lwwRegisterSet .. => .lwwRegister
  | lwwMapSet .. => .lwwMap
  | lwwMapRemove .. => .lwwMap
  | orsetAdd .. => .orset
  | orsetRemove .. => .orset
  | rgaInsert .. => .rga
  | rgaDelete .. => .rga

/-- The logical key an operation addresses. -/
def key : OpKind → String
  | gcounterIncrement key _ => key
  | pncounterIncrement key _ => key
  | pncounterDecrement key _ => key
  | lwwRegisterSet key _ _ => key
  | lwwMapSet key _ _ _ => key
  | lwwMapRemove key _ _ => key
  | orsetAdd key _ _ => key
  | orsetRemove key _ _ => key
  | rgaInsert key _ _ _ => key
  | rgaDelete key _ => key

/-- What an operation makes of the entry of its key. -/
def effect (origin : NodeId) : (op : OpKind) → Option op.crdtKind.State → op.crdtKind.State
  | gcounterIncrement _ increment, entry => (entry.getD GCounter.new).increment origin increment
  | pncounterIncrement _ increment, entry => (entry.getD PNCounter.new).increment origin increment
  | pncounterDecrement _ decrement, entry => (entry.getD PNCounter.new).decrement origin decrement
  | lwwRegisterSet _ value timestampMs, entry =>
    match entry with
    | none => { value, timestampMs, writer := origin }
    | some register => (register.assign value timestampMs origin).1
  | lwwMapSet _ field value timestampMs, entry =>
    ((entry.getD LwwMap.new).set field value timestampMs origin).1
  | lwwMapRemove _ field timestampMs, entry =>
    ((entry.getD LwwMap.new).remove field timestampMs origin).1
  | orsetAdd _ element tag, entry => ((entry.getD ORSet.new).applyAdd element tag).1
  | orsetRemove _ element observedTags, entry =>
    ((entry.getD ORSet.new).applyRemove element observedTags).1
  | rgaInsert _ id parent value, entry => ((entry.getD Rga.new).applyInsert id parent value).1
  | rgaDelete _ id, entry => ((entry.getD Rga.new).applyDelete id).1

end OpKind

/-- The effect of an operation on the registries. -/
def applyOp (r : Registries) (op : Op) : Registries :=
  r.update op.kind.crdtKind op.kind.key (op.kind.effect op.origin)

/-- Publish an entry in the registry of its kind. -/
def Registries.insert (r : Registries) (k : CrdtKind) (key : String) (s : k.State) : Registries :=
  r.set k ((r.get k).insert key s)

/-- The entry an operation gives its key. -/
def Op.newEntry (op : Op) (r : Registries) : op.kind.crdtKind.State :=
  op.kind.effect op.origin (r.get op.kind.crdtKind)[op.kind.key]?

theorem insert_newEntry (r : Registries) (op : Op) :
    r.insert op.kind.crdtKind op.kind.key (op.newEntry r) = applyOp r op := by
  unfold Registries.insert applyOp Registries.update
  rw [OrdMap.insert_eq_alter]
  exact congrArg (r.set _) (OrdMap.alter_congr _ _ rfl)

theorem get_insert_self (r : Registries) (k : CrdtKind) (key : String) (s : k.State) :
    (r.insert k key s).get k = (r.get k).insert key s :=
  Registries.get_set_self _ _ _

/-- The entry an operation leaves behind at its key. -/
theorem applyOp_entry (r : Registries) (op : Op) :
    ((applyOp r op).get op.kind.crdtKind)[op.kind.key]? = some (op.newEntry r) := by
  rw [← insert_newEntry, get_insert_self, OrdMap.get_insert, if_pos rfl]

/-- Operations whose order does not matter: no two different register writes of
one key share timestamp and writer, and no two insertions share an element id. -/
def Op.Compatible (a b : Op) : Prop :=
  match a.kind, b.kind with
  | .lwwRegisterSet k v t, .lwwRegisterSet l w u =>
    k = l → t = u → a.origin = b.origin → v = w
  | .rgaInsert k i _ _, .rgaInsert l j _ _ => k = l → i ≠ j
  | _, _ => True

/-- The register write, as the winner of the old entry and the candidate. -/
theorem effect_lwwRegisterSet (origin : NodeId) (key : String) (value : Bytes)
    (timestampMs : UInt64) (entry : Option LwwRegister) :
    some ((OpKind.lwwRegisterSet key value timestampMs).effect origin entry) =
      pickOpt LwwRegister.stampCmp entry { value, timestampMs, writer := origin } := by
  cases entry with
  | none => rfl
  | some r => exact congrArg some (LwwRegister.merge_fst _ _)

theorem effect_lwwRegisterSet_comm {a b : NodeId} {k l : String} {v w : Bytes} {t u : UInt64}
    (h : t = u → a = b → v = w) (e : Option LwwRegister) :
    (OpKind.lwwRegisterSet l w u).effect b (some ((OpKind.lwwRegisterSet k v t).effect a e)) =
      (OpKind.lwwRegisterSet k v t).effect a
        (some ((OpKind.lwwRegisterSet l w u).effect b e)) := by
  have hcomm := pickOpt_right_comm LwwRegister.stampCmp e ⟨v, t, a⟩ ⟨w, u, b⟩ ?_
  · rw [← effect_lwwRegisterSet a k v t e, ← effect_lwwRegisterSet b l w u e,
      ← effect_lwwRegisterSet b l w u, ← effect_lwwRegisterSet a k v t] at hcomm
    exact Option.some.inj hcomm
  intro htie
  simp only [LwwRegister.stampCmp, compareLex, compareOn, Ordering.then_eq_eq,
    Std.compare_eq_iff_eq] at htie
  obtain ⟨rfl, rfl⟩ := htie
  rw [h rfl rfl]

/-- Compatible operations commute. -/
theorem applyOp_comm (r : Registries) (a b : Op) (h : a.Compatible b) :
    applyOp (applyOp r a) b = applyOp (applyOp r b) a := by
  obtain ⟨ida, origina, ka⟩ := a
  obtain ⟨idb, originb, kb⟩ := b
  simp only [Op.Compatible] at h
  by_cases hkind : ka.crdtKind = kb.crdtKind
  case neg =>
    -- operations of different kinds touch different registries
    exact Registries.update_comm_of_ne r ka.key kb.key (ka.effect origina) (kb.effect originb) hkind
  cases ka <;> cases kb <;>
    first
    | (cases hkind; done)
    | refine Registries.update_comm _ _ _ _ _ _ fun hkey entry => ?_
  case gcounterIncrement.gcounterIncrement => exact GCounter.increment_right_comm _ _ _ _ _
  case pncounterIncrement.pncounterIncrement => exact PNCounter.increment_right_comm _ _ _ _ _
  case pncounterIncrement.pncounterDecrement => exact PNCounter.increment_decrement_comm _ _ _ _ _
  case pncounterDecrement.pncounterIncrement =>
    exact (PNCounter.increment_decrement_comm _ _ _ _ _).symm
  case pncounterDecrement.pncounterDecrement => exact PNCounter.decrement_right_comm _ _ _ _ _
  case lwwRegisterSet.lwwRegisterSet => exact effect_lwwRegisterSet_comm (h hkey) entry
  case lwwMapSet.lwwMapSet => exact LwwMap.applyEntry_right_comm _ _ _ _ _
  case lwwMapSet.lwwMapRemove => exact LwwMap.applyEntry_right_comm _ _ _ _ _
  case lwwMapRemove.lwwMapSet => exact LwwMap.applyEntry_right_comm _ _ _ _ _
  case lwwMapRemove.lwwMapRemove => exact LwwMap.applyEntry_right_comm _ _ _ _ _
  case orsetAdd.orsetAdd => exact ORSet.applyAdd_right_comm _ _ _ _ _
  case orsetAdd.orsetRemove => exact ORSet.applyAdd_applyRemove_comm _ _ _ _ _
  case orsetRemove.orsetAdd => exact (ORSet.applyAdd_applyRemove_comm _ _ _ _ _).symm
  case orsetRemove.orsetRemove => exact ORSet.applyRemove_right_comm _ _ _ _ _
  case rgaInsert.rgaInsert => exact Rga.applyInsert_right_comm _ _ _ _ _ (h hkey)
  case rgaInsert.rgaDelete => exact Rga.applyInsert_applyDelete_comm _ _ _ _ _
  case rgaDelete.rgaInsert => exact (Rga.applyInsert_applyDelete_comm _ _ _ _ _).symm
  case rgaDelete.rgaDelete => exact Rga.applyDelete_right_comm _ _ _

end Numax
