import Numax.Core.Replication

/-!
# Applying remote operations

`apply_remote_ops` (`apply.rs`). A batch is applied to an overlay of changed
entries, persisted in one store batch together with the acceptance metadata,
and only then published to the registries.
-/

open Base Std

namespace Numax

/-! ## The overlay -/

/-- `entry(key).or_insert_with(|| registry.get(key) or new)`, then an update. -/
def overlayEntry {V : Type} (registry updates : OrdMap String V) (key : String) (new : V)
    (f : V → V) : OrdMap String V :=
  updates.alter key fun entry => some (f (entry.getD ((registry[key]?).getD new)))

section Appliers

variable (op : Op) (key : String)

def applyRemoteGcounterIncrement (increment : UInt64)
    (counters counterUpdates : OrdMap String GCounter) : OrdMap String GCounter :=
  overlayEntry counters counterUpdates key GCounter.new fun c => c.increment op.origin increment

def applyRemotePncounterOp (counters counterUpdates : OrdMap String PNCounter) :
    OrdMap String PNCounter :=
  overlayEntry counters counterUpdates key PNCounter.new fun c => (c.applyOp op).1

/-- A register write enters the overlay only if there is no register yet or it
wins against the current one. -/
def applyRemoteLwwRegisterSet (value : Bytes) (timestampMs : UInt64)
    (registers registerUpdates : OrdMap String LwwRegister) : OrdMap String LwwRegister :=
  match registerUpdates[key]? with
  | some register =>
    registerUpdates.insert key (register.assign value timestampMs op.origin).1
  | none =>
    match registers[key]? with
    | none => registerUpdates.insert key { value, timestampMs, writer := op.origin }
    | some existing =>
      let (register, won) := existing.assign value timestampMs op.origin
      if won then registerUpdates.insert key register else registerUpdates

def applyRemoteLwwMapSet (field : String) (value : Bytes) (timestampMs : UInt64)
    (maps mapUpdates : OrdMap String LwwMap) : OrdMap String LwwMap :=
  overlayEntry maps mapUpdates key LwwMap.new fun m => (m.set field value timestampMs op.origin).1

def applyRemoteLwwMapRemove (field : String) (timestampMs : UInt64)
    (maps mapUpdates : OrdMap String LwwMap) : OrdMap String LwwMap :=
  overlayEntry maps mapUpdates key LwwMap.new fun m => (m.remove field timestampMs op.origin).1

def applyRemoteOrsetAdd (element tag : String) (sets setUpdates : OrdMap String ORSet) :
    OrdMap String ORSet :=
  overlayEntry sets setUpdates key ORSet.new fun s => (s.applyAdd element tag).1

def applyRemoteOrsetRemove (element : String) (observedTags : List String)
    (sets setUpdates : OrdMap String ORSet) : OrdMap String ORSet :=
  overlayEntry sets setUpdates key ORSet.new fun s => (s.applyRemove element observedTags).1

def applyRemoteRgaInsert (id : String) (parent : Option String) (value : Bytes)
    (rgas rgaUpdates : OrdMap String Rga) : OrdMap String Rga :=
  overlayEntry rgas rgaUpdates key Rga.new fun r => (r.applyInsert id parent value).1

def applyRemoteRgaDelete (id : String) (rgas rgaUpdates : OrdMap String Rga) :
    OrdMap String Rga :=
  overlayEntry rgas rgaUpdates key Rga.new fun r => (r.applyDelete id).1

end Appliers

/-- Apply one operation to the overlay. -/
def applyRemoteOpToCrdtUpdates (op : Op) (registries updates : Registries) : Registries :=
  match op.kind with
  | .gcounterIncrement key increment =>
    { updates with
      counters :=
        applyRemoteGcounterIncrement op key increment registries.counters updates.counters }
  | .pncounterIncrement key _ | .pncounterDecrement key _ =>
    { updates with
      pncounters := applyRemotePncounterOp op key registries.pncounters updates.pncounters }
  | .lwwRegisterSet key value timestampMs =>
    { updates with
      lwwRegisters := applyRemoteLwwRegisterSet op key value timestampMs
        registries.lwwRegisters updates.lwwRegisters }
  | .lwwMapSet key field value timestampMs =>
    { updates with
      lwwMaps := applyRemoteLwwMapSet op key field value timestampMs
        registries.lwwMaps updates.lwwMaps }
  | .lwwMapRemove key field timestampMs =>
    { updates with
      lwwMaps := applyRemoteLwwMapRemove op key field timestampMs
        registries.lwwMaps updates.lwwMaps }
  | .orsetAdd key element tag =>
    { updates with
      orsets := applyRemoteOrsetAdd key element tag registries.orsets updates.orsets }
  | .orsetRemove key element observedTags =>
    { updates with
      orsets :=
        applyRemoteOrsetRemove key element observedTags registries.orsets updates.orsets }
  | .rgaInsert key id parent value =>
    { updates with
      rgas := applyRemoteRgaInsert key id parent value registries.rgas updates.rgas }
  | .rgaDelete key id =>
    { updates with rgas := applyRemoteRgaDelete key id registries.rgas updates.rgas }

/-- One round of the batch loop: skip a duplicate, or accept the operation and
apply it to the overlay. -/
def remoteStep (seen : SeenOps) (registries : Registries) (acc : List Op × Registries) (op : Op) :
    List Op × Registries :=
  if isDuplicate seen acc.1 op then acc
  else (acc.1 ++ [op], applyRemoteOpToCrdtUpdates op registries acc.2)

/-- The accepted operations of a batch and their overlay. -/
def remoteLoop (seen : SeenOps) (registries : Registries) (ops : List Op) :
    List Op × Registries :=
  ops.foldl (remoteStep seen registries) ([], {})

/-- Publish the overlay. -/
def publishUpdates (registries updates : Registries) : Registries :=
  { counters := OrdMap.insertAll registries.counters updates.counters.toList
    pncounters := OrdMap.insertAll registries.pncounters updates.pncounters.toList
    lwwRegisters := OrdMap.insertAll registries.lwwRegisters updates.lwwRegisters.toList
    lwwMaps := OrdMap.insertAll registries.lwwMaps updates.lwwMaps.toList
    orsets := OrdMap.insertAll registries.orsets updates.orsets.toList
    rgas := OrdMap.insertAll registries.rgas updates.rgas.toList }

/-- Apply a batch of remote operations. On a store failure nothing changes. -/
def applyRemoteOps (serde : Serde) (fault : Option StoreError) (n : Node) (ops : List Op) :
    Node × Except StoreError Unit :=
  if ops.isEmpty then (n, .ok ())
  else
    let (inserted, updates) := remoteLoop n.sync.seenOps n.sync.registries ops
    let plans := (planBatch n.sync inserted).1
    match persistRemoteOpsBatch serde fault n.store plans updates with
    | .error error => (n, .error error)
    | .ok store =>
      ({ sync :=
          { commitBatch n.sync inserted with
            registries := publishUpdates n.sync.registries updates }
         store }, .ok ())

/-! ## The overlay has the effect of the operations -/

theorem get_publishUpdates (registries updates : Registries) (k : CrdtKind) :
    (publishUpdates registries updates).get k =
      OrdMap.insertAll (registries.get k) (updates.get k).toList := by
  cases k <;> rfl

/-- An overlay update, once published, updates the published entry. -/
theorem insertAll_overlayEntry {V : Type} (registry updates : OrdMap String V) (key : String)
    (new : V) (f : V → V) :
    OrdMap.insertAll registry (overlayEntry registry updates key new f).toList =
      (OrdMap.insertAll registry updates.toList).alter key
        (fun entry => some (f (entry.getD new))) := by
  apply ExtTreeMap.ext_getElem?
  intro a
  rw [OrdMap.get_insertAll_toList, overlayEntry, OrdMap.get_alter, OrdMap.get_alter,
    OrdMap.get_insertAll_toList, OrdMap.get_insertAll_toList]
  by_cases hkey : key = a
  · subst hkey
    cases updates[key]? <;> simp
  · simp [hkey]

/-- The register path, which leaves a losing write out of the overlay. -/
theorem insertAll_applyRemoteLwwRegisterSet (op : Op) (key : String) (value : Bytes)
    (timestampMs : UInt64) (registers updates : OrdMap String LwwRegister) :
    OrdMap.insertAll registers
      (applyRemoteLwwRegisterSet op key value timestampMs registers updates).toList =
      (OrdMap.insertAll registers updates.toList).alter key (fun entry =>
        some ((OpKind.lwwRegisterSet key value timestampMs).effect op.origin entry)) := by
  apply ExtTreeMap.ext_getElem?
  intro a
  rw [OrdMap.get_insertAll_toList, OrdMap.get_alter, OrdMap.get_insertAll_toList,
    OrdMap.get_insertAll_toList]
  unfold applyRemoteLwwRegisterSet
  cases hupd : updates[key]? with
  | some register =>
    rw [OrdMap.get_insert]
    by_cases hkey : key = a
    · simp [hkey, OpKind.effect]
    · simp [hkey]
  | none =>
    cases hreg : registers[key]? with
    | none =>
      rw [OrdMap.get_insert]
      by_cases hkey : key = a
      · simp [hkey, OpKind.effect]
      · simp [hkey]
    | some existing =>
      by_cases hkey : key = a
      · subst hkey
        simp only [if_true, Option.none_or, OpKind.effect]
        by_cases hwon : (existing.assign value timestampMs op.origin).2
        · rw [if_pos hwon, OrdMap.get_insert, if_pos rfl, Option.some_or]
        · rw [if_neg hwon, hupd, hreg, Option.none_or]
          -- a losing write leaves the register as it is
          unfold LwwRegister.assign LwwRegister.merge at hwon ⊢
          split at hwon
          · exact absurd rfl hwon
          · next hlose => rw [if_neg hlose]
      · by_cases hwon : (existing.assign value timestampMs op.origin).2
        · simp [hwon, OrdMap.get_insert, hkey]
        · simp [hwon, hkey]

/-- One operation on the overlay has its effect on the published registries. -/
theorem publishUpdates_applyRemoteOp (op : Op) (registries updates : Registries) :
    publishUpdates registries (applyRemoteOpToCrdtUpdates op registries updates) =
      applyOp (publishUpdates registries updates) op := by
  obtain ⟨id, origin, kind⟩ := op
  cases kind with
  | gcounterIncrement key increment =>
    exact congrArg (fun m => { publishUpdates registries updates with counters := m })
      (insertAll_overlayEntry _ _ key _ _)
  | pncounterIncrement key increment =>
    exact congrArg (fun m => { publishUpdates registries updates with pncounters := m })
      (insertAll_overlayEntry _ _ key _ _)
  | pncounterDecrement key decrement =>
    exact congrArg (fun m => { publishUpdates registries updates with pncounters := m })
      (insertAll_overlayEntry _ _ key _ _)
  | lwwRegisterSet key value timestampMs =>
    exact congrArg (fun m => { publishUpdates registries updates with lwwRegisters := m })
      (insertAll_applyRemoteLwwRegisterSet _ key value timestampMs _ _)
  | lwwMapSet key field value timestampMs =>
    exact congrArg (fun m => { publishUpdates registries updates with lwwMaps := m })
      (insertAll_overlayEntry _ _ key _ _)
  | lwwMapRemove key field timestampMs =>
    exact congrArg (fun m => { publishUpdates registries updates with lwwMaps := m })
      (insertAll_overlayEntry _ _ key _ _)
  | orsetAdd key element tag =>
    exact congrArg (fun m => { publishUpdates registries updates with orsets := m })
      (insertAll_overlayEntry _ _ key _ _)
  | orsetRemove key element observedTags =>
    exact congrArg (fun m => { publishUpdates registries updates with orsets := m })
      (insertAll_overlayEntry _ _ key _ _)
  | rgaInsert key id parent value =>
    exact congrArg (fun m => { publishUpdates registries updates with rgas := m })
      (insertAll_overlayEntry _ _ key _ _)
  | rgaDelete key id =>
    exact congrArg (fun m => { publishUpdates registries updates with rgas := m })
      (insertAll_overlayEntry _ _ key _ _)

theorem publishUpdates_empty (registries : Registries) :
    publishUpdates registries {} = registries := by
  apply Registries.ext_get
  intro k
  apply ExtTreeMap.ext_getElem?
  intro a
  rw [get_publishUpdates, OrdMap.get_insertAll_toList]
  cases k <;> simp [Registries.get]

/-- A batch accepts the fresh operations, and publishing its overlay performs
their effects in order. -/
theorem remoteLoop_spec (seen : SeenOps) (registries : Registries) (ops : List Op) :
    (remoteLoop seen registries ops).1 = freshOps seen ops ∧
      publishUpdates registries (remoteLoop seen registries ops).2 =
        (freshOps seen ops).foldl applyOp registries := by
  -- the accepted prefix and the overlay advance together
  suffices h : ∀ (ops : List Op) (acc : List Op × Registries),
      publishUpdates registries acc.2 = acc.1.foldl applyOp registries →
      (ops.foldl (remoteStep seen registries) acc).1 = ops.foldl (acceptStep seen) acc.1 ∧
      publishUpdates registries (ops.foldl (remoteStep seen registries) acc).2 =
        (ops.foldl (acceptStep seen) acc.1).foldl applyOp registries by
    exact h ops ([], {}) (publishUpdates_empty registries)
  intro ops
  induction ops with
  | nil => intro acc h; exact ⟨rfl, h⟩
  | cons op rest ih =>
    intro acc h
    rw [List.foldl_cons, List.foldl_cons, remoteStep, acceptStep]
    by_cases hdup : isDuplicate seen acc.1 op
    · rw [if_pos hdup, if_pos hdup]
      exact ih acc h
    · rw [if_neg hdup, if_neg hdup]
      refine ih (acc.1 ++ [op], applyRemoteOpToCrdtUpdates op registries acc.2) ?_
      rw [publishUpdates_applyRemoteOp, h, List.foldl_append]
      rfl

end Numax
