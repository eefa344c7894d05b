import Numax.Host.Cells
import Numax.Store.Access

/-!
# What a mutating call can do

One statement of everything the ten calls can do to the host state
(`crdtCall_outcome`), from which the properties of runs are derived without
looking into the calls again. A call that changes a registry performs the
effect of the operation it issues; the operation carries the node's own id, the
generated operation id and, for a register write, a timestamp beyond the
register it replaces.
-/

open Base Std

namespace Numax

/-- What is known of an operation issued by a call. -/
structure IssuedBy (env : CallEnv) (sync : SyncState) (op : Op) : Prop where
  id_eq : op.id = env.opId
  origin_eq : op.origin = sync.nodeId
  stamp_gt : ∀ {key value timestampMs}, op.kind = .lwwRegisterSet key value timestampMs →
    ∀ r, sync.registries.lwwRegisters[key]? = some r → satAdd r.timestampMs 1 ≤ timestampMs
  element_id : ∀ {key id parent value}, op.kind = .rgaInsert key id parent value → id = op.id

/-- The plan of a call and the operation that it is for. -/
inductive Plans (r : Registries) : LocalPlan → Option Op → Prop
  | unchanged : Plans r .unchanged none
  | publish {op : Op} (kept : op.isKept r = true) :
      Plans r (.publish op.kind.crdtKind op.kind.key (op.newEntry r) op) (some op)
  | queueOnly {op : Op} (lost : op.isKept r = false) : Plans r (.queueOnly op) (some op)

/-- The operation of a call that succeeds: a write to the cell it names, or no write to a
cell. -/
inductive Issues (env : CallEnv) (h : HostState) (call : CrdtCall) : Option Op → Int → Prop
  | plain {op : Option Op} {code : Int} (other : call.isLwwWrite = false)
      (apart : op.bind Op.lwwWrite = none) : Issues env h call op code
  | write {memory : GuestMemory} {sync : SyncState} {slot : LwwSlot} {content : Option Bytes}
      {observed : UInt64} {op : Op} (memory_eq : h.memory = some memory)
      (enabled : h.sync = some sync) (target : call.lwwTarget memory = .ok (slot, content))
      (clock : env.now = some observed)
      (written : op.lwwWrite = some (slot, sync.stamped slot content observed)) :
      Issues env h call (some op) 0

/-- A plan, with what is known of its operation. -/
def PlanOk (env : CallEnv) (sync : SyncState) (issues : Option Op → Int → Prop)
    (plan : LocalPlan) : Prop :=
  ∃ op, Plans sync.registries plan op ∧ (∀ o, op = some o → IssuedBy env sync o) ∧ issues op 0

/-- An insertion that passes every check and is persisted, while its output
pointer leaves no room for the new element id inside the guest memory. -/
structure InsertIdLost (env : CallEnv) (h : HostState) (args : RgaInsertArgs) : Prop where
  enabled : ∃ sync, h.sync = some sync ∧ (sync.opQueue.tryReserve).isSome
  args_ok : ∃ memory, h.memory = some memory ∧ (readRgaInsertArgs memory args).isOk ∧
    memory.size < args.outIdPtr.toNat + (asBytes env.opId).length
  cap_ok : (asBytes env.opId).length ≤ args.outIdCap.toNat
  store_ok : env.fault = none

/-- The calls that lose the id of the element they insert. -/
def IdLost (env : CallEnv) (h : HostState) : CrdtCall → Prop
  | .rgaInsert args => InsertIdLost env h args
  | _ => False

/-- The operation an insertion makes of its arguments. -/
def insertedOp (env : CallEnv) (nodeId : NodeId) (memory : Option GuestMemory) :
    CrdtCall → Option Op
  | .rgaInsert args => do
    let (key, parent, value) ← (readRgaInsertArgs (← memory) args).toOption
    some (Op.rgaInsertWithOpId env.opId nodeId key parent value)
  | _ => none

/-- The calls that lose the id of the element they insert, with their operation. -/
def Unreported (env : CallEnv) (h : HostState) : CrdtCall → Op → Prop
  | .rgaInsert args, op => InsertIdLost env h args ∧
      ∀ sync, h.sync = some sync → insertedOp env sync.nodeId h.memory (.rgaInsert args) = some op
  | _, _ => False

variable {env : CallEnv}

theorem Unreported.idLost {h : HostState} {call : CrdtCall} {op : Op}
    (hop : Unreported env h call op) : IdLost env h call := by
  cases call with
  | rgaInsert args => exact hop.1
  | _ => exact hop

/-- The possible results of a mutating call; `lost` is what has to hold for an
insertion to go unreported, and `issues` what a call that succeeds issues. -/
inductive CallOutcome (serde : Serde) (env : CallEnv) (h : HostState) (lost : Op → Prop)
    (issues : Option Op → Int → Prop) : HostState × Int → Prop
  | rejected {code : Int} (negative : code < 0) : CallOutcome serde env h lost issues (h, code)
  | unchanged (done : issues none 0) : CallOutcome serde env h lost issues (h, 0)
  | committed {memory : Option GuestMemory} {sync : SyncState} {op : Op} {store : Store}
      {code : Int} (enabled : h.sync = some sync) (issued : IssuedBy env sync op)
      (persisted : persistState serde env.fault h.store op.kind.crdtKind op.kind.key
        (op.newEntry sync.registries) = .ok store)
      (nonneg : 0 ≤ code) (done : issues (some op) code) :
      CallOutcome serde env h lost issues
        ({ memory
           store
           sync := some { sync with
             registries := applyOp sync.registries op
             opQueue := { sync.opQueue with ops := sync.opQueue.ops ++ [op] } } }, code)
  | queuedOnly {sync : SyncState} {op : Op} (enabled : h.sync = some sync)
      (issued : IssuedBy env sync op) (same : applyOp sync.registries op = sync.registries)
      (done : issues (some op) 0) :
      CallOutcome serde env h lost issues
        ({ h with
            sync := some { sync with
              opQueue := { sync.opQueue with ops := sync.opQueue.ops ++ [op] } } }, 0)
  /-- an insertion whose element id could not be written back -/
  | unreported {sync : SyncState} {op : Op} {store : Store} (enabled : h.sync = some sync)
      (issued : IssuedBy env sync op)
      (persisted : persistState serde env.fault h.store op.kind.crdtKind op.kind.key
        (op.newEntry sync.registries) = .ok store)
      (unwritable : lost op) :
      CallOutcome serde env h lost issues
        ({ h with
            store
            sync := some { sync with registries := applyOp sync.registries op } }, errInternal)

/-! ## Argument errors are negative -/

/-- A computation whose every error is a negative code. -/
def NegError {α : Type} (x : Except Int α) : Prop := ∀ code, x = .error code → code < 0

variable {α : Type}

theorem NegError.pure (a : α) : NegError (Pure.pure a : Except Int α) := nofun

theorem NegError.bind {β : Type} {x : Except Int α} {f : α → Except Int β} (hx : NegError x)
    (hf : ∀ a, NegError (f a)) : NegError (x >>= f) := by
  intro code h
  cases x with
  | error e => cases h; exact hx _ rfl
  | ok a => exact hf a code h

theorem NegError.map {β : Type} {x : Except Int α} {f : α → β} (hx : NegError x) :
    NegError (f <$> x) := by
  intro code h
  cases x with
  | error e => cases h; exact hx _ rfl
  | ok a => cases h

variable {memory : GuestMemory} {ptr len : UInt32}

theorem readValidatedKey_neg :
    NegError (readValidatedKey memory ptr len) := by
  intro code h
  unfold readValidatedKey at h
  repeat' split at h
  all_goals first | (cases h; decide) | cases h

theorem readValueBytes_neg :
    NegError (readValueBytes memory ptr len) := by
  intro code h
  unfold readValueBytes at h
  repeat' split at h
  all_goals first | (cases h; decide) | cases h

theorem readUtf8Arg_neg {maxLen : Nat} :
    NegError (readUtf8Arg memory ptr len maxLen) := by
  intro code h
  unfold readUtf8Arg at h
  repeat' split at h
  all_goals first | (cases h; decide) | cases h

theorem unixEpochMillis_neg : NegError (unixEpochMillis env) := by
  intro code h
  unfold unixEpochMillis at h
  split at h
  · cases h; decide
  · cases h

theorem readRgaInsertArgs_neg {args : RgaInsertArgs} :
    NegError (readRgaInsertArgs memory args) := by
  unfold readRgaInsertArgs
  split
  · rintro code ⟨⟩
    decide
  · refine .bind readValidatedKey_neg fun key => ?_
    dsimp only
    split
    · exact .bind (.pure _) fun parent => .bind readValueBytes_neg fun value => .pure _
    · exact .bind (.map readUtf8Arg_neg) fun parent => .bind readValueBytes_neg fun value => .pure _

theorem outIdCap_le_of_ok {args : RgaInsertArgs} {parsed : String × Option String × Bytes}
    (h : readRgaInsertArgs memory args = .ok parsed) :
    args.outIdCap.toNat ≤ maxOutCap := by
  unfold readRgaInsertArgs at h
  split at h
  · cases h
  · omega

/-- A length within the output limit is returned as it is. -/
theorem asI32_nonneg_of_le {cap len : Nat} (hcap : cap ≤ maxOutCap) (hlen : len ≤ cap) :
    0 ≤ asI32 len := by
  unfold maxOutCap at hcap
  rw [asI32_of_lt (by omega)]
  omega

/-! ## The common scheme -/

/-- A write that is not kept leaves its register as it is. -/
theorem applyOp_of_not_kept {r : Registries} {op : Op} (h : op.isKept r = false) :
    applyOp r op = r := by
  obtain ⟨id, origin, kind⟩ := op
  cases kind with
  | lwwRegisterSet key value timestampMs =>
    change (r.lwwRegisters[key]?).all _ = false at h
    cases hregister : r.lwwRegisters[key]? with
    | none =>
      rw [hregister] at h
      cases h
    | some register =>
      rw [hregister] at h
      have hlost : (register.merge { value, timestampMs, writer := origin }).2 = false := h
      have hsame : (register.merge { value, timestampMs, writer := origin }).1 = register := by
        unfold LwwRegister.merge at hlost ⊢
        split at hlost
        · cases hlost
        · next hlose => rw [if_neg hlose]
      have hentry : (Op.mk id origin (.lwwRegisterSet key value timestampMs)).newEntry r =
          OpKind.effect origin (.lwwRegisterSet key value timestampMs)
            r.lwwRegisters[key]? := rfl
      rw [← insert_newEntry, hentry, hregister]
      change { r with
        lwwRegisters := r.lwwRegisters.insert key
          (register.merge { value, timestampMs, writer := origin }).1 } = r
      rw [hsame, OrdMap.insert_eq_alter, OrdMap.alter_eq_self _ _ _ hregister.symm]
  | _ => cases h

theorem localCall_outcome (serde : Serde) (env : CallEnv) (h : HostState)
    {readArgs : GuestMemory → Except Int α} {plan : SyncState → α → LocalPlan}
    {issues : Option Op → Int → Prop} (hread : ∀ memory, NegError (readArgs memory))
    (hplan : ∀ memory sync args, h.memory = some memory → h.sync = some sync →
      readArgs memory = .ok args → PlanOk env sync issues (plan sync args)) :
    CallOutcome serde env h (fun _ => False) issues (localCall serde env h readArgs plan) := by
  obtain ⟨memory, store, sync⟩ := h
  unfold localCall
  cases memory with
  | none => exact .rejected (by decide)
  | some memory =>
    cases hargs : readArgs memory with
    | error code => simp only [hargs]; exact .rejected (hread memory code hargs)
    | ok args =>
      cases sync with
      | none => simp only [hargs]; exact .rejected (by decide)
      | some sync =>
        cases hpermit : sync.opQueue.tryReserve with
        | none => simp only [hargs, hpermit]; exact .rejected (by decide)
        | some permit =>
          have hrelease : ({ sync with opQueue := permit.release } : SyncState) = sync := by
            rw [OpQueue.release_of_tryReserve hpermit]
          simp only [hargs, hpermit, hrelease, OpQueue.send_of_tryReserve hpermit]
          obtain ⟨op, hplans, hissued, hdone⟩ := hplan memory sync args rfl rfl hargs
          generalize plan sync args = p at hplans
          cases hplans with
          | unchanged => exact .unchanged hdone
          | queueOnly lost =>
            exact .queuedOnly rfl (hissued _ rfl) (applyOp_of_not_kept lost) hdone
          | @publish op kept =>
            simp only [insert_newEntry]
            cases hstore : persistState serde env.fault store op.kind.crdtKind
                op.kind.key (op.newEntry sync.registries) with
            | error e => exact .rejected (by decide)
            | ok store' => exact .committed rfl (hissued _ rfl) hstore le_rfl hdone

/-! ## The calls -/

/-- An operation that is neither a register write nor an insertion. -/
theorem IssuedBy.plain {sync : SyncState} {kind : OpKind}
    (hreg : ∀ key value timestampMs, kind ≠ .lwwRegisterSet key value timestampMs)
    (hrga : ∀ key id parent value, kind ≠ .rgaInsert key id parent value) :
    IssuedBy env sync { id := env.opId, origin := sync.nodeId, kind } where
  id_eq := rfl
  origin_eq := rfl
  stamp_gt h := absurd h (hreg _ _ _)
  element_id h := absurd h (hrga _ _ _ _)

theorem satAdd_le_nextTimestamp (observed timestampMs : UInt64) :
    satAdd timestampMs 1 ≤ nextTimestamp observed (some timestampMs) := by
  rw [nextTimestamp, UInt64.le_iff_toNat_le]
  change _ ≤ (if observed ≤ satAdd timestampMs 1 then _ else _ : UInt64).toNat
  split
  · exact le_rfl
  · next h =>
      rw [UInt64.le_iff_toNat_le] at h
      omega

theorem PlanOk.publish {sync : SyncState} {issues : Option Op → Int → Prop} {op : Op}
    (issued : IssuedBy env sync op) (kept : op.isKept sync.registries = true)
    (done : issues (some op) 0) :
    PlanOk env sync issues
      (.publish op.kind.crdtKind op.kind.key (op.newEntry sync.registries) op) := by
  refine ⟨some op, .publish kept, ?_, done⟩
  rintro _ ⟨⟩
  exact issued

/-- A register write wins and is published, or it is only queued. -/
theorem plans_lwwSet (env : CallEnv) (sync : SyncState) (key : String) (value : Bytes)
    (timestampMs : UInt64) :
    Plans sync.registries
      (match sync.registries.lwwRegisters[key]? with
      | some register =>
        let (next, won) := register.merge { value, timestampMs, writer := sync.nodeId }
        if won then
          .publish .lwwRegister key next
            (Op.lwwRegisterSet env.opId sync.nodeId key value timestampMs)
        else .queueOnly (Op.lwwRegisterSet env.opId sync.nodeId key value timestampMs)
      | none =>
        .publish .lwwRegister key { value, timestampMs, writer := sync.nodeId }
          (Op.lwwRegisterSet env.opId sync.nodeId key value timestampMs))
      (some (Op.lwwRegisterSet env.opId sync.nodeId key value timestampMs)) := by
  let op := Op.lwwRegisterSet env.opId sync.nodeId key value timestampMs
  have hentry : op.newEntry sync.registries =
      OpKind.effect sync.nodeId (.lwwRegisterSet key value timestampMs)
        sync.registries.lwwRegisters[key]? := rfl
  have hkept : op.isKept sync.registries = (sync.registries.lwwRegisters[key]?).all
      fun register => (register.assign value timestampMs sync.nodeId).2 := rfl
  cases hregister : sync.registries.lwwRegisters[key]? with
  | none =>
    rw [hregister] at hentry hkept
    have hplans := Plans.publish hkept
    rw [hentry] at hplans
    exact hplans
  | some register =>
    rw [hregister] at hentry hkept
    simp only
    split
    · next hwon =>
        have hplans := Plans.publish (hkept.trans hwon)
        rw [hentry] at hplans
        exact hplans
    · next hlost => exact .queueOnly (hkept.trans (Bool.eq_false_iff.mpr hlost))

theorem unixEpochMillis_eq_ok {observed : UInt64} (h : unixEpochMillis env = .ok observed) :
    env.now = some observed := by
  unfold unixEpochMillis at h
  split at h
  · cases h
  · next hnow =>
      cases h
      exact hnow

theorem crdtLwwSet_outcome (serde : Serde) (env : CallEnv) (h : HostState)
    (keyPtr keyLen valuePtr valueLen : UInt32) :
    CallOutcome serde env h (fun _ => False)
      (Issues env h (.lwwSet keyPtr keyLen valuePtr valueLen))
      (crdtLwwSet serde env h keyPtr keyLen valuePtr valueLen) := by
  unfold crdtLwwSet
  apply localCall_outcome
  · exact fun memory => .bind readValidatedKey_neg fun key =>
      .bind readValueBytes_neg fun value => .bind unixEpochMillis_neg fun now => .pure _
  · intro memory sync args hmemory hsync hargs
    -- the arguments that were read name the cell and its content
    obtain ⟨key, hkey, hargs⟩ := bind_eq_ok hargs
    obtain ⟨value, hvalue, hargs⟩ := bind_eq_ok hargs
    obtain ⟨observed, hnow, hargs⟩ := bind_eq_ok hargs
    cases hargs
    have htarget : CrdtCall.lwwTarget memory (.lwwSet keyPtr keyLen valuePtr valueLen) =
        .ok (.register key, some value) := by
      simp only [CrdtCall.lwwTarget, hkey, hvalue]
      rfl
    refine ⟨_, plans_lwwSet env sync key value _, ?_,
      .write hmemory hsync htarget (unixEpochMillis_eq_ok hnow) ?_⟩
    · rintro _ ⟨⟩
      refine ⟨rfl, rfl, ?_, nofun⟩
      rintro _ _ _ ⟨⟩ register hregister
      rw [hregister]
      exact satAdd_le_nextTimestamp observed register.timestampMs
    · simp only [SyncState.stamped, LwwSlot.entry, Option.map_map]
      rfl

theorem crdtRgaInsert_outcome (serde : Serde) (env : CallEnv) (h : HostState)
    (args : RgaInsertArgs) :
    CallOutcome serde env h (Unreported env h (.rgaInsert args)) (Issues env h (.rgaInsert args))
      (crdtRgaInsert serde env h args) := by
  obtain ⟨memory, store, sync⟩ := h
  unfold crdtRgaInsert
  cases memory with
  | none => exact .rejected (by decide)
  | some memory =>
  cases hargs : readRgaInsertArgs memory args with
  | error code => simp only [hargs]; exact .rejected (readRgaInsertArgs_neg code hargs)
  | ok parsed =>
  obtain ⟨key, parent, value⟩ := parsed
  cases sync with
  | none => simp only [hargs]; exact .rejected (by decide)
  | some sync =>
  cases hpermit : sync.opQueue.tryReserve with
  | none => simp only [hargs, hpermit]; exact .rejected (by decide)
  | some permit =>
    have hrelease : permit.release = sync.opQueue := OpQueue.release_of_tryReserve hpermit
    simp only [hargs, hpermit, hrelease, OpQueue.send_of_tryReserve hpermit]
    -- an id that is longer than the buffer is refused at once
    split
    · exact .rejected (by decide)
    · next hcap =>
        let op := Op.rgaInsertWithOpId env.opId sync.nodeId key parent value
        have hissued : IssuedBy env sync op :=
          { id_eq := rfl
            origin_eq := rfl
            stamp_gt := nofun
            element_id := by rintro _ _ _ _ ⟨⟩; rfl }
        have hinsert : sync.registries.insert .rga key
            (((sync.registries.rgas[key]?).getD Rga.new).insert env.opId parent value).1 =
            applyOp sync.registries op := insert_newEntry sync.registries op
        rw [hinsert]
        split
        · exact .rejected (by decide)
        · next store' hstore =>
            change persistState serde env.fault store op.kind.crdtKind op.kind.key
              (op.newEntry sync.registries) = .ok store' at hstore
            -- it is published and persisted; only the answer can still fail
            split
            · next hwrite =>
                refine @CallOutcome.unreported serde env ⟨some memory, store, some sync⟩ _ _ sync
                  op store' rfl hissued hstore
                  ⟨⟨⟨sync, rfl, by rw [hpermit]; rfl⟩, ⟨memory, rfl, by rw [hargs]; rfl, ?_⟩,
                    Nat.le_of_not_lt hcap, (Store.accessing_eq_ok hstore).2⟩, ?_⟩
                rotate_left
                · rintro _ ⟨⟩
                  simp only [insertedOp, bind, Option.bind, hargs]
                  rfl
                unfold GuestMemory.write at hwrite
                split at hwrite
                · cases hwrite
                · omega
            · exact @CallOutcome.committed serde env ⟨some memory, store, some sync⟩ _ _ _ sync op
                store' _ rfl hissued hstore
                (asI32_nonneg_of_le (outIdCap_le_of_ok hargs) (Nat.le_of_not_lt hcap))
                (.plain rfl rfl)

/-- Everything a mutating call can do. -/
theorem crdtCall_outcome (serde : Serde) (env : CallEnv) (h : HostState) (call : CrdtCall) :
    CallOutcome serde env h (Unreported env h call) (Issues env h call)
      (crdtCall serde env h call) := by
  cases call with
  | gcounterInc keyPtr keyLen delta =>
    exact localCall_outcome serde env h (fun _ => readValidatedKey_neg) fun _ sync key _ _ _ =>
      @PlanOk.publish env sync _ (.gcounterIncrement env.opId sync.nodeId key delta)
        (.plain nofun nofun) rfl (.plain rfl rfl)
  | pncounterInc keyPtr keyLen delta =>
    exact localCall_outcome serde env h (fun _ => readValidatedKey_neg) fun _ sync key _ _ _ =>
      @PlanOk.publish env sync _ (.pncounterIncrement env.opId sync.nodeId key delta)
        (.plain nofun nofun) rfl (.plain rfl rfl)
  | pncounterDec keyPtr keyLen delta =>
    exact localCall_outcome serde env h (fun _ => readValidatedKey_neg) fun _ sync key _ _ _ =>
      @PlanOk.publish env sync _ (.pncounterDecrement env.opId sync.nodeId key delta)
        (.plain nofun nofun) rfl (.plain rfl rfl)
  | lwwSet keyPtr keyLen valuePtr valueLen => exact crdtLwwSet_outcome ..
  | lwwMapSet keyPtr keyLen fieldPtr fieldLen valuePtr valueLen =>
    unfold crdtCall crdtLwwMapSet
    apply localCall_outcome
    · exact fun memory => .bind readValidatedKey_neg fun key =>
        .bind readUtf8Arg_neg fun field => .bind readValueBytes_neg fun value =>
        .bind unixEpochMillis_neg fun now => .pure _
    · intro memory sync args hmemory hsync hargs
      obtain ⟨key, hkey, hargs⟩ := bind_eq_ok hargs
      obtain ⟨field, hfield, hargs⟩ := bind_eq_ok hargs
      obtain ⟨value, hvalue, hargs⟩ := bind_eq_ok hargs
      obtain ⟨observed, hnow, hargs⟩ := bind_eq_ok hargs
      cases hargs
      have htarget : CrdtCall.lwwTarget memory
          (.lwwMapSet keyPtr keyLen fieldPtr fieldLen valuePtr valueLen) =
            .ok (.field key field, some value) := by
        simp only [CrdtCall.lwwTarget, hkey, hfield, hvalue]
        rfl
      refine @PlanOk.publish env sync _ (.lwwMapSet env.opId sync.nodeId key field value _)
        (.plain nofun nofun) rfl
        (.write hmemory hsync htarget (unixEpochMillis_eq_ok hnow) ?_)
      simp only [SyncState.stamped, LwwSlot.entry_field]
      rfl
  | lwwMapRemove keyPtr keyLen fieldPtr fieldLen =>
    unfold crdtCall crdtLwwMapRemove
    apply localCall_outcome
    · exact fun memory => .bind readValidatedKey_neg fun key =>
        .bind readUtf8Arg_neg fun field => .bind unixEpochMillis_neg fun now => .pure _
    · intro memory sync args hmemory hsync hargs
      obtain ⟨key, hkey, hargs⟩ := bind_eq_ok hargs
      obtain ⟨field, hfield, hargs⟩ := bind_eq_ok hargs
      obtain ⟨observed, hnow, hargs⟩ := bind_eq_ok hargs
      cases hargs
      have htarget : CrdtCall.lwwTarget memory
          (.lwwMapRemove keyPtr keyLen fieldPtr fieldLen) = .ok (.field key field, none) := by
        simp only [CrdtCall.lwwTarget, hkey, hfield]
        rfl
      refine @PlanOk.publish env sync _ (.lwwMapRemove env.opId sync.nodeId key field _)
        (.plain nofun nofun) rfl
        (.write hmemory hsync htarget (unixEpochMillis_eq_ok hnow) ?_)
      simp only [SyncState.stamped, LwwSlot.entry_field]
      rfl
  | orsetAdd keyPtr keyLen elementPtr elementLen =>
    unfold crdtCall crdtOrsetAdd
    apply localCall_outcome
    · exact fun memory => .bind readValidatedKey_neg fun key =>
        .bind readUtf8Arg_neg fun element => .pure _
    · rintro _ sync ⟨key, element⟩ - - -
      exact @PlanOk.publish env sync _
        (.orsetAddWithOpIdTag env.opId sync.nodeId key element) (.plain nofun nofun) rfl
        (.plain rfl rfl)
  | orsetRemove keyPtr keyLen elementPtr elementLen =>
    unfold crdtCall crdtOrsetRemove
    apply localCall_outcome
    · exact fun memory => .bind readValidatedKey_neg fun key =>
        .bind readUtf8Arg_neg fun element => .pure _
    · rintro _ sync ⟨key, element⟩ - - -
      simp only
      split
      · exact ⟨none, .unchanged, nofun, .plain rfl rfl⟩
      · exact @PlanOk.publish env sync _ (.orsetRemove env.opId sync.nodeId key element _)
          (.plain nofun nofun) rfl (.plain rfl rfl)
  | rgaInsert args => exact crdtRgaInsert_outcome serde env h args
  | rgaDelete keyPtr keyLen idPtr idLen =>
    unfold crdtCall crdtRgaDelete
    apply localCall_outcome
    · exact fun memory => .bind readValidatedKey_neg fun key =>
        .bind readUtf8Arg_neg fun id => .pure _
    · rintro _ sync ⟨key, id⟩ - - -
      exact @PlanOk.publish env sync _ (.rgaDelete env.opId sync.nodeId key id)
        (.plain nofun nofun) rfl (.plain rfl rfl)

end Numax
