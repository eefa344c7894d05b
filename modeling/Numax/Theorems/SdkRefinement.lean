import Numax.Theorems.SdkReplies
import Numax.Core.JsonForm

/-!
# The guest library over the host is the typed interface

Every function of the guest library, run over the host calls with its slices somewhere in
the guest's memory, changes the store and the sync state and returns just as the typed
interface does, in the surroundings of one of its attempts (`call_refines`). So a guest that
makes one call after the other sees a session of the typed interface
(`sdkSession_refines`).
-/

open Base Std

namespace Numax

/-! ## Calls -/

/-- The library has done what the typed interface does in the surroundings of one of its
attempts. -/
def Refines (serde : Serde) (g : CallSite) (h : HostState) (c : SdkCall)
    (outcome : Option (HostState × SdkResult)) : Prop :=
  ∃ after r attempt, outcome = some (after, r) ∧
    (after.backend, r) = h.backend.call serde (g.env attempt) c

variable {env : CallEnv}

section Calls

variable {serde : Serde} {w : UsizeWidth} {fuel : Nat} {g : CallSite} {h : HostState}

/-- The memory of the guest at an attempt. -/
def CallSite.placed (g : CallSite) (h : HostState) (attempt cap : Nat) : HostState :=
  { h with memory := some (g.frame attempt cap).memory }

theorem unitCall_refines {c : CrdtWrite} {call : CallFrame → CrdtCall}
    (hcall : unitOutcome (crdtCall serde (g.env 0) (g.placed h 0 0) (call (g.frame 0 0))) =
      h.backend.write serde (g.env 0) c) :
    Refines serde g h (.write c) (some (Sdk.unitCall serde g h call)) :=
  ⟨_, _, 0, rfl, hcall⟩

/-- To remove an element is an operation exactly if it has been added. -/
theorem plans_orsetRemove (env : CallEnv) (sync : SyncState) (key element : String) :
    Plans sync.registries
      (let set := (sync.registries.orsets[key]?).getD ORSet.new
      let (set, observedTags) := set.remove element
      if observedTags.isEmpty then .unchanged
      else
        .publish .orset key set (.orsetRemove env.opId sync.nodeId key element observedTags))
      ((CrdtWrite.orsetRemove key element).op env sync) := by
  simp only [CrdtWrite.op]
  split
  · exact .unchanged
  · exact @Plans.publish sync.registries (.orsetRemove env.opId sync.nodeId key element _) rfl

/-- An empty parent and none are the same to the host. -/
theorem checked_parent {f : CallFrame} {parent : Option String}
    (hparent : ∀ p, parent = some p → f.memory.Placed f.argPtr (asBytes p)) :
    Checked (parent.filter (· ≠ "")) (checkLen (asBytes (parent.getD "")) maxRgaIdLen)
      (if (parent.elim 0 fun parent => lenU32 (asBytes parent)) = 0 then pure none
      else some <$> readUtf8Arg f.memory (parent.elim 0 fun _ => f.argPtr)
        (parent.elim 0 fun parent => lenU32 (asBytes parent)) maxRgaIdLen) := by
  cases parent with
  | none => exact .passed
  | some p =>
    have hplaced := hparent p rfl
    -- an empty id has the length 0, which the host takes for none
    by_cases hempty : p = ""
    · subst hempty
      exact .passed
    · have hlen : lenU32 (asBytes p) ≠ 0 := by
        intro hzero
        have hnat := hplaced.toNat_lenU32
        rw [hzero] at hnat
        exact hempty (asBytes_injective (List.eq_nil_of_length_eq_zero hnat.symm))
      have hsome : (some p).filter (· ≠ "") = some p := by simp [hempty]
      rw [hsome]
      change Checked (some p) (checkLen (asBytes p) maxRgaIdLen)
        (if lenU32 (asBytes p) = 0 then pure none
        else some <$> readUtf8Arg f.memory f.argPtr (lenU32 (asBytes p)) maxRgaIdLen)
      rw [if_neg hlen]
      exact (checked_text hplaced).map some

variable {f : CallFrame} {key : String} {value : Bytes} {cap : Nat}

/-- The host takes every buffer of the library. -/
theorem outCap_allowed (hcap : cap ≤ maxSdkBuffer) :
    ¬ (UInt32.ofNat cap).toNat > maxOutCap := by
  rw [toNat_ofNat_of_le hcap]
  exact Nat.not_lt.mpr (hcap.trans (by decide))

theorem checked_rgaInsert {parent : Option String} (hcap : cap ≤ maxSdkBuffer) (env : CallEnv)
    (hf : f.Holds (.write (.rgaInsertAfter key parent value)) cap) :
    Checked (key, parent.filter (· ≠ ""), value)
      ((CrdtWrite.rgaInsertAfter key parent value).check env)
      (readRgaInsertArgs f.memory (f.insertArgs key parent value (UInt32.ofNat cap))) := by
  have hallowed := outCap_allowed hcap
  have hparent := @checked_parent f parent hf.arg_at
  unfold readRgaInsertArgs CallFrame.insertArgs
  rw [if_neg hallowed]
  refine (checked_key hf.key_at).bind ?_
  have hvalue := (checked_value (hf.value_at value rfl)).map
    fun value => (key, parent.filter (· ≠ ""), value)
  dsimp only
  split
  · next hzero =>
      rw [if_pos hzero] at hparent
      exact hparent.bind hvalue
  · next hlen =>
      rw [if_neg hlen] at hparent
      exact hparent.bind hvalue

/-- One attempt to insert. -/
theorem rgaInsert_attempt {parent : Option String} (hcap : cap ≤ maxSdkBuffer)
    (hf : f.Holds (.write (.rgaInsertAfter key parent value)) cap) :
    Attempt (failWith .ofCode) Sdk.textId h.backend
      (h.backend.write serde env (.rgaInsertAfter key parent value)) cap
      (f.reply cap (crdtRgaInsert serde env { h with memory := some f.memory }
        (f.insertArgs key parent value (UInt32.ofNat cap)))) := by
  have hargs := checked_rgaInsert hcap env hf
  obtain ⟨before, store, sync⟩ := h
  unfold CallFrame.insertArgs at hargs ⊢
  unfold crdtRgaInsert Backend.write
  generalize (CrdtWrite.rgaInsertAfter key parent value).check env = check at hargs
  simp only [toNat_ofNat_of_le hcap, CrdtWrite.answerLen, CrdtWrite.answer, CrdtWrite.op,
    HostState.backend]
  generalize readRgaInsertArgs f.memory _ = read at hargs
  cases hargs with
  | refused code_eq =>
    exact @code_attempt _ _ f cap ⟨some f.memory, store, sync⟩ _ _ code_eq.negative code_eq.large
      (congrArg callFailed code_eq.ofCode)
  | passed =>
  cases sync with
  | none =>
    exact @code_attempt _ _ f cap ⟨some f.memory, store, none⟩ errSyncDisabled _ (by decide)
      (by decide) rfl
  | some sync =>
  cases hpermit : sync.opQueue.tryReserve with
  | none =>
    simp only [hpermit]
    exact @code_attempt _ _ f cap ⟨some f.memory, store, some sync⟩ errInternal _ (by decide)
      (by decide) rfl
  | some permit =>
    let op := Op.rgaInsertWithOpId env.opId sync.nodeId key (parent.filter (· ≠ "")) value
    have hrelease : permit.release = sync.opQueue := OpQueue.release_of_tryReserve hpermit
    have hinsert : sync.registries.insert .rga key
        (((sync.registries.rgas[key]?).getD Rga.new).insert env.opId
          (parent.filter (· ≠ "")) value).1 = applyOp sync.registries op :=
      insert_newEntry sync.registries op
    simp only [hpermit, hrelease, OpQueue.send_of_tryReserve hpermit, Option.isNone_some,
      Bool.false_eq_true, if_false, hinsert]
    -- an id that does not fit is refused before anything changes
    by_cases hlong : (asBytes env.opId).length > cap
    · simp only [if_pos hlong]
      exact .again rfl fun hlargest => if_pos (hlargest ▸ hlong)
    · have hshort := Nat.le_of_not_gt hlong
      have hsmall := hshort.trans hcap
      have hkept : op.isKept sync.registries = true := rfl
      have hpersist : persistRgaState serde env.fault store key
          (((sync.registries.rgas[key]?).getD Rga.new).insert env.opId
            (parent.filter (· ≠ "")) value).1 =
          persistState serde env.fault store op.kind.crdtKind op.kind.key
            (op.newEntry sync.registries) := rfl
      simp only [if_neg hlong, if_neg (Nat.not_lt.mpr hsmall), Backend.issue, hpersist]
      rw [if_pos hkept]
      cases persistState serde env.fault store op.kind.crdtKind op.kind.key
        (op.newEntry sync.registries) with
      | error e =>
        exact @code_attempt _ _ f cap ⟨some f.memory, store, some sync⟩ errInternal _
          (by decide) (by decide) rfl
      | ok store' =>
        -- the buffer lies in the memory, so that the id is written back
        obtain ⟨memory', hwrite⟩ := GuestMemory.write_isSome hf.room hshort
        obtain ⟨out, hread, hout⟩ := read_of_write hf.room hshort hwrite
        have hcode : asI32 (asBytes env.opId).length = (asBytes env.opId).length :=
          asI32_of_lt (by unfold maxSdkBuffer at hsmall; omega)
        simp only [hwrite, CallFrame.reply, Option.bind_some, hread, Option.getD_some, hcode]
        refine .settled (by unfold errBufTooSmall; omega) ?_
        rw [if_neg (by omega), Int.toNat_natCast, hout, Sdk.textId, fromUtf8_asBytes]
        rfl

/-- The codes that a read with a growing buffer may meet. -/
structure ReadCodes (negative : Int → SdkResult) : Prop where
  refused : ∀ {code error}, Refuses code error → negative code = callFailed error
  disabled : negative errSyncDisabled = callFailed .syncDisabled

variable {c : CrdtQuery}

/-- One attempt to read. -/
theorem readOut_attempt {α : Type} {args : α} {negative : Int → SdkResult}
    {finish : Bytes → SdkResult} {readArgs : GuestMemory → Except Int α}
    {answer : Registries → α → Except Int Bytes} {store : Store} {sync : Option SyncState}
    (hcap : cap ≤ maxSdkBuffer) (hroom : f.outPtr.toNat + cap ≤ f.memory.size)
    (hargs : Checked args c.check (readArgs f.memory)) (hcodes : ReadCodes negative)
    (hanswer : ∀ r, Answers negative finish (answer r args) (c.answer r)) :
    Attempt negative finish ⟨store, sync⟩ (⟨store, sync⟩, Backend.query ⟨store, sync⟩ c) cap
      (f.reply cap
        (readOut ⟨some f.memory, store, sync⟩ f.outPtr (UInt32.ofNat cap) readArgs answer)) := by
  have hallowed := outCap_allowed hcap
  simp only [readOut, if_neg hallowed, Backend.query]
  generalize readArgs f.memory = read at hargs
  generalize c.check = check at hargs
  cases hargs with
  | refused code_eq =>
    exact @code_attempt _ _ f cap ⟨some f.memory, store, sync⟩ _ _ code_eq.negative code_eq.large
      (hcodes.refused code_eq)
  | passed =>
  cases sync with
  | none =>
    exact @code_attempt _ _ f cap ⟨some f.memory, store, none⟩ _ _ (by decide) (by decide)
      hcodes.disabled
  | some sync =>
    -- the host refuses with a code, or has bytes for the buffer
    have hreply := hanswer sync.registries
    simp only
    generalize answer sync.registries args = encoded at hreply
    generalize c.answer sync.registries = result at hreply
    cases hreply with
    | refused neg large result_eq =>
      exact @code_attempt _ _ f cap ⟨some f.memory, store, some sync⟩ _ _ neg large result_eq
    | encoded finish_eq =>
      exact @writeOut_attempt _ _ f cap ⟨some f.memory, store, some sync⟩ hroom hcap
        _ _ finish_eq

/-- A read with a growing buffer. -/
theorem growingRead_refines {α : Type} (args : α) (answer : Registries → α → Except Int Bytes)
    {call : (cap : UInt32) → CallFrame → CrdtReadCall} {negative : Int → SdkResult}
    {finish : Bytes → SdkResult} {readArgs : CallFrame → GuestMemory → Except Int α}
    (hg : g.Sound (.query c)) (hfuel : 14 < fuel)
    (hcall : ∀ h cap f, crdtRead h (call cap f) = readOut h f.outPtr cap (readArgs f) answer)
    (hargs : ∀ f cap, f.Holds (.query c) cap → Checked args c.check (readArgs f f.memory))
    (hcodes : ReadCodes negative)
    (hanswer : ∀ r, Answers negative finish (answer r args) (c.answer r)) :
    Refines serde g h (.query c) (Sdk.growingRead w fuel g h call negative finish) := by
  -- twelve doublings lead from the first buffer to the largest
  refine growLoop_spec (fun h' attempt cap hb hcap => ?_) 12 rfl rfl (by omega)
  have hf := hg attempt cap hcap
  rw [CallSite.invoke_eq, hcall, ← hb]
  exact readOut_attempt hcap hf.room (hargs _ cap hf) hcodes hanswer

/-- One attempt to get a value. -/
theorem dbGet_attempt (hcap : cap ≤ maxSdkBuffer) (hf : f.Holds (.dbGet key) cap) :
    Attempt (orNone .ofDbCode) (fun out => .ok (.bytes (some out))) h.backend
      (h.backend, h.backend.dbGet env key) cap
      (f.reply cap (Numax.dbGet env.fault { h with memory := some f.memory } f.keyPtr
        (lenU32 (asBytes key)) f.outPtr (UInt32.ofNat cap))) := by
  have hallowed := outCap_allowed hcap
  have hargs := checked_dbKey hf.key_at
  change Checked (asBytes key) (checkKey key) (readValidatedDbKey f.memory f.keyPtr
    (lenU32 (asBytes key))) at hargs
  simp only [Numax.dbGet, if_neg hallowed, Backend.dbGet, HostState.backend_store]
  generalize readValidatedDbKey f.memory f.keyPtr _ = read at hargs
  generalize checkKey key = check at hargs
  have hcode {code : Int} {result : SdkResult} := @code_attempt (orNone .ofDbCode)
    (fun out => .ok (.bytes (some out))) f cap { h with memory := some f.memory } code result
  cases hargs with
  | refused code_eq => cases code_eq <;> exact hcode (by decide) (by decide) rfl
  | passed =>
    simp only
    cases h.store.get env.fault (asBytes key) with
    | error e => exact hcode (by decide) (by decide) rfl
    | ok found =>
      cases found with
      | none => exact hcode (by decide) (by decide) rfl
      | some value =>
        exact @writeOut_attempt _ _ f cap { h with memory := some f.memory } hf.room hcap _ _
          fun _ => rfl

/-! ### Fixed buffers and none -/

theorem ofLeI64_leBytesI64 {n : Int} (hlow : -2 ^ 63 ≤ n) (hhigh : n < 2 ^ 63) :
    ofLeI64 (leBytesI64 n) = n := by
  have hmod : ofLe (leBytesI64 n) = (n % 2 ^ 64).toNat := by
    rw [leBytesI64, ofLe_leBytes]
    exact Nat.mod_eq_of_lt (by omega)
  rw [ofLeI64, hmod]
  split <;> omega

theorem PNCounter.value_range (c : PNCounter) : -2 ^ 63 ≤ c.value ∧ c.value < 2 ^ 63 := by
  unfold PNCounter.value clampI64
  omega

/-- The host writes the eight bytes of a counter, and the guest finds them. -/
theorem counterValue_refines {c : CrdtQuery} {result : Bytes → SdkValue}
    {encode : Registries → String → Bytes} {f : CallFrame} {store : Store}
    {sync : Option SyncState} (hf : f.Holds (.query c) 8) (hcheck : c.check = checkKey c.slices.key)
    (hlen : ∀ r, (encode r c.slices.key).length = 8)
    (hanswer : ∀ r, c.answer r = .ok (result (encode r c.slices.key))) :
    (fun p : HostState × Int × Bytes => (p.1.backend, counterResult result p.2.1 p.2.2))
      (f.reply 8 (counterValue ⟨some f.memory, store, sync⟩ f.keyPtr (lenU32 (asBytes c.slices.key))
        f.outPtr 8 encode)) = (⟨store, sync⟩, Backend.query ⟨store, sync⟩ c) := by
  have hargs : Checked c.slices.key c.check (readValidatedKey f.memory f.keyPtr
      (lenU32 (asBytes c.slices.key))) := by
    rw [hcheck]
    exact checked_key hf.key_at
  have hroom : ¬ UInt32.toNat 8 < 8 := by decide
  simp only [counterValue, if_neg hroom, Backend.query]
  generalize readValidatedKey f.memory f.keyPtr _ = read at hargs
  generalize c.check = check at hargs
  cases hargs with
  | refused code_eq => cases code_eq <;> rfl
  | passed =>
  cases sync with
  | none => rfl
  | some sync =>
    have hfits : (encode sync.registries c.slices.key).length ≤ 8 := (hlen _).le
    obtain ⟨memory', hwrite⟩ := GuestMemory.write_isSome hf.room hfits
    obtain ⟨out, hread, hout⟩ := read_of_write hf.room hfits hwrite
    -- the guest reads back the whole of its buffer
    have hwhole : out.length = 8 := by
      unfold GuestMemory.read at hread
      split at hread
      · cases hread
        rw [List.length_take, List.length_drop]
        unfold GuestMemory.size at *
        omega
      · cases hread
    rw [hlen, ← hwhole, List.take_length] at hout
    simp only [hwrite, CallFrame.reply, Option.bind_some, hread, Option.getD_some, hout,
      counterResult, if_true, hanswer]
    rfl

theorem counterCall_refines (encode : Registries → String → Bytes) {call : CallFrame → CrdtReadCall}
    {result : Bytes → SdkValue} (hg : g.Sound (.query c))
    (hcall : ∀ h f, crdtRead h (call f) =
      counterValue h f.keyPtr (lenU32 (asBytes c.slices.key)) f.outPtr 8 encode)
    (hcheck : c.check = checkKey c.slices.key) (hlen : ∀ r, (encode r c.slices.key).length = 8)
    (hanswer : ∀ r, c.answer r = .ok (result (encode r c.slices.key))) :
    Refines serde g h (.query c) (some (Sdk.counterCall g h call result)) := by
  refine ⟨(Sdk.counterCall g h call result).1, (Sdk.counterCall g h call result).2, 0, rfl, ?_⟩
  have hreads := @counterValue_refines c result encode _ h.store h.sync (hg 0 8 (by decide)) hcheck
    hlen hanswer
  rw [← hcall] at hreads
  exact hreads

theorem ofNat_ofLe_leBytes (n : UInt64) : UInt64.ofNat (ofLe (leBytes 8 n.toNat)) = n := by
  have hsmall : n.toNat < 256 ^ 8 := n.toNat_lt
  rw [ofLe_leBytes, Nat.mod_eq_of_lt hsmall, UInt64.ofNat_toNat]

/-- A question about an element. -/
theorem contained_refines {c : CrdtQuery} {arg : String} {maxLen : Nat}
    {test : Registries → String → String → Bool} {f : CallFrame} {store : Store}
    {sync : Option SyncState} (hf : f.Holds (.query c) 0) (harg : c.slices.arg = some arg)
    (hcheck : c.check = checkKeyAnd c.slices.key arg maxLen)
    (hanswer : ∀ r, c.answer r = .ok (.flag (test r c.slices.key arg))) :
    (fun p : HostState × Int => (p.1.backend, containsResult p.2))
      (contained ⟨some f.memory, store, sync⟩ f.keyPtr (lenU32 (asBytes c.slices.key)) f.argPtr
        (lenU32 (asBytes arg)) maxLen test) = (⟨store, sync⟩, Backend.query ⟨store, sync⟩ c) := by
  have hargs : Checked (c.slices.key, arg) c.check
      (readKeyAnd f.keyPtr (lenU32 (asBytes c.slices.key)) f.argPtr (lenU32 (asBytes arg)) maxLen
        f.memory) := by
    rw [hcheck]
    exact checked_keyAnd hf.key_at (hf.arg_at arg harg)
  simp only [contained, Backend.query]
  generalize readKeyAnd _ _ _ _ _ f.memory = read at hargs
  generalize c.check = check at hargs
  cases hargs with
  | refused code_eq => cases code_eq <;> rfl
  | passed =>
  cases sync with
  | none => rfl
  | some sync =>
    simp only [hanswer]
    cases test sync.registries c.slices.key arg <;> rfl

theorem onceContains_refines (arg : String) (maxLen : Nat)
    (test : Registries → String → String → Bool) {call : CallFrame → CrdtReadCall}
    (hg : g.Sound (.query c))
    (hcall : ∀ h f, crdtRead h (call f) =
      contained h f.keyPtr (lenU32 (asBytes c.slices.key)) f.argPtr (lenU32 (asBytes arg))
        maxLen test)
    (harg : c.slices.arg = some arg) (hcheck : c.check = checkKeyAnd c.slices.key arg maxLen)
    (hanswer : ∀ r, c.answer r = .ok (.flag (test r c.slices.key arg))) :
    Refines serde g h (.query c)
      (some (g.once h (fun _ h f => crdtRead h (call f)) containsResult)) := by
  refine ⟨_, _, 0, rfl, ?_⟩
  have hreads := @contained_refines c arg maxLen test _ h.store h.sync (hg 0 0 (Nat.zero_le _))
    harg hcheck hanswer
  rw [← hcall] at hreads
  exact hreads

/-- A change of the store. -/
theorem dbSet_refines (hf : f.Holds (.dbSet key value) 0) :
    (fun p : HostState × Int => (p.1.backend, mapUnitResult .ofDbCode p.2))
      (Numax.dbSet env.fault { h with memory := some f.memory } f.keyPtr (lenU32 (asBytes key))
        f.valuePtr (lenU32 value)) = h.backend.dbSet env key value := by
  have hargs : Checked (asBytes key) (checkKey key)
    (readValidatedDbKey f.memory f.keyPtr (lenU32 (asBytes key))) := checked_dbKey hf.key_at
  have hvalue : f.memory.Placed f.valuePtr value := hf.value_at value rfl
  have hread : value.length ≤ maxValueLen →
      readBytes f.memory f.valuePtr (lenU32 value) = some value := by
    intro hallowed
    have hmax : ¬ value.length > maxReadLen := Nat.not_lt.mpr hallowed
    rw [readBytes, hvalue.toNat_lenU32, if_neg hmax, hvalue.read_eq]
  simp only [Numax.dbSet, hvalue.toNat_lenU32, Backend.dbSet, Backend.dbUpdate, checkLen]
  split
  · rfl
  · next hallowed =>
      rw [hread (Nat.le_of_not_gt hallowed)]
      generalize readValidatedDbKey f.memory f.keyPtr _ = read at hargs
      generalize checkKey key = check at hargs
      cases hargs with
      | refused code_eq => cases code_eq <;> rfl
      | passed =>
        simp only [bind, Except.bind, HostState.backend_store]
        cases h.store.set env.fault (asBytes key) value <;> rfl

theorem dbDelete_refines (hf : f.Holds (.dbDelete key) 0) :
    (fun p : HostState × Int => (p.1.backend, mapUnitResult .ofDbCode p.2))
      (Numax.dbDelete env.fault { h with memory := some f.memory } f.keyPtr
        (lenU32 (asBytes key))) = h.backend.dbDelete env key := by
  have hargs : Checked (asBytes key) (checkKey key)
    (readValidatedDbKey f.memory f.keyPtr (lenU32 (asBytes key))) := checked_dbKey hf.key_at
  simp only [Numax.dbDelete, Backend.dbDelete, Backend.dbUpdate]
  generalize readValidatedDbKey f.memory f.keyPtr _ = read at hargs
  generalize checkKey key = check at hargs
  cases hargs with
  | refused code_eq => cases code_eq <;> rfl
  | passed =>
    simp only [HostState.backend_store]
    cases h.store.delete env.fault (asBytes key) <;> rfl

theorem dbExists_refines (hf : f.Holds (.dbExists key) 0) :
    (fun p : HostState × Int => (p.1.backend, existsResult p.2))
      (Numax.dbExists env.fault { h with memory := some f.memory } f.keyPtr
        (lenU32 (asBytes key))) = (h.backend, h.backend.dbExists env key) := by
  have hargs : Checked (asBytes key) (checkKey key)
    (readValidatedDbKey f.memory f.keyPtr (lenU32 (asBytes key))) := checked_dbKey hf.key_at
  simp only [Numax.dbExists, Backend.dbExists]
  generalize readValidatedDbKey f.memory f.keyPtr _ = read at hargs
  generalize checkKey key = check at hargs
  cases hargs with
  | refused code_eq => cases code_eq <;> rfl
  | passed =>
    simp only [HostState.backend_store]
    cases h.store.existsKey env.fault (asBytes key) with
    | error e => rfl
    | ok found => cases found <;> rfl

theorem readCodes_failWith : ReadCodes (failWith .ofCode) where
  refused h := congrArg callFailed h.ofCode
  disabled := rfl

theorem readCodes_orNone : ReadCodes (orNone .ofCode) where
  refused h := by cases h <;> rfl
  disabled := rfl

/-- The functions that change a CRDT. -/
theorem write_refines {c : CrdtWrite} (hg : g.Sound (.write c)) (hfuel : 14 < fuel) :
    Refines serde g h (.write c) (Sdk.call serde w fuel g h (.write c)) := by
  have hf := hg 0 0 (Nat.zero_le _)
  cases c with
  | gcounterInc key delta =>
    exact unitCall_refines (localCall_refines (checked_key hf.key_at)
      (fun sync => @Plans.publish sync.registries (.gcounterIncrement _ _ key delta) rfl) rfl rfl)
  | pncounterInc key delta =>
    exact unitCall_refines (localCall_refines (checked_key hf.key_at)
      (fun sync => @Plans.publish sync.registries (.pncounterIncrement _ _ key delta) rfl)
      rfl rfl)
  | pncounterDec key delta =>
    exact unitCall_refines (localCall_refines (checked_key hf.key_at)
      (fun sync => @Plans.publish sync.registries (.pncounterDecrement _ _ key delta) rfl)
      rfl rfl)
  | lwwSet key value =>
    exact unitCall_refines (localCall_refines ((checked_key hf.key_at).bind
      ((checked_value (hf.value_at value rfl)).bind ((checked_clock _).map _)))
      (fun sync => plans_lwwSet _ sync key value _) rfl rfl)
  | lwwMapSet key field value =>
    exact unitCall_refines (localCall_refines ((checked_key hf.key_at).bind
      ((checked_text (hf.arg_at field rfl)).bind ((checked_value (hf.value_at value rfl)).bind
        ((checked_clock _).map _))))
      (fun sync => @Plans.publish sync.registries (.lwwMapSet _ _ key field value _) rfl) rfl rfl)
  | lwwMapRemove key field =>
    exact unitCall_refines (localCall_refines ((checked_key hf.key_at).bind
      ((checked_text (hf.arg_at field rfl)).bind ((checked_clock _).map _)))
      (fun sync => @Plans.publish sync.registries (.lwwMapRemove _ _ key field _) rfl) rfl rfl)
  | orsetAdd key element =>
    exact unitCall_refines (localCall_refines ((checked_key hf.key_at).bind
      ((checked_text (hf.arg_at element rfl)).map _))
      (fun sync => @Plans.publish sync.registries (.orsetAddWithOpIdTag _ _ key element) rfl)
      rfl rfl)
  | orsetRemove key element =>
    exact unitCall_refines (localCall_refines ((checked_key hf.key_at).bind
      ((checked_text (hf.arg_at element rfl)).map _))
      (fun sync => plans_orsetRemove _ sync key element) rfl rfl)
  | rgaInsertAfter key parent value =>
    -- the one change with an answer, for which the buffer may grow
    refine growLoop_spec (fun h' attempt cap hb hcap => ?_) 14 rfl rfl hfuel
    rw [CallSite.invoke_eq, ← hb]
    exact rgaInsert_attempt hcap (hg attempt cap hcap)
  | rgaDelete key id =>
    exact unitCall_refines (localCall_refines ((checked_key hf.key_at).bind
      ((checked_text (hf.arg_at id rfl)).map _))
      (fun sync => @Plans.publish sync.registries (.rgaDelete _ _ key id) rfl) rfl rfl)

/-- The functions that read a CRDT. -/
theorem query_refines (hg : g.Sound (.query c)) (hfuel : 14 < fuel) :
    Refines serde g h (.query c) (Sdk.call serde w fuel g h (.query c)) := by
  cases c with
  | gcounterValue key =>
    refine counterCall_refines gcounterBytes hg (fun _ _ => rfl) rfl
      (fun _ => length_leBytes 8 _) fun r => ?_
    rw [CrdtQuery.answer, gcounterBytes, ofNat_ofLe_leBytes]
    rfl
  | pncounterValue key =>
    refine counterCall_refines pncounterBytes hg (fun _ _ => rfl) rfl
      (fun _ => length_leBytes 8 _) fun r => ?_
    -- a clamped value survives the way through its eight bytes
    have hrange : -2 ^ 63 ≤ (r.pncounters[key]?).elim 0 PNCounter.value ∧
        (r.pncounters[key]?).elim 0 PNCounter.value < 2 ^ 63 := by
      cases r.pncounters[key]? with
      | none => decide
      | some counter => exact counter.value_range
    rw [CrdtQuery.answer, CrdtQuery.slices, pncounterBytes,
      ofLeI64_leBytesI64 hrange.1 hrange.2]
  | lwwGet key =>
    refine growingRead_refines key lwwBytes hg hfuel (fun _ _ _ => rfl)
      (fun _ _ hf => checked_key hf.key_at) readCodes_orNone fun r => ?_
    simp only [CrdtQuery.answer, lwwBytes]
    cases r.lwwRegisters[key]? with
    | none => exact .refused (by decide) (by decide) rfl
    | some register => exact .encoded fun _ => rfl
  | lwwMapGet key field =>
    refine growingRead_refines (key, field) lwwMapBytes hg hfuel (fun _ _ _ => rfl)
      (fun _ _ hf => checked_keyAnd hf.key_at (hf.arg_at field rfl)) readCodes_orNone fun r => ?_
    simp only [CrdtQuery.answer, lwwMapBytes]
    cases r.lwwMaps[key]? with
    | none => exact .refused (by decide) (by decide) rfl
    | some map =>
      simp only [Option.bind_some]
      cases map.getBytes field with
      | none => exact .refused (by decide) (by decide) rfl
      | some value => exact .encoded fun _ => rfl
  | lwwMapContains key field =>
    exact onceContains_refines field maxFieldLen hasField hg (fun _ _ => rfl) rfl rfl fun _ => rfl
  | lwwMapEntries key =>
    exact growingRead_refines key lwwMapEntriesBytes hg hfuel (fun _ _ _ => rfl)
      (fun _ _ hf => checked_key hf.key_at) readCodes_failWith fun r =>
        answers_list inverse_entry encodeLwwMapEntry_internalOnly .entries _
  | orsetContains key element =>
    exact onceContains_refines element maxElementLen hasElement hg (fun _ _ => rfl) rfl rfl
      fun _ => rfl
  | orsetElements key =>
    exact growingRead_refines key orsetElementsBytes hg hfuel (fun _ _ _ => rfl)
      (fun _ _ hf => checked_key hf.key_at) readCodes_failWith fun r =>
        answers_list inverse_text (fun text => encodeSized_internalOnly (asBytes text)) .texts _
  | rgaValues key =>
    exact growingRead_refines key rgaValuesBytes hg hfuel (fun _ _ _ => rfl)
      (fun _ _ hf => checked_key hf.key_at) readCodes_failWith fun r =>
        answers_list inverse_sized encodeSized_internalOnly .chunks _

/-- Every function of the library. -/
theorem call_refines {c : SdkCall} (hg : g.Sound c) (hfuel : 14 < fuel) :
    Refines serde g h c (Sdk.call serde w fuel g h c) := by
  have hf := hg 0 0 (Nat.zero_le _)
  cases c with
  | dbSet key value => exact ⟨_, _, 0, rfl, dbSet_refines hf⟩
  | dbDelete key => exact ⟨_, _, 0, rfl, dbDelete_refines hf⟩
  | dbExists key => exact ⟨_, _, 0, rfl, dbExists_refines hf⟩
  | dbGet key =>
    refine growLoop_spec (fun h' attempt cap hb hcap => ?_) 14 rfl rfl hfuel
    rw [CallSite.invoke_eq, ← hb]
    exact dbGet_attempt hcap (hg attempt cap hcap)
  | write c => exact write_refines hg hfuel
  | query c => exact query_refines hg hfuel

end Calls

/-! ## Failures -/

/-- The errors of a call. What is not there is an answer, and every code is known. -/
def NxError.isExpected : NxError → Bool
  | .internal | .bufferTooSmall | .reservedKey | .syncDisabled => true
  | .notFound | .unknownCode _ => false

/-- The call does not panic, and its error is one of the four. -/
def Expected (result : SdkResult) : Prop :=
  ∀ failure, result = .error failure → ∃ error, failure = .error error ∧ error.isExpected = true

/-- What the checks refuse a call with. -/
def ChecksExpected (check : Except NxError Unit) : Prop :=
  ∀ error, check = .error error → error.isExpected = true

namespace ChecksExpected

theorem ok : ChecksExpected (.ok ()) := nofun

theorem key (key : String) : ChecksExpected (checkKey key) := by
  unfold checkKey
  split
  · rintro _ ⟨⟩
    rfl
  · split
    · rintro _ ⟨⟩
      rfl
    · exact ok

theorem len (bytes : Bytes) (maxLen : Nat) : ChecksExpected (checkLen bytes maxLen) := by
  unfold checkLen
  split
  · rintro _ ⟨⟩
    rfl
  · exact ok

theorem clock (env : CallEnv) : ChecksExpected (checkClock env) := by
  unfold checkClock
  split
  · rintro _ ⟨⟩
    rfl
  · exact ok

theorem bind {x y : Except NxError Unit} (hx : ChecksExpected x) (hy : ChecksExpected y) :
    ChecksExpected (x >>= fun _ => y) := by
  cases x with
  | error error => rintro _ ⟨⟩; exact hx error rfl
  | ok => exact hy

theorem write (env : CallEnv) (c : CrdtWrite) : ChecksExpected (c.check env) := by
  cases c with
  | gcounterInc | pncounterInc | pncounterDec => exact key _
  | orsetAdd | orsetRemove | rgaDelete => exact bind (key _) (len _ _)
  | lwwSet | lwwMapRemove => exact bind (key _) (bind (len _ _) (clock env))
  | lwwMapSet => exact bind (key _) (bind (len _ _) (bind (len _ _) (clock env)))
  | rgaInsertAfter => exact bind (key _) (bind (len _ _) (len _ _))

theorem query (c : CrdtQuery) : ChecksExpected c.check := by
  cases c with
  | lwwMapGet | lwwMapContains | orsetContains => exact bind (key _) (len _ _)
  | gcounterValue | pncounterValue | lwwGet | lwwMapEntries | orsetElements | rgaValues =>
    exact key _

end ChecksExpected

namespace Expected

theorem ok (value : SdkValue) : Expected (.ok value) := nofun

theorem failed {error : NxError} (h : error.isExpected = true) : Expected (callFailed error) := by
  rintro _ ⟨⟩
  exact ⟨error, rfl, h⟩

theorem sized (len : Nat) (value : SdkValue) : Expected (sized len value) := by
  unfold Numax.sized
  split
  · exact failed rfl
  · exact ok value

theorem listed (encoded : Except Int Bytes) (value : SdkValue) :
    Expected (listed encoded value) := by
  cases encoded with
  | error => exact failed rfl
  | ok encoded => exact sized encoded.length value

theorem answer (r : Registries) (c : CrdtQuery) : Expected (c.answer r) := by
  cases c with
  | gcounterValue | pncounterValue | lwwMapContains | orsetContains => exact ok _
  | lwwMapEntries | orsetElements | rgaValues => exact listed _ _
  | lwwGet | lwwMapGet =>
    simp only [CrdtQuery.answer]
    split
    · exact ok _
    · exact sized _ _

theorem issue {serde : Serde} {b : Backend} {sync : SyncState} {op : Op} {error : NxError}
    (h : b.issue serde env sync op = .error error) :
    error.isExpected = true := by
  unfold Backend.issue at h
  split at h
  · split at h
    · cases h
      rfl
    · cases h
  · cases h

theorem write (serde : Serde) (env : CallEnv) (b : Backend) (c : CrdtWrite) :
    Expected (b.write serde env c).2 := by
  unfold Backend.write
  split
  · next hcheck => exact failed (ChecksExpected.write env c _ hcheck)
  · split
    · exact failed rfl
    · split
      · exact failed rfl
      · split
        · exact failed rfl
        · split
          · exact ok _
          · split
            · next hissue => exact failed (issue hissue)
            · exact ok _

theorem dbUpdate (b : Backend) {check : Except NxError Unit} (hcheck : ChecksExpected check)
    (access : Store → Except StoreError Store) : Expected (b.dbUpdate check access).2 := by
  unfold Backend.dbUpdate
  split
  · exact failed (hcheck _ rfl)
  · split
    · exact failed rfl
    · exact ok _

theorem call (serde : Serde) (env : CallEnv) (b : Backend) (c : SdkCall) :
    Expected (b.call serde env c).2 := by
  cases c with
  | dbSet key value => exact dbUpdate b (.bind (.len _ _) (.key key)) _
  | dbDelete key => exact dbUpdate b (.key key) _
  | dbExists key | dbGet key =>
    simp only [Backend.call, Backend.dbExists, Backend.dbGet]
    split
    · next hcheck => exact failed (ChecksExpected.key key _ hcheck)
    · split
      all_goals first | exact failed rfl | exact ok _ | exact sized _ _
  | write c => exact write serde env b c
  | query c =>
    simp only [Backend.call, Backend.query]
    split
    · next hcheck => exact failed (ChecksExpected.query c _ hcheck)
    · split
      · exact failed rfl
      · exact answer _ c

end Expected

/-! ## Sessions -/

/-- Whatever calls a guest makes, wherever its slices lie and however often a buffer has to
grow: the library returns, and the results and the state of the node are those of the typed
interface. So no call panics or fails with a code it does not know. -/
theorem sdkSession_refines (serde : Serde) (w : UsizeWidth) {fuel : Nat} (hfuel : 14 < fuel)
    (h : HostState) (steps : List (SdkCall × CallSite))
    (hsound : ∀ step ∈ steps, step.2.Sound step.1) :
    ∃ after results envs, Sdk.session serde w fuel h steps = some (after, results) ∧
      List.Forall₂ (fun step env => ∃ attempt, env = step.2.env attempt) steps envs ∧
      h.backend.session serde ((steps.map Prod.fst).zip envs) = (after.backend, results) ∧
      ∀ result ∈ results, Expected result := by
  -- each call starts in the state that the one before has left
  induction steps generalizing h with
  | nil => exact ⟨h, [], [], rfl, .nil, rfl, nofun⟩
  | cons step rest ih =>
    obtain ⟨c, g⟩ := step
    obtain ⟨next, r, attempt, hcall, hrefines⟩ := @call_refines serde w fuel g h c
      (hsound (c, g) List.mem_cons_self) hfuel
    obtain ⟨after, results, envs, hsession, henvs, hbackend, hexpected⟩ :=
      ih next fun step hstep => hsound step (List.mem_cons_of_mem _ hstep)
    refine ⟨after, r :: results, g.env attempt :: envs, ?_, .cons ⟨attempt, rfl⟩ henvs, ?_,
      List.forall_mem_cons.mpr ⟨?_, hexpected⟩⟩
    · simp only [Sdk.session, hcall, hsession, Option.bind_eq_bind, Option.bind_some]
      rfl
    · simp only [List.map_cons, List.zip_cons_cons, Backend.session, ← hrefines, hbackend]
    · have hcall := Expected.call serde (g.env attempt) h.backend c
      rw [← hrefines] at hcall
      exact hcall

/-- Key, second text, value and buffer one after the other. -/
def flatSite (env : CallEnv) (c : SdkCall) : CallSite where
  frame _ cap :=
    { memory := ⟨asBytes c.slices.key ++ asBytes (c.slices.arg.getD "") ++ c.slices.value.getD [] ++
        List.replicate cap 0⟩
      keyPtr := 0
      argPtr := UInt32.ofNat (asBytes c.slices.key).length
      valuePtr := UInt32.ofNat ((asBytes c.slices.key).length +
        (asBytes (c.slices.arg.getD "")).length)
      outPtr := UInt32.ofNat ((asBytes c.slices.key).length +
        (asBytes (c.slices.arg.getD "")).length + (c.slices.value.getD []).length) }
  env _ := env

/-- A part of a memory is placed where it begins. -/
theorem placed_append (before bytes rest : Bytes)
    (h : before.length + bytes.length ≤ maxSdkBuffer) :
    GuestMemory.Placed ⟨before ++ bytes ++ rest⟩ (UInt32.ofNat before.length) bytes where
  short := by unfold maxSdkBuffer at h; omega
  read_eq := by
    have hptr : (UInt32.ofNat before.length).toNat = before.length :=
      toNat_ofNat_of_le ((Nat.le_add_right _ _).trans h)
    rw [hptr]
    simp [GuestMemory.read, GuestMemory.size, List.append_assoc]

theorem flatSite_sound (env : CallEnv) (c : SdkCall)
    (hlen : (asBytes c.slices.key).length + (asBytes (c.slices.arg.getD "")).length +
      (c.slices.value.getD []).length ≤ maxSdkBuffer) : (flatSite env c).Sound c := by
  intro attempt cap hcap
  refine ⟨?_, fun arg harg => ?_, fun value hvalue => ?_, ?_⟩
  · have hplaced := placed_append [] (asBytes c.slices.key)
      (asBytes (c.slices.arg.getD "") ++ c.slices.value.getD [] ++ List.replicate cap 0)
      (by simp only [List.length_nil]; omega)
    simp only [List.nil_append, ← List.append_assoc] at hplaced
    exact hplaced
  · have hplaced := placed_append (asBytes c.slices.key) (asBytes arg) (c.slices.value.getD [] ++
      List.replicate cap 0) (by rw [harg] at hlen; simp only [Option.getD_some] at hlen; omega)
    simp only [← List.append_assoc] at hplaced
    simp only [flatSite, harg, Option.getD_some]
    exact hplaced
  · have hplaced := placed_append (asBytes c.slices.key ++ asBytes (c.slices.arg.getD "")) value
      (List.replicate cap 0) (by
        rw [hvalue] at hlen
        simp only [Option.getD_some] at hlen
        rw [List.length_append]
        omega)
    rw [List.length_append] at hplaced
    simp only [flatSite, hvalue, Option.getD_some]
    exact hplaced
  · simp only [flatSite]
    rw [toNat_ofNat_of_le hlen]
    simp [GuestMemory.size, Nat.add_assoc]

/-- A node with sync enabled. -/
def freshHost : HostState where
  memory := none
  store := ∅
  sync := some
    { nodeId := "a"
      opQueue := { capacity := 4 }
      seenOps := SeenOps.new 4
      opLogLimit := 4 }

def helloEnv : CallEnv where
  now := some 7
  opId := "2f1c7b0e-5d3a-4f6b-9e8d-1a2b3c4d5e6f"

/-- A register is written and read, an element inserted, and a reserved key refused. -/
def helloCalls : List SdkCall :=
  [.write (.lwwSet "k" [1, 2]), .query (.lwwGet "k"), .write (.rgaInsertAfter "k" none [3]),
    .query (.rgaValues "k"), .dbSet "__nx/x" [4]]

theorem sdkSession_refines_hello :
    ∃ after, Sdk.session jsonSerde .bits32 15 freshHost
      (helloCalls.map fun c => (c, flatSite helloEnv c)) =
        some (after, [.ok .unit, .ok (.bytes (some [1, 2])), .ok (.id helloEnv.opId),
          .ok (.chunks [[3]]), callFailed .reservedKey]) := by
  have hsound : ∀ step ∈ helloCalls.map fun c => (c, flatSite helloEnv c),
      step.2.Sound step.1 := by
    intro step hstep
    obtain ⟨c, hc, rfl⟩ := List.mem_map.mp hstep
    have hall : ∀ c ∈ helloCalls,
        (asBytes c.slices.key).length + (asBytes (c.slices.arg.getD "")).length +
          (c.slices.value.getD []).length ≤ maxSdkBuffer := by decide +kernel
    exact flatSite_sound helloEnv c (hall c hc)
  obtain ⟨after, results, envs, hsession, henvs, hbackend, -⟩ :=
    sdkSession_refines jsonSerde .bits32 (by decide : 14 < 15) freshHost _ hsound
  obtain _ | ⟨⟨_, rfl⟩, _ | ⟨⟨_, rfl⟩, _ | ⟨⟨_, rfl⟩, _ | ⟨⟨_, rfl⟩, _ | ⟨⟨_, rfl⟩, _ | _⟩⟩⟩⟩⟩ :=
    henvs
  have hresults : (freshHost.backend.session jsonSerde (helloCalls.map fun c => (c, helloEnv))).2 =
      [.ok .unit, .ok (.bytes (some [1, 2])), .ok (.id helloEnv.opId), .ok (.chunks [[3]]),
        callFailed .reservedKey] := by decide +kernel
  refine ⟨after, hsession.trans (congrArg (fun results => some (after, results)) ?_)⟩
  exact (congrArg Prod.snd hbackend).symm.trans hresults

end Numax
