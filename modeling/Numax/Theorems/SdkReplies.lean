import Numax.Sdk.Placement
import Numax.Host.CallOutcome
import Numax.Theorems.FullScan

/-!
# Replies of the host to the guest library

The parts that the functions of the library share. A change takes effect as one operation
(`localCall_refines`). A loop with a growing buffer ends with the result that is wanted at
one of its attempts (`growLoop_spec`), and a result that the host writes out is the one the
library finds (`writeOut_attempt`) and parses (`answers_list`).
-/

open Base Std

namespace Numax

/-! ## Changes -/

variable {code : Int} {error : NxError}

/-- The codes of refused arguments have the same meaning in all functions. -/
theorem Refuses.ofCode (h : Refuses code error) :
    NxError.ofCode code = error := by
  cases h <;> rfl

theorem Refuses.negative (h : Refuses code error) : code < 0 := by
  cases h <;> decide

theorem Refuses.large (h : Refuses code error) :
    code ≠ errBufTooSmall := by
  cases h <;> decide

theorem Refuses.mapUnitResult (h : Refuses code error) :
    Numax.mapUnitResult .ofCode code = callFailed error := by
  cases h <;> rfl

section Changes

variable {serde : Serde} {env : CallEnv} {h : HostState} {memory : GuestMemory}

/-- The state and the result after a call that returns nothing. -/
def unitOutcome (p : HostState × Int) : Backend × SdkResult :=
  (p.1.backend, mapUnitResult .ofCode p.2)

theorem localCall_refines {α : Type} {readArgs : GuestMemory → Except Int α}
    {plan : SyncState → α → LocalPlan} {args : α} {c : CrdtWrite}
    (hargs : Checked args (c.check env) (readArgs memory))
    (hplan : ∀ sync, Plans sync.registries (plan sync args) (c.op env sync))
    (hunit : c.answer env = .unit) (hlen : c.answerLen env = 0) :
    unitOutcome (localCall serde env { h with memory := some memory } readArgs plan) =
      h.backend.write serde env c := by
  unfold localCall Backend.write
  generalize c.check env = check at hargs
  simp only [hunit, hlen]
  generalize readArgs memory = read at hargs
  cases hargs with
  | refused code_eq => exact congrArg (Prod.mk h.backend) code_eq.mapUnitResult
  | passed =>
    simp only [HostState.backend_sync]
    cases hsync : h.sync with
    | none => simp [unitOutcome, HostState.backend, hsync, mapUnitResult, callFailed,
        NxError.ofCode, errSyncDisabled, errInternal, errReservedKey]
    | some sync =>
      simp only
      have hbackend : h.backend = { store := h.store, sync := some sync } := by
        rw [HostState.backend, hsync]
      cases hpermit : sync.opQueue.tryReserve with
      | none => rw [hbackend]; rfl
      | some permit =>
        have hsame : ({ sync with opQueue := permit.release } : SyncState) = sync := by
          rw [OpQueue.release_of_tryReserve hpermit]
        simp only [hsame, OpQueue.send_of_tryReserve hpermit, Option.isNone_some,
          Bool.false_eq_true, if_false, Nat.not_lt_zero]
        have hplans := hplan sync
        generalize c.op env sync = op at hplans
        generalize plan sync args = p at hplans
        cases hplans with
        | unchanged => rw [hbackend]; rfl
        | queueOnly lost => simp only [Backend.issue, lost]; rw [hbackend]; rfl
        | publish kept =>
          simp only [Backend.issue, kept, if_true, insert_newEntry, hbackend]
          cases persistState serde env.fault h.store _ _ _ with
          | error e => rfl
          | ok store => rfl

end Changes

/-! ## Growing buffers -/

/-- What one attempt of the loop gives: the result that is wanted, or the wish for a larger
buffer, after which everything is as before. With the largest buffer that wish is the
result. -/
inductive Attempt (negative : Int → SdkResult) (finish : Bytes → SdkResult) (b : Backend)
    (wanted : Backend × SdkResult) (cap : Nat) : HostState × Int × Bytes → Prop
  | again {after : HostState} {out : Bytes} (same : after.backend = b)
      (largest : cap = maxSdkBuffer → wanted = (b, callFailed .bufferTooSmall)) :
      Attempt negative finish b wanted cap (after, errBufTooSmall, out)
  | settled {after : HostState} {n : Int} {out : Bytes} (large : n ≠ errBufTooSmall)
      (result : (after.backend, if n < 0 then negative n else finish (out.take n.toNat)) =
        wanted) :
      Attempt negative finish b wanted cap (after, n, out)

section Loop

variable {w : UsizeWidth} {g : CallSite}
  {call : (cap : UInt32) → CallEnv → HostState → CallFrame → HostState × Int}
  {negative : Int → SdkResult} {finish : Bytes → SdkResult} {b : Backend}
  {wanted : Nat → Backend × SdkResult}

theorem saturatingMul_two {cap : Nat} (h : cap ≤ maxSdkBuffer) :
    saturatingMul w cap 2 = cap * 2 := by
  have hmax : maxSdkBuffer * 2 ≤ w.max := by cases w <;> decide
  exact min_eq_left (by omega)

/-- The loop, with `k` doublings left, ends with what is wanted at one of its attempts. -/
theorem growLoop_spec
    (hattempt : ∀ h attempt cap, h.backend = b → cap ≤ maxSdkBuffer →
      Attempt negative finish b (wanted attempt) cap
        (g.invoke h (call (UInt32.ofNat cap)) attempt cap))
    (k : Nat) {fuel attempt cap : Nat} {h : HostState} (hb : h.backend = b)
    (hcap : cap * 2 ^ k = maxSdkBuffer) (hfuel : k < fuel) :
    ∃ after r i, growLoop w g call negative finish fuel attempt cap h = some (after, r) ∧
      (after.backend, r) = wanted i := by
  induction k generalizing fuel attempt cap h with
  | zero =>
    rw [Nat.pow_zero, Nat.mul_one] at hcap
    obtain ⟨fuel, rfl⟩ := Nat.exists_eq_succ_of_ne_zero (Nat.ne_of_gt hfuel)
    have hanswer := hattempt h attempt cap hb hcap.le
    rw [growLoop]
    generalize g.invoke h (call (UInt32.ofNat cap)) attempt cap = answer at hanswer
    cases hanswer with
    | again same largest =>
      -- even the largest buffer is too small, and the loop gives up
      have hover : saturatingMul w cap 2 > maxSdkBuffer := by
        rw [saturatingMul_two hcap.le, hcap]
        decide
      refine ⟨_, _, attempt, by simp only [if_true, if_pos hover]; rfl, ?_⟩
      rw [largest hcap, same]
      rfl
    | settled large result =>
      simp only [if_neg large]
      split at result <;> exact ⟨_, _, attempt, by simp only [*, if_true, if_false], result⟩
  | succ k ih =>
    obtain ⟨fuel, rfl⟩ := Nat.exists_eq_succ_of_ne_zero (Nat.ne_of_gt (Nat.zero_lt_of_lt hfuel))
    have hpow : 1 ≤ 2 ^ k := Nat.one_le_two_pow
    have hhalf : cap * 2 * 2 ^ k = maxSdkBuffer := by rw [← hcap, Nat.pow_succ]; ring
    have hnext : cap * 2 ≤ maxSdkBuffer := by
      rw [← hhalf]
      exact Nat.le_mul_of_pos_right _ hpow
    have hanswer := hattempt h attempt cap hb (by omega)
    rw [growLoop]
    generalize g.invoke h (call (UInt32.ofNat cap)) attempt cap = answer at hanswer
    cases hanswer with
    | again same largest =>
      -- nothing has changed, so that the next attempt starts from here
      simp only [if_true]
      rw [saturatingMul_two (by omega), if_neg (Nat.not_lt.mpr hnext)]
      exact ih same hhalf (by omega)
    | settled large result =>
      simp only [if_neg large]
      split at result <;> exact ⟨_, _, attempt, by simp only [*, if_true, if_false], result⟩

end Loop

/-- What the guest finds after a call of the host. -/
def CallFrame.reply (f : CallFrame) (cap : Nat) (p : HostState × Int) : HostState × Int × Bytes :=
  (p.1, p.2, (p.1.memory.bind fun memory => memory.read f.outPtr.toNat cap).getD [])

theorem CallSite.invoke_eq (g : CallSite) (h : HostState)
    (call : CallEnv → HostState → CallFrame → HostState × Int) (attempt cap : Nat) :
    g.invoke h call attempt cap =
      (g.frame attempt cap).reply cap (call (g.env attempt)
        { h with memory := some (g.frame attempt cap).memory } (g.frame attempt cap)) := rfl

section Replies

variable {negative : Int → SdkResult} {finish : Bytes → SdkResult} {f : CallFrame} {cap : Nat}

theorem GuestMemory.write_isSome {m : GuestMemory} {ptr cap : Nat} {data : Bytes}
    (hroom : ptr + cap ≤ m.size) (hfits : data.length ≤ cap) :
    ∃ m', m.write ptr data = some m' :=
  ⟨_, if_pos (by omega)⟩

/-- A result that the host writes out. -/
theorem writeOut_attempt {h : HostState} (hroom : f.outPtr.toNat + cap ≤ f.memory.size)
    (hcap : cap ≤ maxSdkBuffer) {encoded : Bytes} {value : SdkValue}
    (hfinish : encoded.length ≤ maxSdkBuffer → finish encoded = .ok value) :
    Attempt negative finish h.backend (h.backend, sized encoded.length value) cap
      (f.reply cap (writeOut h f.memory f.outPtr (UInt32.ofNat cap) encoded)) := by
  unfold writeOut
  rw [toNat_ofNat_of_le hcap]
  split
  · next hlong =>
      refine .again rfl fun hlargest => ?_
      rw [sized, if_pos (by omega)]
  · next hfits =>
      have hshort := Nat.le_of_not_gt hfits
      obtain ⟨memory', hwrite⟩ := GuestMemory.write_isSome hroom hshort
      obtain ⟨out, hread, hout⟩ := read_of_write hroom hshort hwrite
      have hsmall := hshort.trans hcap
      have hcode : asI32 encoded.length = encoded.length :=
        asI32_of_lt (by unfold maxSdkBuffer at hsmall; omega)
      simp only [hwrite, CallFrame.reply, Option.bind_some, hread, Option.getD_some, hcode]
      refine .settled (by unfold errBufTooSmall; omega) ?_
      rw [if_neg (by omega), Int.toNat_natCast, hout, hfinish hsmall, sized,
        if_neg (Nat.not_lt.mpr hsmall)]
      rfl

/-- A code that ends the loop. -/
theorem code_attempt {h : HostState} {code : Int} {result : SdkResult} (hneg : code < 0)
    (hlarge : code ≠ errBufTooSmall) (hresult : negative code = result) :
    Attempt negative finish h.backend (h.backend, result) cap (f.reply cap (h, code)) :=
  .settled hlarge (by rw [if_pos hneg, hresult])

end Replies

/-! ## Lists -/

theorem encodeLwwMapEntry_internalOnly (entry : String × Bytes) :
    InternalOnly (encodeLwwMapEntry entry) :=
  .bind (encodeLen_internalOnly _) fun _ => .bind (encodeLen_internalOnly _) fun _ => .pure _

/-- The bytes or the code of a host call, and the result that the library makes of them. -/
inductive Answers (negative : Int → SdkResult) (finish : Bytes → SdkResult) :
    Except Int Bytes → SdkResult → Prop
  | refused {code : Int} {result : SdkResult} (neg : code < 0) (large : code ≠ errBufTooSmall)
      (result_eq : negative code = result) : Answers negative finish (.error code) result
  | encoded {bytes : Bytes} {value : SdkValue}
      (finish_eq : bytes.length ≤ maxSdkBuffer → finish bytes = .ok value) :
      Answers negative finish (.ok bytes) (sized bytes.length value)

/-- The library parses the lists that the host encodes. -/
theorem answers_list {α : Type} {w : UsizeWidth} {put : α → Except Int Bytes}
    {get : Bytes → Nat → Except ParseError (α × Nat)} (hinv : Inverse w put get)
    (hput : ∀ a, InternalOnly (put a)) (value : List α → SdkValue) (items : List α) :
    Answers (failWith .ofCode) (fun out => parsed value (parseList w out get))
      (encodeList put items) (listed (encodeList put items) (value items)) := by
  cases hencoded : encodeList put items with
  | error code =>
    rw [encodeList_internalOnly hput items code hencoded]
    exact .refused (by decide) (by decide) rfl
  | ok bytes =>
    refine .encoded fun hfits => ?_
    have hslice : bytes.length ≤ w.isizeMax := hfits.trans (by cases w <;> decide)
    rw [hinv.parseList_encodeList hslice hencoded]
    rfl

end Numax
