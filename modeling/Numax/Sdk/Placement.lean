import Numax.Sdk.Backend

/-!
# The slices of a call in the guest's memory

Where the guest's allocator has placed the slices of a call (`CallFrame.Holds`), the host
reads them back and refuses the arguments that the typed interface refuses (`Checked`).
-/

open Base Std

namespace Numax

/-! ## Slices in memory -/

/-- A slice lies in the memory at a pointer. -/
structure GuestMemory.Placed (m : GuestMemory) (ptr : UInt32) (bytes : Bytes) : Prop where
  short : bytes.length < 2 ^ 32
  read_eq : m.read ptr.toNat bytes.length = some bytes

theorem GuestMemory.Placed.toNat_lenU32 {m : GuestMemory} {ptr : UInt32} {bytes : Bytes}
    (h : m.Placed ptr bytes) : (lenU32 bytes).toNat = bytes.length := by
  rw [lenU32, UInt32.toNat_ofNat']
  exact Nat.mod_eq_of_lt h.short

/-- The texts and the bytes that a call hands to the host. -/
structure CallSlices where
  key : String
  arg : Option String := none
  value : Option Bytes := none

def CrdtWrite.slices : CrdtWrite → CallSlices
  | gcounterInc key _ => { key }
  | pncounterInc key _ => { key }
  | pncounterDec key _ => { key }
  | lwwSet key value => { key, value := some value }
  | lwwMapSet key field value => { key, arg := some field, value := some value }
  | lwwMapRemove key field => { key, arg := some field }
  | orsetAdd key element => { key, arg := some element }
  | orsetRemove key element => { key, arg := some element }
  | rgaInsertAfter key parent value => { key, arg := parent, value := some value }
  | rgaDelete key id => { key, arg := some id }

def CrdtQuery.slices : CrdtQuery → CallSlices
  | gcounterValue key => { key }
  | pncounterValue key => { key }
  | lwwGet key => { key }
  | lwwMapGet key field => { key, arg := some field }
  | lwwMapContains key field => { key, arg := some field }
  | lwwMapEntries key => { key }
  | orsetContains key element => { key, arg := some element }
  | orsetElements key => { key }
  | rgaValues key => { key }

def SdkCall.slices : SdkCall → CallSlices
  | dbSet key value => { key, value := some value }
  | dbDelete key => { key }
  | dbExists key => { key }
  | dbGet key => { key }
  | write c => c.slices
  | query c => c.slices

/-- The slices of a call lie in the guest's memory, as the guest's allocator guarantees. -/
structure CallFrame.Holds (f : CallFrame) (c : SdkCall) (cap : Nat) : Prop where
  key_at : f.memory.Placed f.keyPtr (asBytes c.slices.key)
  arg_at : ∀ arg, c.slices.arg = some arg → f.memory.Placed f.argPtr (asBytes arg)
  value_at : ∀ value, c.slices.value = some value → f.memory.Placed f.valuePtr value
  room : f.outPtr.toNat + cap ≤ f.memory.size

/-- So it is at every attempt. -/
def CallSite.Sound (g : CallSite) (c : SdkCall) : Prop :=
  ∀ attempt cap, cap ≤ maxSdkBuffer → (g.frame attempt cap).Holds c cap

/-! ## Arguments -/

/-- The codes with which the host refuses arguments, and their names. -/
inductive Refuses : Int → NxError → Prop
  | internal : Refuses errInternal .internal
  | reserved : Refuses errReservedKey .reservedKey

/-- The host reads the arguments that the guest has placed, after the same checks. -/
inductive Checked {α : Type} (args : α) : Except NxError Unit → Except Int α → Prop
  | passed : Checked args (.ok ()) (.ok args)
  | refused {code : Int} {error : NxError} (code_eq : Refuses code error) :
      Checked args (.error error) (.error code)

section Arguments

variable {memory : GuestMemory} {ptr : UInt32}

theorem Checked.bind {α β : Type} {a : α} {b : β} {check check' : Except NxError Unit}
    {x : Except Int α} {f : α → Except Int β} (hx : Checked a check x)
    (hf : Checked b check' (f a)) : Checked b (check >>= fun _ => check') (x >>= f) := by
  cases hx with
  | passed => exact hf
  | refused code_eq => exact .refused code_eq

/-- The last step of a list of arguments. -/
theorem Checked.map {α β : Type} {a : α} {check : Except NxError Unit} {x : Except Int α}
    (hx : Checked a check x) (f : α → β) : Checked (f a) check (x >>= fun a => pure (f a)) := by
  cases hx with
  | passed => exact .passed
  | refused code_eq => exact .refused code_eq

theorem checked_key {key : String} (h : memory.Placed ptr (asBytes key)) :
    Checked key (checkKey key) (readValidatedKey memory ptr (lenU32 (asBytes key))) := by
  unfold checkKey readValidatedKey isReserved
  rw [h.toNat_lenU32, h.read_eq]
  simp only [fromUtf8_asBytes]
  split
  · exact .refused .internal
  · split
    · exact .refused .reserved
    · exact .passed

theorem checked_text {text : String} {maxLen : Nat} (h : memory.Placed ptr (asBytes text)) :
    Checked text (checkLen (asBytes text) maxLen)
      (readUtf8Arg memory ptr (lenU32 (asBytes text)) maxLen) := by
  unfold checkLen readUtf8Arg
  rw [h.toNat_lenU32, h.read_eq]
  simp only [fromUtf8_asBytes]
  split
  · exact .refused .internal
  · exact .passed

theorem checked_value {value : Bytes} (h : memory.Placed ptr value) :
    Checked value (checkLen value maxValueLen) (readValueBytes memory ptr (lenU32 value)) := by
  unfold checkLen readValueBytes
  rw [h.toNat_lenU32, h.read_eq]
  split
  · exact .refused .internal
  · exact .passed

theorem checked_clock (env : CallEnv) :
    Checked (env.now.getD 0) (checkClock env) (unixEpochMillis env) := by
  unfold checkClock unixEpochMillis
  cases env.now with
  | none => exact .refused .internal
  | some millis => exact .passed

theorem checked_dbKey {key : String} (h : memory.Placed ptr (asBytes key)) :
    Checked (asBytes key) (checkKey key)
      (readValidatedDbKey memory ptr (lenU32 (asBytes key))) := by
  unfold checkKey readValidatedDbKey readBytes
  rw [h.toNat_lenU32, h.read_eq]
  split
  · exact .refused .internal
  · next hshort =>
      have hallowed : ¬ (asBytes key).length > maxReadLen := by
        unfold maxReadLen
        unfold maxKeyLen at hshort
        omega
      simp only [if_neg hallowed]
      split
      · exact .refused .reserved
      · exact .passed

theorem checked_keyAnd {f : CallFrame} {key arg : String} {maxLen : Nat}
    (hkey : f.memory.Placed f.keyPtr (asBytes key))
    (harg : f.memory.Placed f.argPtr (asBytes arg)) :
    Checked (key, arg) (checkKeyAnd key arg maxLen)
      (readKeyAnd f.keyPtr (lenU32 (asBytes key)) f.argPtr (lenU32 (asBytes arg)) maxLen
        f.memory) :=
  (checked_key hkey).bind ((checked_text harg).map _)

end Arguments

end Numax
