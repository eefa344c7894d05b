import Numax.Base.Bytes
import Numax.Base.OrdMap

/-!
# The embedded key–value store

`nx-store`, `store.rs`, over a map from byte keys to byte values in ascending
key order. Every access takes the failure, if any, that the storage engine
reports for it; a failed access has no result, so a failed batch leaves the
store as it was and a committed one applies all its writes, deletions last.

The paging functions keep the loops of the source:

* `pageLoop` skips excluded rows before they count for the offset or the
  limit; `pageLoop_eq` gives its result in closed form;
* `boundedLoop` stops at a number of records or of bytes.
-/

open Base Std

namespace Numax

/-- Failures reported by the store. -/
inductive StoreError where
  | sled (message : String)
  | scanBatchByteLimitExceeded (recordBytes maxBytes : Nat)
  | writeLockPoisoned
  | injectedDiskFull
deriving DecidableEq, Repr

/-- Keys and values in ascending key order. -/
abbrev Store := OrdMap Bytes Bytes

/-- `key.starts_with(prefix)`. -/
def startsWith (key pfx : Bytes) : Bool := pfx.isPrefixOf key

theorem startsWith_iff {key pfx : Bytes} : startsWith key pfx = true ↔ pfx <+: key :=
  List.isPrefixOf_iff_prefix

namespace Store

/-- The result of one access to the storage engine. -/
def accessing {α : Type} (fault : Option StoreError) (result : α) : Except StoreError α :=
  match fault with
  | some error => .error error
  | none => .ok result

theorem accessing_eq_ok {α : Type} {fault : Option StoreError} {result r : α}
    (h : accessing fault result = .ok r) : r = result ∧ fault = none := by
  cases fault with
  | some e => cases h
  | none => cases h; exact ⟨rfl, rfl⟩

variable (fault : Option StoreError) (s : Store)

/-! ## Point access and batches -/

def get (key : Bytes) : Except StoreError (Option Bytes) := accessing fault s[key]?

def existsKey (key : Bytes) : Except StoreError Bool := accessing fault (s.contains key)

def set (key value : Bytes) : Except StoreError Store := accessing fault (s.insert key value)

def delete (key : Bytes) : Except StoreError Store := accessing fault (s.erase key)

/-- All sets, then all deletes, in one atomic batch. -/
def applyBatch (sets : List (Bytes × Bytes)) (deletes : List Bytes) : Except StoreError Store :=
  accessing fault (OrdMap.eraseAll (OrdMap.insertAll s sets) deletes)

/-! ## Iteration -/

/-- The engine's prefix iterator: every entry under `pfx`, ascending. -/
def withPrefix (pfx : Bytes) : List (Bytes × Bytes) :=
  s.toList.filter fun entry => startsWith entry.1 pfx

/-- The engine's range iterator from `start` on, ascending. -/
def rangeFrom (start : Bytes) : List (Bytes × Bytes) :=
  s.toList.filter fun entry => (compare start entry.1).isLE

def prefixExists (pfx : Bytes) : Except StoreError Bool :=
  accessing fault (s.withPrefix pfx).head?.isSome

def scanPrefix (pfx : Bytes) : Except StoreError (List (Bytes × Bytes)) :=
  accessing fault (s.withPrefix pfx)

/-- The entries a key-cursor loop looks at: those after the cursor, up to the
first one outside the prefix. -/
def entriesAfter (pfx : Bytes) (startAfter : Option Bytes) : List (Bytes × Bytes) :=
  match startAfter with
  | none => s.withPrefix pfx
  | some start =>
    ((s.rangeFrom start).filter fun entry => !(compare entry.1 start).isLE).takeWhile
      fun entry => startsWith entry.1 pfx

/-- Is the key hidden by the excluded prefix? -/
def isExcluded (excluded : Option Bytes) (key : Bytes) : Bool :=
  match excluded with
  | some pfx => startsWith key pfx
  | none => false

/-- The page loop: skip excluded entries, then `cursor` entries, then collect
up to `limit` rows. -/
def pageLoop {α : Type} (row : Bytes × Bytes → α) (cursor limit : Nat) (excluded : Option Bytes) :
    List (Bytes × Bytes) → (skipped : Nat) → (out : List α) → List α
  | [], _, out => out
  | entry :: rest, skipped, out =>
    if isExcluded excluded entry.1 then pageLoop row cursor limit excluded rest skipped out
    else if skipped < cursor then pageLoop row cursor limit excluded rest (skipped + 1) out
    else if out.length ≥ limit then out
    else pageLoop row cursor limit excluded rest skipped (out ++ [row entry])

def scanPrefixPage (pfx : Bytes) (cursor : UInt64) (limit : UInt32) (excluded : Option Bytes) :
    Except StoreError (List (Bytes × Bytes)) :=
  accessing fault (pageLoop id cursor.toNat limit.toNat excluded (s.withPrefix pfx) 0 [])

def scanPrefixPageAfter (pfx : Bytes) (startAfter : Option Bytes) (limit : UInt32)
    (excluded : Option Bytes) : Except StoreError (List (Bytes × Bytes)) :=
  accessing fault (pageLoop id 0 limit.toNat excluded (s.entriesAfter pfx startAfter) 0 [])

def keysPrefixPage (pfx : Bytes) (cursor : UInt64) (limit : UInt32) (excluded : Option Bytes) :
    Except StoreError (List Bytes) :=
  accessing fault (pageLoop Prod.fst cursor.toNat limit.toNat excluded (s.withPrefix pfx) 0 [])

def keysPrefixPageAfter (pfx : Bytes) (startAfter : Option Bytes) (limit : UInt32)
    (excluded : Option Bytes) : Except StoreError (List Bytes) :=
  accessing fault (pageLoop Prod.fst 0 limit.toNat excluded (s.entriesAfter pfx startAfter) 0 [])

/-- Size of a record as the byte-bounded scan counts it. -/
def recordBytes (entry : Bytes × Bytes) : Nat := entry.1.length + entry.2.length

/-- The byte- and record-bounded loop. -/
def boundedLoop (maxRecords maxBytes : Nat) :
    List (Bytes × Bytes) → (out : List (Bytes × Bytes)) → (accumulatedBytes : Nat) →
      Except StoreError (List (Bytes × Bytes))
  | [], out, _ => .ok out
  | entry :: rest, out, accumulatedBytes =>
    if recordBytes entry > maxBytes then
      .error (.scanBatchByteLimitExceeded (recordBytes entry) maxBytes)
    else if !out.isEmpty && accumulatedBytes + recordBytes entry > maxBytes then .ok out
    else if (out ++ [entry]).length < maxRecords then
      boundedLoop maxRecords maxBytes rest (out ++ [entry]) (accumulatedBytes + recordBytes entry)
    else .ok (out ++ [entry])

def scanPrefixPageAfterBounded (pfx : Bytes) (startAfter : Option Bytes) (maxRecords : UInt32)
    (maxBytes : Nat) : Except StoreError (List (Bytes × Bytes)) :=
  if maxRecords = 0 then .ok []
  else do
    let entries ← accessing fault (s.entriesAfter pfx startAfter)
    boundedLoop maxRecords.toNat maxBytes entries [] 0

/-! ## Closed forms -/

variable {s}

/-- A page is what remains of the visible entries after the offset, cut at the limit. -/
theorem pageLoop_eq {α : Type} (row : Bytes × Bytes → α) (cursor limit : Nat)
    (excluded : Option Bytes) (entries : List (Bytes × Bytes)) (skipped : Nat) (out : List α) :
    pageLoop row cursor limit excluded entries skipped out =
      out ++ ((((entries.filter fun entry => !isExcluded excluded entry.1).drop
        (cursor - skipped)).take (limit - out.length)).map row) := by
  induction entries generalizing skipped out with
  | nil => simp [pageLoop]
  | cons entry rest ih =>
    rw [pageLoop]
    by_cases hex : isExcluded excluded entry.1
    · simp [hex, ih]
    · rw [if_neg hex, List.filter_cons_of_pos (by simpa using hex)]
      by_cases hskip : skipped < cursor
      · have hdrop : cursor - skipped = cursor - (skipped + 1) + 1 := by omega
        rw [if_pos hskip, ih, hdrop, List.drop_succ_cons]
      · have hdrop : cursor - skipped = 0 := by omega
        rw [if_neg hskip, hdrop, List.drop_zero]
        by_cases hfull : out.length ≥ limit
        · have htake : limit - out.length = 0 := by omega
          simp [hfull, htake]
        · have htake : limit - out.length = limit - (out.length + 1) + 1 := by omega
          rw [if_neg hfull, ih, htake, hdrop]
          simp

/-- With a cursor inside the prefix, the loop sees every later entry under the
prefix: such keys form an interval, so leaving the prefix ends them. -/
theorem entriesAfter_some (s : Store) {pfx start : Bytes} (hstart : startsWith start pfx = true) :
    s.entriesAfter pfx (some start) =
      s.toList.filter fun entry =>
        startsWith entry.1 pfx && !(compare entry.1 start).isLE := by
  have hrange : (s.rangeFrom start).filter (fun entry => !(compare entry.1 start).isLE) =
      s.toList.filter fun entry => !(compare entry.1 start).isLE := by
    rw [rangeFrom, List.filter_filter]
    refine List.filter_congr fun entry _ => ?_
    have hswap : compare start entry.1 = (compare entry.1 start).swap := OrientedOrd.eq_swap
    rw [hswap]
    cases compare entry.1 start <;> rfl
  have hsorted := (OrdMap.toList_sorted s).filter fun entry => !(compare entry.1 start).isLE
  rw [entriesAfter]
  simp only [hrange]
  rw [takeWhile_eq_filter, List.filter_filter]
  refine hsorted.imp_of_mem ?_
  intro a b ha hb hab hpre
  rw [startsWith_iff] at hpre hstart ⊢
  have hgt : (compare start a.1).isLE = true := by
    have hnot := (List.mem_filter.mp ha).2
    have hswap : compare start a.1 = (compare a.1 start).swap := OrientedOrd.eq_swap
    rw [hswap]
    revert hnot
    cases compare a.1 start <;> simp
  exact prefix_interval hstart hgt (by rw [hab]; rfl) hpre

/-- A bounded page is an initial piece of the entries, empty only if they are. -/
theorem boundedLoop_eq_ok {maxRecords maxBytes : Nat} {entries out r : List (Bytes × Bytes)}
    {acc : Nat} (h : boundedLoop maxRecords maxBytes entries out acc = .ok r) :
    ∃ page rest, entries = page ++ rest ∧ r = out ++ page ∧
      (out = [] → page = [] → entries = []) := by
  induction entries generalizing out acc with
  | nil =>
    cases h
    exact ⟨[], [], rfl, by simp, fun _ _ => rfl⟩
  | cons entry rest ih =>
    rw [boundedLoop] at h
    split at h
    · cases h
    · split at h
      · next hfull =>
          cases h
          refine ⟨[], entry :: rest, rfl, by simp, fun hnil => ?_⟩
          simp [hnil] at hfull
      · split at h
        · obtain ⟨page, later, hrest, hr, _⟩ := ih h
          exact ⟨entry :: page, later, by simp [hrest], by simp [hr], by simp⟩
        · cases h
          exact ⟨[entry], rest, rfl, rfl, by simp⟩

/-- Records within the byte limit never stop the loop with an error. -/
theorem boundedLoop_of_fits {maxRecords maxBytes : Nat} {entries : List (Bytes × Bytes)}
    (hfits : ∀ entry ∈ entries, recordBytes entry ≤ maxBytes) (out : List (Bytes × Bytes))
    (acc : Nat) : ∃ r, boundedLoop maxRecords maxBytes entries out acc = .ok r := by
  induction entries generalizing out acc with
  | nil => exact ⟨out, rfl⟩
  | cons entry rest ih =>
    have hentry : ¬ recordBytes entry > maxBytes :=
      Nat.not_lt.mpr (hfits entry List.mem_cons_self)
    rw [boundedLoop, if_neg hentry]
    split
    · exact ⟨_, rfl⟩
    · split
      · exact ih (fun e he => hfits e (List.mem_cons_of_mem _ he)) _ _
      · exact ⟨_, rfl⟩

theorem get_applyBatch {sets : List (Bytes × Bytes)} {deletes : List Bytes} {s' : Store}
    (h : applyBatch fault s sets deletes = .ok s') (key : Bytes) :
    s'[key]? = if key ∈ deletes then none else (OrdMap.insertAll s sets)[key]? := by
  rw [(accessing_eq_ok h).1, OrdMap.get_eraseAll]
  by_cases hkey : key ∈ deletes <;> simp [hkey]

end Store

end Numax
