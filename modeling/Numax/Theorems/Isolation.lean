import Numax.Host.Db
import Numax.Store.Paging

/-!
# Guests and the runtime's keys

A database call neither sees nor touches the keys under the reserved prefix.
Both follow from one simulation (`dbCall_viewed`): a call does the same on the
store without its reserved part, `guestView`, and leaves that store without the
reserved part of its own result. Two stores with one view then give equal runs.

The page calls are where this could fail. Their loops run over reserved rows as
well, so those must not count for an offset or a limit and must not end a page
early; the latter needs that the keys of a prefix form an interval.
-/

open Base Std

namespace Numax

open Store

/-- The store without the runtime's keys. -/
def guestView (store : Store) : Store := store.filter fun key _ => !isReserved key

theorem get_guestView (store : Store) (key : Bytes) :
    (guestView store)[key]? = if isReserved key then none else store[key]? := by
  rw [guestView, ExtTreeMap.getElem?_filter']
  cases store[key]? <;> cases isReserved key <;> simp

/-- Stores that agree outside the runtime's keys have one view. -/
theorem guestView_eq_iff {s t : Store} :
    guestView s = guestView t ↔ ∀ key, isReserved key = false → s[key]? = t[key]? := by
  constructor
  · intro h key hkey
    have hget := congrArg (fun store : Store => store[key]?) h
    simpa [get_guestView, hkey] using hget
  · intro h
    apply ExtTreeMap.ext_getElem?
    intro key
    rw [get_guestView, get_guestView]
    cases hkey : isReserved key with
    | true => rfl
    | false => exact h key hkey

variable {key : Bytes}

theorem guestView_insert (store : Store) (value : Bytes) (hkey : isReserved key = false) :
    guestView (store.insert key value) = (guestView store).insert key value := by
  apply ExtTreeMap.ext_getElem?
  intro a
  rw [get_guestView, OrdMap.get_insert, OrdMap.get_insert, get_guestView]
  by_cases ha : key = a
  · subst ha
    simp [hkey]
  · simp [ha]

theorem guestView_erase (store : Store) (hkey : isReserved key = false) :
    guestView (store.erase key) = (guestView store).erase key := by
  apply ExtTreeMap.ext_getElem?
  intro a
  rw [get_guestView, OrdMap.get_erase, OrdMap.get_erase, get_guestView]
  by_cases ha : key = a
  · subst ha
    simp [hkey]
  · simp [ha]

/-! ## Pages -/

/-- Filtering entries by any condition on them commutes with the view. -/
theorem filter_toList_guestView (store : Store) (p : Bytes × Bytes → Bool) :
    ((guestView store).toList.filter p).filter (fun entry => !isReserved entry.1) =
      (store.toList.filter p).filter fun entry => !isReserved entry.1 := by
  rw [guestView, ExtTreeMap.toList_filter, List.filter_filter, List.filter_filter,
    List.filter_filter]
  refine List.filter_congr fun entry _ => ?_
  cases isReserved entry.1 <;> simp

variable {α : Type}

/-- A page depends on the visible entries of its loop only. -/
theorem pageLoop_congr (row : Bytes × Bytes → α) (cursor limit : Nat)
    {entries entries' : List (Bytes × Bytes)}
    (h : entries.filter (fun entry => !isReserved entry.1) =
      entries'.filter fun entry => !isReserved entry.1) :
    pageLoop row cursor limit (some (asBytes reservedPrefix)) entries 0 [] =
      pageLoop row cursor limit (some (asBytes reservedPrefix)) entries' 0 [] := by
  rw [pageLoop_eq, pageLoop_eq]
  exact congrArg (fun visible => [] ++ ((visible.drop (cursor - 0)).take (limit - 0)).map row) h

theorem entriesAfter_guestView (store : Store) {pfx : Bytes} {startAfter : Option Bytes}
    (h : CursorUnder pfx startAfter) :
    ((guestView store).entriesAfter pfx startAfter).filter (fun entry => !isReserved entry.1) =
      (store.entriesAfter pfx startAfter).filter fun entry => !isReserved entry.1 := by
  cases startAfter with
  | none => exact filter_toList_guestView store fun entry => startsWith entry.1 pfx
  | some start =>
    rw [entriesAfter_some _ h, entriesAfter_some _ h]
    exact filter_toList_guestView store _

variable {memory : GuestMemory}

/-- The cursors that the calls accept lie inside the prefix. -/
theorem readScanCursor_under {ptr len : UInt32} {pfx : Bytes} {cursor : Option Bytes}
    (h : readScanCursor memory ptr len pfx = .ok cursor) :
    CursorUnder pfx cursor := by
  unfold readScanCursor at h
  split at h
  · cases h
    trivial
  · split at h
    · cases h
    · split at h
      · cases h
      · next start _ =>
          split at h
          · cases h
          · split at h
            · cases h
            · next hout =>
                cases h
                change startsWith start pfx = true
                cases pfx with
                | nil => rfl
                | cons x rest => simpa using hout

/-! ## One call -/

/-- The host state as far as the database calls of a guest can see it. -/
def HostState.viewed (h : HostState) : HostState :=
  { memory := h.memory, store := guestView h.store, sync := none }

@[simp] theorem HostState.viewed_memory (h : HostState) : h.viewed.memory = h.memory := rfl

@[simp] theorem HostState.viewed_store (h : HostState) : h.viewed.store = guestView h.store := rfl

/-- A result as far as the guest can see it. -/
def viewedResult (result : HostState × Int) : HostState × Int := (result.1.viewed, result.2)

theorem writeOut_viewed (h : HostState) (memory : GuestMemory) (outPtr outCap : UInt32)
    (encoded : Bytes) :
    writeOut h.viewed memory outPtr outCap encoded =
      viewedResult (writeOut h memory outPtr outCap encoded) := by
  unfold writeOut
  by_cases hcap : encoded.length > outCap.toNat
  · simp only [if_pos hcap]
    rfl
  · simp only [if_neg hcap]
    cases memory.write outPtr.toNat encoded with
    | none => rfl
    | some written => simp only [viewedResult, HostState.viewed]

theorem readValidatedDbKey_reserved {ptr len : UInt32}
    (h : readValidatedDbKey memory ptr len = .ok key) : isReserved key = false := by
  unfold readValidatedDbKey at h
  split at h
  · cases h
  · split at h
    · cases h
    · split at h
      · cases h
      · next hkey =>
          cases h
          simpa using hkey

section Calls

variable (fault : Option StoreError) (h : HostState)

theorem dbGet_viewed (keyPtr keyLen outPtr outCap : UInt32) :
    dbGet fault h.viewed keyPtr keyLen outPtr outCap =
      viewedResult (dbGet fault h keyPtr keyLen outPtr outCap) := by
  simp only [dbGet, HostState.viewed_memory, HostState.viewed_store]
  cases h.memory with
  | none => rfl
  | some memory =>
    dsimp only
    by_cases hcap : outCap.toNat > maxOutCap
    · simp only [if_pos hcap]
      rfl
    · simp only [if_neg hcap]
      cases hkey : readValidatedDbKey memory keyPtr keyLen with
      | error code => rfl
      | ok key =>
        have hget : (guestView h.store).get fault key = h.store.get fault key := by
          unfold Store.get
          rw [get_guestView, readValidatedDbKey_reserved hkey]
          rfl
        simp only [hget]
        cases h.store.get fault key with
        | error e => rfl
        | ok value =>
          cases value with
          | none => rfl
          | some value => exact writeOut_viewed h memory outPtr outCap value

theorem dbSet_viewed (keyPtr keyLen valPtr valLen : UInt32) :
    dbSet fault h.viewed keyPtr keyLen valPtr valLen =
      viewedResult (dbSet fault h keyPtr keyLen valPtr valLen) := by
  simp only [dbSet, HostState.viewed_memory, HostState.viewed_store]
  cases h.memory with
  | none => rfl
  | some memory =>
    dsimp only
    by_cases hlen : valLen.toNat > maxValueLen
    · simp only [if_pos hlen]
      rfl
    · simp only [if_neg hlen]
      cases hkey : readValidatedDbKey memory keyPtr keyLen with
      | error code => rfl
      | ok key =>
        cases readBytes memory valPtr valLen with
        | none => rfl
        | some val =>
          cases fault with
          | some e => rfl
          | none =>
            simp only [Store.set, accessing, viewedResult, HostState.viewed,
              guestView_insert h.store val (readValidatedDbKey_reserved hkey)]

theorem dbDelete_viewed (keyPtr keyLen : UInt32) :
    dbDelete fault h.viewed keyPtr keyLen = viewedResult (dbDelete fault h keyPtr keyLen) := by
  simp only [dbDelete, HostState.viewed_memory, HostState.viewed_store]
  cases h.memory with
  | none => rfl
  | some memory =>
    dsimp only
    cases hkey : readValidatedDbKey memory keyPtr keyLen with
    | error code => rfl
    | ok key =>
      dsimp only
      cases fault with
      | some e => rfl
      | none =>
        simp only [Store.delete, accessing, viewedResult, HostState.viewed,
          guestView_erase h.store (readValidatedDbKey_reserved hkey)]

theorem dbExists_viewed (keyPtr keyLen : UInt32) :
    dbExists fault h.viewed keyPtr keyLen = viewedResult (dbExists fault h keyPtr keyLen) := by
  simp only [dbExists, HostState.viewed_memory, HostState.viewed_store]
  cases h.memory with
  | none => rfl
  | some memory =>
    dsimp only
    cases hkey : readValidatedDbKey memory keyPtr keyLen with
    | error code => rfl
    | ok key =>
      have hexists : (guestView h.store).existsKey fault key = h.store.existsKey fault key := by
        unfold existsKey
        rw [ExtTreeMap.contains_eq_isSome_getElem?, ExtTreeMap.contains_eq_isSome_getElem?,
          get_guestView, readValidatedDbKey_reserved hkey]
        rfl
      simp only [hexists]
      cases h.store.existsKey fault key with
      | error e => rfl
      | ok found => cases found <;> rfl

/-- A page call does not see the reserved keys if its page does not. -/
theorem pageCall_viewed {ρ : Type} (limit outPtr outCap : UInt32)
    {readRequest : GuestMemory → Except Int ρ} {page : Store → ρ → Except StoreError (List α)}
    (encode : List α → Except Int Bytes)
    (hpage : ∀ memory request, readRequest memory = .ok request →
      page (guestView h.store) request = page h.store request) :
    pageCall h.viewed limit outPtr outCap readRequest page encode =
      viewedResult (pageCall h limit outPtr outCap readRequest page encode) := by
  simp only [pageCall, HostState.viewed_memory, HostState.viewed_store]
  cases h.memory with
  | none => rfl
  | some memory =>
    dsimp only
    cases validatePageRequest limit outCap with
    | error code => rfl
    | ok _ =>
      cases hrequest : readRequest memory with
      | error code => rfl
      | ok request =>
        simp only [hpage memory request hrequest]
        cases page h.store request with
        | error e => rfl
        | ok items =>
          dsimp only
          cases encode items with
          | error code => rfl
          | ok encoded => exact writeOut_viewed h memory outPtr outCap encoded

theorem readPrefixAndCursor_under {req : KeyCursorPageRequest} {request : Bytes × Option Bytes}
    (hread : readPrefixAndCursor req memory = .ok request) :
    CursorUnder request.1 request.2 := by
  unfold readPrefixAndCursor at hread
  cases hpfx : readValidatedDbKey memory req.prefixPtr req.prefixLen with
  | error code => rw [hpfx] at hread; cases hread
  | ok pfx =>
    rw [hpfx] at hread
    cases hcursor : readScanCursor memory req.startAfterPtr req.startAfterLen pfx with
    | error code => simp only [bind, Except.bind, hcursor] at hread; cases hread
    | ok cursor =>
      simp only [bind, Except.bind, hcursor] at hread
      cases hread
      exact readScanCursor_under hcursor

/-- A call does the same on the view of the store. -/
theorem dbCall_viewed (call : DbCall) :
    dbCall fault h.viewed call = viewedResult (dbCall fault h call) := by
  cases call with
  | get keyPtr keyLen outPtr outCap => exact dbGet_viewed fault h keyPtr keyLen outPtr outCap
  | set keyPtr keyLen valPtr valLen => exact dbSet_viewed fault h keyPtr keyLen valPtr valLen
  | delete keyPtr keyLen => exact dbDelete_viewed fault h keyPtr keyLen
  | «exists» keyPtr keyLen => exact dbExists_viewed fault h keyPtr keyLen
  | scan req =>
    simp only [dbCall, dbScan]
    refine pageCall_viewed h _ _ _ _ ?_
    intro memory pfx _
    refine congrArg (accessing fault) ?_
    exact pageLoop_congr _ _ _
      (filter_toList_guestView h.store fun entry => startsWith entry.1 pfx)
  | keys req =>
    simp only [dbCall, dbKeys]
    refine pageCall_viewed h _ _ _ _ ?_
    intro memory pfx _
    refine congrArg (accessing fault) ?_
    exact pageLoop_congr _ _ _
      (filter_toList_guestView h.store fun entry => startsWith entry.1 pfx)
  | scanAfter req =>
    simp only [dbCall, dbScanAfter]
    refine pageCall_viewed h _ _ _ _ ?_
    intro memory request hread
    refine congrArg (accessing fault) ?_
    exact pageLoop_congr _ _ _ (entriesAfter_guestView h.store (readPrefixAndCursor_under hread))
  | keysAfter req =>
    simp only [dbCall, dbKeysAfter]
    refine pageCall_viewed h _ _ _ _ ?_
    intro memory request hread
    refine congrArg (accessing fault) ?_
    exact pageLoop_congr _ _ _ (entriesAfter_guestView h.store (readPrefixAndCursor_under hread))

theorem writeOut_store (memory : GuestMemory) (outPtr outCap : UInt32) (encoded : Bytes) :
    (writeOut h memory outPtr outCap encoded).1.store = h.store := by
  unfold writeOut
  split
  · rfl
  · split <;> rfl

theorem pageCall_store {ρ : Type} (limit outPtr outCap : UInt32)
    (readRequest : GuestMemory → Except Int ρ) (page : Store → ρ → Except StoreError (List α))
    (encode : List α → Except Int Bytes) :
    (pageCall h limit outPtr outCap readRequest page encode).1.store = h.store := by
  unfold pageCall
  repeat' split
  all_goals first | rfl | exact writeOut_store h _ _ _ _

/-- A call leaves the reserved keys as they are. -/
theorem dbCall_reserved (call : DbCall) (hkey : isReserved key = true) :
    (dbCall fault h call).1.store[key]? = h.store[key]? := by
  -- only `set` and `delete` change the store, at a key that is not reserved
  have hne : ∀ {memory : GuestMemory} {ptr len : UInt32} {k : Bytes},
      readValidatedDbKey memory ptr len = .ok k → k ≠ key := by
    rintro memory ptr len k hread rfl
    rw [readValidatedDbKey_reserved hread] at hkey
    cases hkey
  cases call with
  | get keyPtr keyLen outPtr outCap =>
    have hstore : (dbGet fault h keyPtr keyLen outPtr outCap).1.store = h.store := by
      unfold dbGet
      repeat' split
      all_goals first | rfl | exact writeOut_store h _ _ _ _
    exact congrArg (fun store : Store => store[key]?) hstore
  | set keyPtr keyLen valPtr valLen =>
    simp only [dbCall, dbSet]
    repeat' split
    any_goals rfl
    next hread _ _ _ _ _ hset =>
      rw [(accessing_eq_ok hset).1, OrdMap.get_insert_ne _ _ (hne hread)]
  | delete keyPtr keyLen =>
    simp only [dbCall, dbDelete]
    repeat' split
    any_goals rfl
    next hread _ _ hdelete =>
      rw [(accessing_eq_ok hdelete).1, OrdMap.get_erase, if_neg (hne hread)]
  | «exists» keyPtr keyLen =>
    have hstore : (dbExists fault h keyPtr keyLen).1.store = h.store := by
      unfold dbExists
      repeat' split
      all_goals rfl
    exact congrArg (fun store : Store => store[key]?) hstore
  | scan req => exact congrArg (fun store : Store => store[key]?) (pageCall_store h _ _ _ _ _ _)
  | scanAfter req =>
    exact congrArg (fun store : Store => store[key]?) (pageCall_store h _ _ _ _ _ _)
  | keys req => exact congrArg (fun store : Store => store[key]?) (pageCall_store h _ _ _ _ _ _)
  | keysAfter req =>
    exact congrArg (fun store : Store => store[key]?) (pageCall_store h _ _ _ _ _ _)

end Calls

/-! ## Runs -/

/-- A call as it comes up in a run: what the guest does to its memory first, the
call, and the failure of its store access, if any. -/
structure DbStep where
  prepare : Option GuestMemory → Option GuestMemory
  call : DbCall
  fault : Option StoreError := none

def DbStep.run (step : DbStep) (h : HostState) : HostState × Int :=
  dbCall step.fault { h with memory := step.prepare h.memory } step.call

/-- A sequence of calls: the state at the end, and after each call its return
code and the guest memory. -/
def dbRun : List DbStep → HostState → HostState × List (Int × Option GuestMemory)
  | [], h => (h, [])
  | step :: rest, h =>
    let (h, code) := step.run h
    let (last, observed) := dbRun rest h
    (last, (code, h.memory) :: observed)

theorem DbStep.run_viewed (step : DbStep) (h : HostState) :
    step.run h.viewed = viewedResult (step.run h) :=
  dbCall_viewed step.fault { h with memory := step.prepare h.memory } step.call

/-- A run does the same on the view of the store. -/
theorem dbRun_viewed (steps : List DbStep) (h : HostState) :
    dbRun steps h.viewed = ((dbRun steps h).1.viewed, (dbRun steps h).2) := by
  induction steps generalizing h with
  | nil => rfl
  | cons step rest ih =>
    simp only [dbRun, step.run_viewed, viewedResult, ih, HostState.viewed_memory]

theorem dbRun_reserved (steps : List DbStep) (h : HostState) (hkey : isReserved key = true) :
    (dbRun steps h).1.store[key]? = h.store[key]? := by
  induction steps generalizing h with
  | nil => rfl
  | cons step rest ih =>
    have hrest := ih (step.run h).1
    simp only [dbRun]
    rw [hrest]
    exact dbCall_reserved step.fault _ step.call hkey

/-- Two runs of the same calls on stores that differ in reserved keys only
return the same codes and write the same bytes, keep the agreement, and each
leaves its reserved keys as they were. -/
theorem dbRun_noninterference (steps : List DbStep) (h₁ h₂ : HostState)
    (hmemory : h₁.memory = h₂.memory)
    (hagree : ∀ key, isReserved key = false → h₁.store[key]? = h₂.store[key]?) :
    (dbRun steps h₁).2 = (dbRun steps h₂).2 ∧
    (∀ key, isReserved key = false →
      (dbRun steps h₁).1.store[key]? = (dbRun steps h₂).1.store[key]?) ∧
    (∀ key, isReserved key = true → (dbRun steps h₁).1.store[key]? = h₁.store[key]?) ∧
    ∀ key, isReserved key = true → (dbRun steps h₂).1.store[key]? = h₂.store[key]? := by
  have hviewed : h₁.viewed = h₂.viewed := by
    rw [HostState.viewed, HostState.viewed, hmemory, guestView_eq_iff.mpr hagree]
  have hrun := congrArg (dbRun steps) hviewed
  rw [dbRun_viewed, dbRun_viewed] at hrun
  obtain ⟨hlast, hobserved⟩ := Prod.ext_iff.mp hrun
  refine ⟨hobserved, ?_, fun key hkey => dbRun_reserved steps h₁ hkey,
    fun key hkey => dbRun_reserved steps h₂ hkey⟩
  exact guestView_eq_iff.mp (congrArg HostState.store hlast)

/-- A guest that has written the key `a`. -/
def plainHost : HostState where
  memory := some { bytes := asBytes "a" ++ List.replicate 31 0 }
  store := OrdMap.insertAll ∅ [(asBytes "a", asBytes "1")]
  sync := none

/-- The same guest on a node that has counted something. -/
def crowdedHost : HostState :=
  { plainHost with store := plainHost.store.insert (asBytes "__nx/crdt/gcounter/k") [3] }

/-- The first row of all keys, written behind the key. -/
def firstRow : List DbStep :=
  [{ prepare := id
     call := .scan
       { prefixPtr := 0, prefixLen := 0, cursor := 0, limit := 1, outPtr := 1, outCap := 31 } }]

theorem dbRun_noninterference_scan :
    (dbRun firstRow plainHost).2.map Prod.fst = [14] ∧
      (dbRun firstRow plainHost).2 = (dbRun firstRow crowdedHost).2 := by
  have hagree : ∀ key, isReserved key = false →
      plainHost.store[key]? = crowdedHost.store[key]? := by
    intro key hkey
    refine (OrdMap.get_insert_ne plainHost.store _ fun heq => ?_).symm
    rw [← heq] at hkey
    revert hkey
    decide +kernel
  exact ⟨by decide +kernel, (dbRun_noninterference firstRow plainHost crowdedHost rfl hagree).1⟩

end Numax
