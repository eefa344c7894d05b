import Numax.Theorems.FullScan

/-!
# Paging by the last key

A guest that pages through a prefix itself asks for the first page without a cursor, then
goes on behind the last key of each page until a page is empty. A cursor reaches the host
as a slice, and an empty slice is no cursor. So a page that ends with the empty key is
followed by the same page again: the guest gets on unless its first page is the empty key
alone (`EmptyKeyAlone`).
-/

open Base Std

namespace Numax

open Store

namespace Sdk

/-- The loop of a guest over the pages of a prefix. -/
def followPages {α : Type} (keyOf : α → Bytes)
    (page : (round : Nat) → Option Bytes → Option (Except SdkFailure (List α))) :
    (fuel round : Nat) → (lastKey : Option Bytes) → (out : List α) →
      Option (Except SdkFailure (List α))
  | 0, _, _, _ => none
  | fuel + 1, round, lastKey, out =>
    match page round lastKey with
    | none => none
    | some (.error failure) => some (.error failure)
    | some (.ok items) =>
      if items.isEmpty then some (.ok out)
      else followPages keyOf page fuel (round + 1) (items.getLast?.map keyOf) (out ++ items)

variable (w : UsizeWidth) (g : Surroundings) (h : HostState)

def pagedScan (fuel : Nat) (pfx : String) (limit : UInt32) :
    Option (Except SdkFailure (List (Bytes × Bytes))) :=
  followPages Prod.fst (fun round lastKey => scanPageAfter w g h fuel round pfx lastKey limit)
    fuel 0 none []

def pagedKeys (fuel : Nat) (pfx : String) (limit : UInt32) :
    Option (Except SdkFailure (List Bytes)) :=
  followPages id (fun round lastKey => keysPageAfter w g h fuel round pfx lastKey limit)
    fuel 0 none []

end Sdk

/-- A run that ends with the result, given enough fuel. -/
def Yields {α : Type} (run : (fuel : Nat) → Option (Except SdkFailure α)) (result : α) : Prop :=
  ∃ enough, ∀ fuel ≥ enough, run fuel = some (.ok result)

/-- The first page under the prefix consists of the empty key. -/
def EmptyKeyAlone (s : Store) (pfx : String) (limit : UInt32) : Prop :=
  ∃ value, (visibleRows s pfx).take limit.toNat = [([], value)]

/-! ## The loop over good pages -/

variable {cursor : Option Bytes} {fuel : Nat}

section Follow

variable {α : Type} {s : Store} {pfx : Bytes} {row : Bytes × Bytes → α} {keyOf : α → Bytes}
  {limit : UInt32} {page : (round : Nat) → Option Bytes → Option (Except SdkFailure (List α))}

/-- A page that ends with the empty key is the first one and has no other key. -/
theorem take_eq_of_last_nil {last : Bytes × Bytes} (n : Nat)
    (hlast : ((pending (shown pfx) s cursor).take n).getLast? = some last) (hnil : last.1 = []) :
    (pending (shown pfx) s none).take n = [([], last.2)] := by
  have hmem := List.mem_of_mem_take (List.mem_of_getLast? hlast)
  obtain ⟨-, -, hpassed⟩ := mem_pending.mp hmem
  rw [hnil] at hpassed
  have hfirst : cursor = none := by
    cases cursor with
    | none => rfl
    | some c =>
      -- The empty key lies behind no other key.
      cases c <;> cases hpassed
  subst hfirst
  have hshort : ((pending (shown pfx) s none).take n).length < 2 := by
    by_contra hlong
    exact getLast_ne_nil ((pending_sorted (shown pfx) s none).sublist (List.take_sublist n _)) hlast
      (by omega) hnil
  obtain ⟨init, hinit⟩ := List.getLast?_eq_some_iff.mp hlast
  rw [hinit, List.length_append, List.length_singleton] at hshort
  rw [hinit, List.eq_nil_of_length_eq_zero (by omega : init.length = 0), List.nil_append, ← hnil]

variable (hkey : ∀ entry, keyOf (row entry) = entry.1)

include hkey

theorem followPages_collects (hpage : ∀ {cursor i out}, Following limit s pfx row cursor i out →
      ∀ round, page round cursor = some (.ok (pageUpTo row limit s pfx cursor)))
    (hlimit : limit ≠ 0)
    (halone : ∀ value, (pending (shown pfx) s none).take limit.toNat ≠ [([], value)])
    {round i : Nat} {out : List α} (h : Following limit s pfx row cursor i out)
    (hfuel : (pending (shown pfx) s cursor).length < fuel) :
    Sdk.followPages keyOf page fuel round cursor out =
      some (.ok ((pending (shown pfx) s none).map row)) := by
  induction fuel generalizing round i cursor out with
  | zero => exact absurd hfuel (Nat.not_lt_zero _)
  | succ fuel ih =>
    simp only [Sdk.followPages, hpage h round]
    cases hlast : ((pending (shown pfx) s cursor).take limit.toNat).getLast? with
    | none =>
      have hempty := List.getLast?_eq_none_iff.mp hlast
      rw [h.finish hlimit hempty, pageUpTo, hempty, List.map_nil, List.isEmpty_nil, if_pos rfl]
    | some last =>
      obtain ⟨hnonempty, hcursor⟩ := pageUpTo_last row hkey hlast
      rw [if_neg hnonempty, hcursor]
      -- every page takes at least one row, so the fuel for the rest suffices
      refine ih (h.next hlast fun hnil => halone _ (take_eq_of_last_nil _ hlast hnil)) ?_
      have hless := length_pending_lt (List.mem_of_mem_take (List.mem_of_getLast? hlast))
      omega

/-- With the empty key alone on its first page the loop never gets on. -/
theorem followPages_stuck (value : Bytes) {round : Nat} {out : List α}
    (hpage : ∀ round cursor, cursor.getD [] = [] →
      page round cursor = some (.ok [row ([], value)])) (hcursor : cursor.getD [] = []) :
    Sdk.followPages keyOf page fuel round cursor out = none := by
  induction fuel generalizing round cursor out with
  | zero => rfl
  | succ fuel ih =>
    simp only [Sdk.followPages, hpage round cursor hcursor, List.isEmpty_cons, Bool.false_eq_true,
      if_false]
    refine ih ?_
    simp [hkey]

end Follow

/-! ## The pages of the host -/

section Pages

variable {α : Type} {w : UsizeWidth} {g : Surroundings} {h : HostState} {pfx : Bytes}
  {row : Bytes × Bytes → α} {put : α → Except Int Bytes} {limit : UInt32}

/-- A prefix that is too long for a key is refused. -/
theorem pageAfterLoop_long_prefix (hlimit : PageLimit limit) (hguest : pfx.length < 2 ^ 32)
    (hlong : maxKeyLen < pfx.length) (call : Nat → Option StoreError)
    (parse : Bytes → Except ParseError (List α))
    (frame : (attempt : Nat) → (pfx startAfter : Bytes) → (cap : Nat) → PageFrame)
    (startAfter : Bytes) (fuel : Nat) :
    pageAfterLoop w h (fun attempt => pageAfterCall row put (call attempt)) parse frame pfx
      startAfter limit (fuel + 1) 0 256 = some (.error (.error .internal)) := by
  have hnat : (UInt32.ofNat pfx.length).toNat = pfx.length := by
    rw [UInt32.toNat_ofNat', Nat.mod_eq_of_lt hguest]
  have hvalid : validatePageRequest limit (UInt32.ofNat 256) = .ok () :=
    hlimit.validatePageRequest (by decide)
  have hkey : ∀ (memory : GuestMemory) (ptr : UInt32),
      readValidatedDbKey memory ptr (UInt32.ofNat pfx.length) = .error errInternal := by
    intro memory ptr
    rw [readValidatedDbKey, hnat, if_pos hlong]
  simp only [pageAfterLoop, callHost, pageAfterCall, pageCall, hvalid, readPrefixAndCursor, hkey,
    bind, Except.bind, if_true]

variable {get : Bytes → Nat → Except ParseError (α × Nat)} {keyOf : α → Bytes}
  (hkey : ∀ entry, keyOf (row entry) = entry.1) (hinv : Inverse w put get)
  (hput : ∀ a, InternalOnly (put a)) (hg : g.Sound)
  (hcalm : ∀ round attempt, g.fault round attempt = none) (hvisible : isReserved pfx = false)
  (hlimit : PageLimit limit)

include hinv hput hg hcalm hvisible hlimit

/-- Without faults a page that fits is delivered. -/
theorem hostPage_delivered (hlen : pfx.length ≤ maxKeyLen) (hcursor : CursorOk pfx cursor)
    (hfit : Fits put (pageUpTo row limit h.store pfx cursor)) (hfuel : 12 < fuel) (round : Nat) :
    hostPage w g h row put get pfx limit fuel round cursor =
      some (.ok (pageUpTo row limit h.store pfx cursor)) := by
  rcases hostPage_settled hinv hput hg hlen hvisible hcursor hlimit hfuel round with
    ⟨hok, -⟩ | ⟨e, -, hnot⟩
  · exact hok
  · exact absurd hfit (hnot (hcalm round))

include hkey

/-- Every page is asked for with an empty slice, so every page is the first one. -/
theorem followPages_emptyKey (hlen : pfx.length ≤ maxKeyLen) {value : Bytes}
    (halone : (pending (shown pfx) h.store none).take limit.toNat = [([], value)])
    (hfit : Fits put [row ([], value)]) {fuel : Nat} (hfuel : 12 < fuel) :
    Sdk.followPages keyOf (hostPage w g h row put get pfx limit fuel) fuel 0 none [] = none := by
  have hitems : pageUpTo row limit h.store pfx none = [row ([], value)] := by
    rw [pageUpTo, halone, List.map_singleton]
  refine followPages_stuck hkey value (fun round cursor hcursor => ?_) rfl
  have hdelivered := hostPage_delivered hinv hput hg hcalm hvisible hlimit hlen (.start pfx)
    (by rw [hitems]; exact hfit) hfuel round
  rw [hitems] at hdelivered
  rw [← hdelivered, hostPage, hcursor]
  rfl

/-- Paging through a prefix, for either kind of page. -/
theorem paging_iff (hguest : pfx.length < 2 ^ 32)
    (hkeys : ∀ key ∈ h.store, isReserved key = false → key.length ≤ maxKeyLen)
    (hfits : ∀ i, Fits put (pageOf limit i ((pending (shown pfx) h.store none).map row))) :
    Yields (fun fuel => Sdk.followPages keyOf (hostPage w g h row put get pfx limit fuel) fuel 0
        none []) ((pending (shown pfx) h.store none).map row) ↔
    pfx.length ≤ maxKeyLen ∧
      ¬ ∃ value, (pending (shown pfx) h.store none).take limit.toNat = [([], value)] := by
  constructor
  · rintro ⟨enough, hends⟩
    have hlen : pfx.length ≤ maxKeyLen := by
      by_contra hlong
      -- the host refuses the prefix on the first page
      have hend := hends (enough + 1) (Nat.le_succ _)
      simp only [Sdk.followPages, hostPage,
        pageAfterLoop_long_prefix hlimit hguest (Nat.lt_of_not_le hlong)] at hend
      cases hend
    refine ⟨hlen, ?_⟩
    rintro ⟨value, halone⟩
    have hfit : Fits put [row ([], value)] := by
      have hfirst := hfits 0
      rw [← (Following.start limit h.store pfx row).pageUpTo_eq, pageUpTo, halone] at hfirst
      exact hfirst
    cases (followPages_emptyKey hkey hinv hput hg hcalm hvisible hlimit hlen halone hfit
      (by omega)).symm.trans (hends (enough + 13) (Nat.le_add_right _ _))
  · rintro ⟨hlen, halone⟩
    refine ⟨13 + h.store.size, fun fuel hfuel => ?_⟩
    refine followPages_collects hkey (fun hfollowing round => ?_) hlimit.1
      (fun value heq => halone ⟨value, heq⟩) (.start limit h.store pfx row) ?_
    · refine hostPage_delivered hinv hput hg hcalm hvisible hlimit hlen
        (cursorOk_of_between hkeys hfollowing.between) ?_ (by omega) round
      rw [hfollowing.pageUpTo_eq]
      exact hfits _
    · have hle := length_pending_le h.store pfx
      omega

end Pages

/-! ## Every page size -/

/-- For every store with guest keys of at most 8 KiB that does not fail, every prefix of a
guest and every page size for which the pages fit: paging by the last key ends with all
visible rows (or keys), once and in order, exactly if the prefix can be a key and the first
page is not the empty key alone. -/
theorem keyPaging_iff (w : UsizeWidth) {g : Surroundings} (hg : g.Sound)
    (hcalm : ∀ round attempt, g.fault round attempt = none) (h : HostState) {pfx : String}
    (hguest : (asBytes pfx).length < 2 ^ 32) (hvisible : isReserved (asBytes pfx) = false)
    (hkeys : ∀ key ∈ h.store, isReserved key = false → key.length ≤ maxKeyLen)
    {limit : UInt32} (hlimit : 1 ≤ limit.toNat ∧ limit.toNat ≤ 1024) :
    ((visibleRows h.store pfx).Pairwise fun a b => compare a.1 b.1 = .lt) ∧
    (∀ key value, (key, value) ∈ visibleRows h.store pfx ↔
      h.store[key]? = some value ∧ startsWith key (asBytes pfx) = true ∧ isReserved key = false) ∧
    ((∀ i, Fits encodeScanRow (pageOf limit i (visibleRows h.store pfx))) →
      (Yields (fun fuel => Sdk.pagedScan w g h fuel pfx limit) (visibleRows h.store pfx) ↔
        (asBytes pfx).length ≤ maxKeyLen ∧ ¬ EmptyKeyAlone h.store pfx limit)) ∧
    ((∀ i, Fits encodeSized (pageOf limit i ((visibleRows h.store pfx).map Prod.fst))) →
      (Yields (fun fuel => Sdk.pagedKeys w g h fuel pfx limit)
          ((visibleRows h.store pfx).map Prod.fst) ↔
        (asBytes pfx).length ≤ maxKeyLen ∧ ¬ EmptyKeyAlone h.store pfx limit)) := by
  have hpageLimit : PageLimit limit := by
    refine ⟨?_, hlimit.2⟩
    rintro rfl
    exact absurd hlimit.1 (by decide)
  refine ⟨visibleRows_sorted _ _, fun key value => mem_visibleRows, fun hfits => ?_,
    fun hfits => ?_⟩
  · have hscan := @paging_iff _ w g h _ id encodeScanRow limit (parseScanRow w) Prod.fst
      (fun _ => rfl) inverse_scanRow encodeScanRow_internalOnly hg hcalm hvisible hpageLimit hguest
      hkeys (by rw [List.map_id, pending_eq_visibleRows]; exact hfits)
    rw [List.map_id, pending_eq_visibleRows] at hscan
    exact hscan
  · have hkeysScan := @paging_iff _ w g h _ Prod.fst encodeSized limit (parseSized w) id
      (fun _ => rfl) inverse_sized encodeSized_internalOnly hg hcalm hvisible hpageLimit hguest
      hkeys (by rw [pending_eq_visibleRows]; exact hfits)
    rw [pending_eq_visibleRows] at hkeysScan
    exact hkeysScan

/-- Pages of one row over a store with one visible row. -/
theorem keyPaging_twoRows :
    Yields (fun fuel => Sdk.pagedScan .bits32 flatSurroundings twoRowHost fuel "" 1)
      (visibleRows twoRowHost.store "") := by
  have hpaging := @keyPaging_iff .bits32 _ flatSurroundings_sound (fun _ _ => rfl) twoRowHost ""
    (by decide) (by decide) (keys_short_of_rows (by decide +kernel)) 1 (by decide)
  refine (hpaging.2.2.1 ?_).mpr ⟨by decide, ?_⟩
  · rw [twoRowHost_visible]
    intro i
    cases i with
    | zero => exact ⟨_, rfl, by decide⟩
    | succ i => exact fits_pageOf_of_le (Nat.le_add_left 1 _)
  · rintro ⟨value, halone⟩
    rw [twoRowHost_visible] at halone
    cases halone

/-- A guest stores a value under the empty key. -/
def emptyKeySet : HostState × Int :=
  dbSet none { memory := some ⟨[7]⟩, store := ∅, sync := none } 0 0 0 1

/-- The value is stored, and paging through the whole store never ends, for rows and for
keys, although every page fits. -/
theorem emptyKey_repeats :
    emptyKeySet.2 = 0 ∧ visibleRows emptyKeySet.1.store "" = [([], [7])] ∧
    (∀ i, Fits encodeScanRow (pageOf 64 i (visibleRows emptyKeySet.1.store ""))) ∧
    (∀ fuel > 12, Sdk.pagedScan .bits32 flatSurroundings emptyKeySet.1 fuel "" 64 = none) ∧
    ∀ fuel > 12, Sdk.pagedKeys .bits32 flatSurroundings emptyKeySet.1 fuel "" 64 = none := by
  have hrows : visibleRows emptyKeySet.1.store "" = [([], [7])] := by decide +kernel
  have halone : (pending (shown (asBytes "")) emptyKeySet.1.store none).take (64 : UInt32).toNat =
      [([], [7])] := by
    rw [pending_eq_visibleRows, hrows]
    rfl
  have hlimit : PageLimit 64 := ⟨by decide, by decide⟩
  refine ⟨by decide +kernel, hrows, fun i => ?_, fun fuel hfuel => ?_, fun fuel hfuel => ?_⟩
  · rw [hrows]
    cases i with
    | zero => exact ⟨_, rfl, by decide⟩
    | succ i => exact fits_pageOf_of_le (show 1 ≤ 64 * (i + 1) by omega)
  · exact @followPages_emptyKey _ _ _ _ _ id encodeScanRow 64 _ _ (fun _ => rfl) inverse_scanRow
      encodeScanRow_internalOnly flatSurroundings_sound (fun _ _ => rfl) (by decide) hlimit
      (by decide) _ halone ⟨_, rfl, by decide⟩ _ hfuel
  · exact @followPages_emptyKey _ _ _ _ _ Prod.fst encodeSized 64 _ _ (fun _ => rfl) inverse_sized
      encodeSized_internalOnly flatSurroundings_sound (fun _ _ => rfl) (by decide) hlimit
      (by decide) _ halone ⟨_, rfl, by decide⟩ _ hfuel

end Numax
