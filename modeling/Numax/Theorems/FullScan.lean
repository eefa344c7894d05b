import Numax.Sdk.Scan
import Numax.Store.Paging
import Numax.Theorems.AbiRoundTrip

/-!
# Full scans are complete

A scan of the guest library asks for pages of 64 rows, each with a buffer that
grows until the page fits, and goes on behind the last key of each page. One page
is the first 64 pending entries of the sweep or an error (`pageAfterLoop_spec`);
the loop over the pages collects the sweep (`fullScanLoop_spec`). So a scan ends
with every visible row, once and in order, or with an error, and without storage
failures the second happens exactly if some page does not fit.
-/

open Base Std

namespace Numax

open Store

/-! ## One call -/

/-- The slices of a call lie in the guest's memory, as the allocator of the guest
guarantees; an empty cursor may point anywhere. -/
structure PageFrame.Holds (f : PageFrame) (pfx startAfter : Bytes) (cap : Nat) : Prop where
  pfx_at : f.memory.read f.prefixPtr.toNat pfx.length = some pfx
  startAfter_at : startAfter ≠ [] →
    f.memory.read f.startAfterPtr.toNat startAfter.length = some startAfter
  room : f.outPtr.toNat + cap ≤ f.memory.size

/-- The memory of every call within the limits of the host holds its slices. -/
def Surroundings.Sound (g : Surroundings) : Prop :=
  ∀ round attempt pfx startAfter cap, pfx.length ≤ maxKeyLen → startAfter.length ≤ maxKeyLen →
    cap ≤ maxScanBuffer → (g.frame round attempt pfx startAfter cap).Holds pfx startAfter cap

/-- A cursor the host accepts under the prefix. -/
structure CursorOk (pfx : Bytes) (cursor : Option Bytes) : Prop where
  under : CursorUnder pfx cursor
  nonempty : ∀ c, cursor = some c → c ≠ []
  short : ∀ c, cursor = some c → c.length ≤ maxKeyLen
  visible : ∀ c, cursor = some c → isReserved c = false

theorem CursorOk.start (pfx : Bytes) : CursorOk pfx none := ⟨trivial, nofun, nofun, nofun⟩

theorem toNat_ofNat_of_le {n : Nat} (h : n ≤ maxScanBuffer) : (UInt32.ofNat n).toNat = n := by
  rw [UInt32.toNat_ofNat']
  unfold maxScanBuffer at h
  exact Nat.mod_eq_of_lt (by omega)

theorem maxKeyLen_le : maxKeyLen ≤ maxScanBuffer := by decide

variable {memory : GuestMemory} {ptr : UInt32}

theorem readBytes_of_read {bytes : Bytes} (hlen : bytes.length ≤ maxKeyLen)
    (hread : memory.read ptr.toNat bytes.length = some bytes) :
    readBytes memory ptr (UInt32.ofNat bytes.length) = some bytes := by
  have hnat := toNat_ofNat_of_le (hlen.trans maxKeyLen_le)
  have hallowed : ¬ bytes.length > maxReadLen := Nat.not_lt.mpr (hlen.trans (by decide))
  rw [readBytes, hnat, if_neg hallowed, hread]

theorem readValidatedDbKey_of_read {key : Bytes} (hlen : key.length ≤ maxKeyLen)
    (hvisible : isReserved key = false) (hread : memory.read ptr.toNat key.length = some key) :
    readValidatedDbKey memory ptr (UInt32.ofNat key.length) = .ok key := by
  have hnat := toNat_ofNat_of_le (hlen.trans maxKeyLen_le)
  simp only [readValidatedDbKey, hnat, if_neg (Nat.not_lt.mpr hlen), readBytes_of_read hlen hread,
    hvisible, Bool.false_eq_true, if_false]

theorem readScanCursor_of_read {pfx : Bytes} {cursor : Option Bytes} (hcursor : CursorOk pfx cursor)
    (hread : cursor.getD [] ≠ [] →
      memory.read ptr.toNat (cursor.getD []).length = some (cursor.getD [])) :
    readScanCursor memory ptr (UInt32.ofNat (cursor.getD []).length) pfx = .ok cursor := by
  cases cursor with
  | none => rfl
  | some c =>
    have hne := hcursor.nonempty c rfl
    have hlen := hcursor.short c rfl
    have hnat := toNat_ofNat_of_le (hlen.trans maxKeyLen_le)
    have hzero : UInt32.ofNat c.length ≠ 0 := by
      intro h
      have h0 : (UInt32.ofNat c.length).toNat = 0 := by rw [h]; rfl
      rw [hnat] at h0
      exact hne (List.eq_nil_of_length_eq_zero h0)
    have hunder : startsWith c pfx = true := hcursor.under
    rw [Option.getD_some] at hread ⊢
    simp only [readScanCursor, if_neg hzero, hnat, if_neg (Nat.not_lt.mpr hlen),
      readBytes_of_read hlen (hread hne), hcursor.visible c rfl, hunder, Bool.not_true,
      Bool.and_false, Bool.false_eq_true, if_false]

/-- What one call answers to a page request with `cap` bytes of room. -/
inductive PageAnswer (fault : Option StoreError) (encoded : Except Int Bytes) (cap : Nat) :
    Int × Bytes → Prop
  | failed (out : Bytes) (cause : fault ≠ none ∨ ∃ code, encoded = .error code) :
      PageAnswer fault encoded cap (errInternal, out)
  | tooSmall {e : Bytes} (out : Bytes) (encoded_eq : encoded = .ok e) (long : cap < e.length) :
      PageAnswer fault encoded cap (errBufTooSmall, out)
  | written {e : Bytes} (out : Bytes) (encoded_eq : encoded = .ok e) (fits : e.length ≤ cap)
      (read : out.take e.length = e) :
      PageAnswer fault encoded cap ((e.length : Int), out)

section Answer

variable {α : Type} (row : Bytes × Bytes → α) (put : α → Except Int Bytes)

/-- The page calls that follow a key cursor. -/
def pageAfterCall (fault : Option StoreError) (h : HostState) (req : KeyCursorPageRequest) :
    HostState × Int :=
  pageCall h req.limit req.outPtr req.outCap (readPrefixAndCursor req)
    (fun store request => accessing fault (pageLoop row 0 req.limit.toNat
      (some (asBytes reservedPrefix)) (store.entriesAfter request.1 request.2) 0 []))
    (encodeList put)

/-- Items of a page request. -/
def pageUpTo (limit : UInt32) (s : Store) (pfx : Bytes) (cursor : Option Bytes) : List α :=
  ((pending (shown pfx) s cursor).take limit.toNat).map row

variable {row put}

/-- The buffer after a result has been written to its start. -/
theorem read_of_write {memory' : GuestMemory} {ptr cap : Nat} {data : Bytes}
    (hroom : ptr + cap ≤ memory.size) (hfits : data.length ≤ cap)
    (hwrite : memory.write ptr data = some memory') :
    ∃ out, memory'.read ptr cap = some out ∧ out.take data.length = data := by
  unfold GuestMemory.write at hwrite
  split at hwrite
  · next hin =>
      cases hwrite
      unfold GuestMemory.size at hroom hin
      have hsize : ptr + cap ≤ (memory.bytes.take ptr ++ data ++
          memory.bytes.drop (ptr + data.length)).length := by
        simp only [List.length_append, List.length_take, List.length_drop]
        omega
      refine ⟨_, if_pos hsize, ?_⟩
      have hbefore : (memory.bytes.take ptr).length = ptr := by
        rw [List.length_take]
        omega
      rw [List.take_take, min_eq_left hfits, List.append_assoc, List.drop_left' hbefore,
        List.take_left]
  · cases hwrite

/-- A page size the host accepts. -/
def PageLimit (limit : UInt32) : Prop := limit ≠ 0 ∧ limit.toNat ≤ maxScanLimit

theorem PageLimit.validatePageRequest {limit : UInt32} (h : PageLimit limit) {cap : Nat}
    (hcap : cap ≤ maxScanBuffer) : validatePageRequest limit (UInt32.ofNat cap) = .ok () := by
  have hallowed : ¬ cap > maxOutCap := Nat.not_lt.mpr (hcap.trans (by decide))
  have hlimit : ¬ (limit = 0 ∨ limit.toNat > maxScanLimit) :=
    not_or.mpr ⟨h.1, Nat.not_lt.mpr h.2⟩
  rw [Numax.validatePageRequest, if_neg hlimit, toNat_ofNat_of_le hcap, if_neg hallowed]

theorem callHost_answer {h : HostState} {fault : Nat → Option StoreError} {pfx : Bytes}
    {cursor : Option Bytes} {limit : UInt32} (hlimit : PageLimit limit)
    {frame : (attempt : Nat) → (pfx startAfter : Bytes) → (cap : Nat) → PageFrame}
    (hlen : pfx.length ≤ maxKeyLen) (hvisible : isReserved pfx = false)
    (hcursor : CursorOk pfx cursor) {attempt cap : Nat} (hcap : cap ≤ maxScanBuffer)
    (hframe : (frame attempt pfx (cursor.getD []) cap).Holds pfx (cursor.getD []) cap)
    (hcode : ∀ items code, encodeList put items = .error code → code = errInternal) :
    PageAnswer (fault attempt) (encodeList put (pageUpTo row limit h.store pfx cursor)) cap
      (callHost h (fun attempt => pageAfterCall row put (fault attempt)) frame pfx
        (cursor.getD []) limit attempt cap) := by
  obtain ⟨hpfx, hstart, hroom⟩ := hframe
  have hcapNat := toNat_ofNat_of_le hcap
  have hpage : pageLoop row 0 limit.toNat (some (asBytes reservedPrefix))
      (h.store.entriesAfter pfx cursor) 0 [] = pageUpTo row limit h.store pfx cursor :=
    pageAfter_eq row h.store hcursor.under _ _
  have hvalid := hlimit.validatePageRequest hcap
  simp only [callHost]
  generalize hf : frame attempt pfx (cursor.getD []) cap = f at hpfx hstart hroom ⊢
  simp only [pageAfterCall, pageCall, hvalid, readPrefixAndCursor,
    readValidatedDbKey_of_read hlen hvisible hpfx, readScanCursor_of_read hcursor hstart, bind,
    Except.bind, pure, Except.pure, hpage]
  cases hfault : fault attempt with
  | some error => exact .failed _ (.inl (by simp))
  | none =>
    simp only [accessing]
    cases henc : encodeList put (pageUpTo row limit h.store pfx cursor) with
    | error code =>
      simp only
      rw [hcode _ code henc]
      exact .failed _ (.inr ⟨_, rfl⟩)
    | ok e =>
      simp only [writeOut, hcapNat]
      by_cases hlong : e.length > cap
      · simp only [if_pos hlong]
        exact .tooSmall _ rfl hlong
      · simp only [if_neg hlong]
        have hshort := Nat.le_of_not_gt hlong
        -- the buffer lies in the memory
        cases hwrite : f.memory.write f.outPtr.toNat e with
        | none =>
          unfold GuestMemory.write at hwrite
          rw [if_pos (by omega)] at hwrite
          cases hwrite
        | some memory' =>
          obtain ⟨out, hread, hout⟩ := read_of_write hroom hshort hwrite
          simp only [Option.bind_some, hread, Option.getD_some]
          rw [asI32_of_lt (by unfold maxScanBuffer at hcap; omega)]
          exact .written _ rfl hshort hout

end Answer

/-! ## One page -/

/-- The encoding of a page fits into the largest buffer. -/
def Fits {α : Type} (put : α → Except Int Bytes) (items : List α) : Prop :=
  ∃ e, encodeList put items = .ok e ∧ e.length ≤ maxScanBuffer

/-- The result is the expected one, which then fits, or an error; without storage
failures (`calm`) it is an error only if something does not fit. -/
def Settled {α : Type} (calm : Prop) (expected : α) (fits : Prop)
    (result : Option (Except SdkFailure α)) : Prop :=
  (result = some (.ok expected) ∧ fits) ∨
    ∃ e, result = some (.error (.error e)) ∧ (calm → ¬ fits)

variable {fuel : Nat}

section PageLoop

variable {α : Type} {w : UsizeWidth} {h : HostState}
  {call : (attempt : Nat) → HostState → KeyCursorPageRequest → HostState × Int}
  {parse : Bytes → Except ParseError (List α)}
  {frame : (attempt : Nat) → (pfx startAfter : Bytes) → (cap : Nat) → PageFrame}
  {pfx startAfter : Bytes} {limit : UInt32} {fault : Nat → Option StoreError}
  {put : α → Except Int Bytes} {items : List α}

/-- One round of the retry loop settles the page or finds the buffer too small. -/
theorem pageAfterLoop_step {attempt cap : Nat}
    (hanswer : PageAnswer (fault attempt) (encodeList put items) cap
      (callHost h call frame pfx startAfter limit attempt cap))
    (hparse : ∀ e, encodeList put items = .ok e → e.length ≤ maxScanBuffer → parse e = .ok items)
    (hcap : cap ≤ maxScanBuffer) :
    Settled (∀ attempt, fault attempt = none) items (Fits put items)
        (pageAfterLoop w h call parse frame pfx startAfter limit (fuel + 1) attempt cap) ∨
      (∃ e, encodeList put items = .ok e ∧ cap < e.length) ∧
        pageAfterLoop w h call parse frame pfx startAfter limit (fuel + 1) attempt cap =
          if saturatingMul w cap 2 > maxScanBuffer then some (.error (.error .bufferTooSmall))
          else pageAfterLoop w h call parse frame pfx startAfter limit fuel (attempt + 1)
            (saturatingMul w cap 2) := by
  rw [pageAfterLoop]
  generalize callHost h call frame pfx startAfter limit attempt cap = answer at hanswer
  cases hanswer with
  | failed out cause =>
    refine .inl (.inr ⟨.internal, by simp, ?_⟩)
    rintro hcalm ⟨e, he, -⟩
    rcases cause with hfault | ⟨code, herror⟩
    · exact hfault (hcalm attempt)
    · rw [herror] at he
      cases he
  | tooSmall out encoded_eq long =>
    refine .inr ⟨⟨_, encoded_eq, long⟩, ?_⟩
    simp [errInternal, errReservedKey, errBufTooSmall]
  | @written e out encoded_eq fits read =>
    have hsmall := fits.trans hcap
    refine .inl (.inl ⟨?_, e, encoded_eq, hsmall⟩)
    have hneg : ∀ code : Int, code < 0 → ¬ (e.length : Int) = code := by omega
    have hnonneg : ¬ (e.length : Int) < 0 := by omega
    simp only [if_neg (hneg errInternal (by decide)), if_neg (hneg errReservedKey (by decide)),
      if_neg (hneg errBufTooSmall (by decide)), if_neg hnonneg, Int.toNat_natCast, read,
      hparse e encoded_eq hsmall]
    rfl

/-- The retry loop, with `k` doublings left. -/
theorem pageAfterLoop_spec (hanswer : ∀ attempt cap, cap ≤ maxScanBuffer →
      PageAnswer (fault attempt) (encodeList put items) cap
        (callHost h call frame pfx startAfter limit attempt cap))
    (hparse : ∀ e, encodeList put items = .ok e → e.length ≤ maxScanBuffer → parse e = .ok items)
    (k : Nat) {attempt cap : Nat} (hcap : cap * 2 ^ k = maxScanBuffer) (hfuel : k < fuel) :
    Settled (∀ attempt, fault attempt = none) items (Fits put items)
      (pageAfterLoop w h call parse frame pfx startAfter limit fuel attempt cap) := by
  have hdouble : ∀ {cap : Nat}, cap ≤ maxScanBuffer → saturatingMul w cap 2 = cap * 2 := by
    intro cap hle
    have hmax : maxScanBuffer * 2 ≤ w.max := by cases w <;> decide
    exact min_eq_left (by omega)
  induction k generalizing fuel attempt cap with
  | zero =>
    rw [Nat.pow_zero, Nat.mul_one] at hcap
    obtain ⟨fuel, rfl⟩ := Nat.exists_eq_succ_of_ne_zero (Nat.ne_of_gt hfuel)
    obtain hdone | ⟨⟨e, he, hlong⟩, hnext⟩ :=
      pageAfterLoop_step (hanswer attempt cap hcap.le) hparse hcap.le
    · exact hdone
    · -- the largest buffer does not hold the page
      have hover : saturatingMul w cap 2 > maxScanBuffer := by
        rw [hdouble hcap.le, hcap]
        decide
      rw [hnext, if_pos hover]
      refine .inr ⟨_, rfl, ?_⟩
      rintro - ⟨e', he', hfits⟩
      cases he.symm.trans he'
      omega
  | succ k ih =>
    obtain ⟨fuel, rfl⟩ := Nat.exists_eq_succ_of_ne_zero (Nat.ne_of_gt (Nat.zero_lt_of_lt hfuel))
    have hpow : 1 ≤ 2 ^ k := Nat.one_le_two_pow
    have hhalf : cap * 2 * 2 ^ k = maxScanBuffer := by rw [← hcap, Nat.pow_succ]; ring
    have hnextCap : cap * 2 ≤ maxScanBuffer := by
      rw [← hhalf]
      exact Nat.le_mul_of_pos_right _ hpow
    obtain hdone | ⟨-, hnext⟩ :=
      pageAfterLoop_step (hanswer attempt cap (by omega)) hparse (by omega)
    · exact hdone
    · rw [hnext, hdouble (by omega), if_neg (Nat.not_lt.mpr hnextCap)]
      exact ih hhalf (by omega)

end PageLoop

/-! ## All pages -/

section FullScan

variable {α : Type} {limit : UInt32} {s : Store} {pfx : Bytes} {row : Bytes × Bytes → α}
  {put : α → Except Int Bytes} {cursor : Option Bytes}

/-- The `i`-th page of a list. -/
def pageOf (limit : UInt32) (i : Nat) (items : List α) : List α :=
  (items.drop (limit.toNat * i)).take limit.toNat

/-- Behind the last item there are only empty pages, and these fit. -/
theorem fits_pageOf_of_le {i : Nat} {items : List α} (h : items.length ≤ limit.toNat * i) :
    Fits put (pageOf limit i items) := by
  rw [pageOf, List.drop_of_length_le h, List.take_nil]
  refine ⟨leBytes 4 0, rfl, ?_⟩
  rw [length_leBytes]
  decide

/-- A cursor between two pages of a scan. -/
def Between (s : Store) (pfx : Bytes) (cursor : Option Bytes) : Prop :=
  ∀ c, cursor = some c → c ≠ [] ∧ ∃ v, (c, v) ∈ pending (shown pfx) s none

/-- Nothing comes before the empty key. -/
theorem not_lt_nil (key : Bytes) : compare key [] ≠ .lt := by
  cases key with
  | nil => decide
  | cons b rest => exact nofun

/-- Only the first key of a list can be empty. -/
theorem getLast_ne_nil {page : List (Bytes × Bytes)} {last : Bytes × Bytes}
    (hsorted : page.Pairwise fun a b => compare a.1 b.1 = .lt)
    (hlast : page.getLast? = some last) (hlong : 2 ≤ page.length) : last.1 ≠ [] := by
  obtain ⟨init, rfl⟩ := List.getLast?_eq_some_iff.mp hlast
  cases init with
  | nil => simp at hlong
  | cons first rest =>
    intro hnil
    have hlt := (List.pairwise_append.mp hsorted).2.2 first List.mem_cons_self last
      List.mem_cons_self
    rw [hnil] at hlt
    exact not_lt_nil first.1 hlt

/-- A page with a last row is followed behind the key of that row. -/
theorem pageUpTo_last (row : Bytes × Bytes → α) {keyOf : α → Bytes}
    (hkey : ∀ entry, keyOf (row entry) = entry.1) {last : Bytes × Bytes}
    (hlast : ((pending (shown pfx) s cursor).take limit.toNat).getLast? = some last) :
    ¬ (pageUpTo row limit s pfx cursor).isEmpty = true ∧
      (pageUpTo row limit s pfx cursor).getLast?.map keyOf = some last.1 := by
  constructor
  · rw [List.isEmpty_iff, pageUpTo, List.map_eq_nil_iff]
    exact List.ne_nil_of_mem (List.mem_of_getLast? hlast)
  · rw [pageUpTo, List.getLast?_map, hlast, Option.map_some, Option.map_some, hkey]

/-- A loop over pages at the start of its `i`-th page. -/
structure Following (limit : UInt32) (s : Store) (pfx : Bytes) (row : Bytes × Bytes → α)
    (cursor : Option Bytes) (i : Nat) (out : List α) : Prop where
  between : Between s pfx cursor
  collected : Collected (shown pfx) s row cursor out
  position : pending (shown pfx) s cursor = (pending (shown pfx) s none).drop (limit.toNat * i)

namespace Following

theorem start (limit : UInt32) (s : Store) (pfx : Bytes) (row : Bytes × Bytes → α) :
    Following limit s pfx row none 0 [] :=
  ⟨nofun, .start row, by simp⟩

variable {i : Nat} {out : List α} (h : Following limit s pfx row cursor i out)

include h

theorem pageUpTo_eq :
    pageUpTo row limit s pfx cursor = pageOf limit i ((pending (shown pfx) s none).map row) := by
  rw [pageUpTo, pageOf, h.position, List.map_take, List.map_drop]

/-- An empty page is behind the last one. -/
theorem finish (hlimit : limit ≠ 0)
    (hempty : (pending (shown pfx) s cursor).take limit.toNat = []) :
    out = (pending (shown pfx) s none).map row := by
  have hpos : limit.toNat ≠ 0 := fun hzero => hlimit (UInt32.toNat_inj.mp hzero)
  exact h.collected.finish (by simpa [hpos] using hempty)

/-- Behind a page the loop is at the next one, if the host can tell the cursor from none. -/
theorem next {last : Bytes × Bytes}
    (hlast : ((pending (shown pfx) s cursor).take limit.toNat).getLast? = some last)
    (hne : last.1 ≠ []) :
    Following limit s pfx row (some last.1) (i + 1) (out ++ pageUpTo row limit s pfx cursor) := by
  have hsplit := (List.take_append_drop limit.toNat (pending (shown pfx) s cursor)).symm
  refine ⟨?_, h.collected.page hsplit hlast, ?_⟩
  · rintro _ ⟨⟩
    obtain ⟨hget, hscope, -⟩ := mem_pending.mp (List.mem_of_mem_take (List.mem_of_getLast? hlast))
    exact ⟨hne, last.2, mem_pending.mpr ⟨hget, hscope, rfl⟩⟩
  · rw [pending_after_page hsplit hlast, h.position, List.drop_drop, Nat.mul_succ]

theorem fits_next
    (hfits : ∀ k < i, Fits put (pageOf limit k ((pending (shown pfx) s none).map row)))
    (hfit : Fits put (pageUpTo row limit s pfx cursor)) :
    ∀ k < i + 1, Fits put (pageOf limit k ((pending (shown pfx) s none).map row)) := by
  intro k hk
  rcases Nat.lt_succ_iff_lt_or_eq.mp hk with hk | rfl
  · exact hfits k hk
  · rw [← h.pageUpTo_eq]
    exact hfit

/-- If the page is the last one that is all. -/
theorem fits_all
    (hfits : ∀ k < i + 1, Fits put (pageOf limit k ((pending (shown pfx) s none).map row)))
    (hlast : (pending (shown pfx) s cursor).length ≤ limit.toNat) (k : Nat) :
    Fits put (pageOf limit k ((pending (shown pfx) s none).map row)) := by
  rcases Nat.lt_or_ge k (i + 1) with hk | hk
  · exact hfits k hk
  · have hlength := congrArg List.length h.position
    have hbehind := Nat.mul_le_mul_left limit.toNat hk
    rw [List.length_drop] at hlength
    rw [Nat.mul_succ] at hbehind
    exact fits_pageOf_of_le (by rw [List.length_map]; omega)

end Following

theorem fullScanLoop_spec {calm : Prop} {keyOf : α → Bytes}
    (hkey : ∀ entry, keyOf (row entry) = entry.1)
    {page : (round : Nat) → Option Bytes → Option (Except SdkFailure (List α))}
    (hpage : ∀ round cursor, Between s pfx cursor →
      Settled calm (pageUpTo row defaultScanLimit s pfx cursor)
        (Fits put (pageUpTo row defaultScanLimit s pfx cursor)) (page round cursor)) {round : Nat}
    {out : List α} (h : Following defaultScanLimit s pfx row cursor round out) (hfits : ∀ i < round,
      Fits put (pageOf defaultScanLimit i ((pending (shown pfx) s none).map row)))
    (hfuel : (pending (shown pfx) s cursor).length < fuel) :
    Settled calm ((pending (shown pfx) s none).map row)
      (∀ i, Fits put (pageOf defaultScanLimit i ((pending (shown pfx) s none).map row)))
      (Sdk.fullScanLoop keyOf page fuel round cursor out) := by
  induction fuel generalizing round cursor out with
  | zero => exact absurd hfuel (Nat.not_lt_zero _)
  | succ fuel ih =>
    rw [Sdk.fullScanLoop]
    rcases hpage round cursor h.between with ⟨hok, hfit⟩ | ⟨e, herror, hnot⟩
    · have hfits := h.fits_next hfits hfit
      rw [hok]
      dsimp only
      cases hlast : ((pending (shown pfx) s cursor).take defaultScanLimit.toNat).getLast? with
      | none =>
        have hempty := List.getLast?_eq_none_iff.mp hlast
        have hdone : (pending (shown pfx) s cursor).length ≤ defaultScanLimit.toNat := by
          simp only [List.take_eq_nil_iff] at hempty
          rcases hempty with hzero | hnil
          · cases hzero
          · exact hnil ▸ Nat.zero_le _
        rw [if_pos (by rw [pageUpTo, hempty]; rfl), h.finish (by decide) hempty]
        exact .inl ⟨rfl, h.fits_all hfits hdone⟩
      | some last =>
        obtain ⟨hnonempty, hcursor⟩ := pageUpTo_last row hkey hlast
        rw [if_neg hnonempty, hcursor, pageUpTo, List.length_map]
        split
        · -- the last page
          next hshort =>
          rw [List.length_take] at hshort
          have hall := List.take_of_length_le (show
            (pending (shown pfx) s cursor).length ≤ defaultScanLimit.toNat by omega)
          rw [hall, h.collected]
          exact .inl ⟨rfl, h.fits_all hfits (by omega)⟩
        · next hfull =>
          have hsorted := (pending_sorted (shown pfx) s cursor).sublist
            (List.take_sublist defaultScanLimit.toNat _)
          have hlong :
              2 ≤ ((pending (shown pfx) s cursor).take defaultScanLimit.toNat).length :=
            Nat.le_trans (by decide) (Nat.le_of_not_gt hfull)
          refine ih (h.next hlast (getLast_ne_nil hsorted hlast hlong)) hfits ?_
          have hless := length_pending_lt (List.mem_of_mem_take (List.mem_of_getLast? hlast))
          omega
    · rw [herror]
      refine .inr ⟨e, rfl, fun hcalm hall => hnot hcalm ?_⟩
      rw [h.pageUpTo_eq]
      exact hall round

end FullScan

/-! ## The page functions -/

/-- Encoders fail with the internal error only. -/
def InternalOnly {α : Type} (x : Except Int α) : Prop :=
  ∀ code, x = .error code → code = errInternal

theorem InternalOnly.bind {α β : Type} {x : Except Int α} {f : α → Except Int β}
    (hx : InternalOnly x) (hf : ∀ a, InternalOnly (f a)) : InternalOnly (x >>= f) := by
  intro code h
  cases x with
  | error e =>
    cases h
    exact hx _ rfl
  | ok a => exact hf a code h

theorem InternalOnly.pure {α : Type} (a : α) : InternalOnly (Pure.pure a : Except Int α) := nofun

theorem encodeLen_internalOnly (len : Nat) : InternalOnly (encodeLen len) := by
  intro code h
  unfold encodeLen at h
  split at h
  · cases h
  · cases h
    rfl

theorem encodeList_internalOnly {α : Type} {put : α → Except Int Bytes}
    (hput : ∀ a, InternalOnly (put a)) (items : List α) : InternalOnly (encodeList put items) := by
  refine .bind (encodeLen_internalOnly _) fun count => ?_
  induction items generalizing count with
  | nil => exact .pure _
  | cons item rest ih =>
    rw [List.foldlM_cons]
    exact .bind (.bind (hput item) fun e => .pure _) fun out => ih out

theorem encodeScanRow_internalOnly (row : Bytes × Bytes) : InternalOnly (encodeScanRow row) :=
  .bind (encodeLen_internalOnly _) fun _ => .bind (encodeLen_internalOnly _) fun _ => .pure _

theorem encodeSized_internalOnly (bytes : Bytes) : InternalOnly (encodeSized bytes) :=
  .bind (encodeLen_internalOnly _) fun _ => .pure _

section Scans

variable {α : Type} {w : UsizeWidth} {g : Surroundings} {h : HostState} {pfx : Bytes}
  {row : Bytes × Bytes → α} {put : α → Except Int Bytes}
  {get : Bytes → Nat → Except ParseError (α × Nat)}

/-- The page functions of the guest library, for either kind of page. -/
def hostPage (w : UsizeWidth) (g : Surroundings) (h : HostState) (row : Bytes × Bytes → α)
    (put : α → Except Int Bytes) (get : Bytes → Nat → Except ParseError (α × Nat)) (pfx : Bytes)
    (limit : UInt32) (fuel round : Nat) (cursor : Option Bytes) :
    Option (Except SdkFailure (List α)) :=
  pageAfterLoop w h (fun attempt => pageAfterCall row put (g.fault round attempt))
    (fun buf => parseList w buf get) (g.frame round) pfx (cursor.getD []) limit fuel 0 256

/-- One page of either kind and any size, within twelve doublings of the buffer. -/
theorem hostPage_settled (hinv : Inverse w put get) (hput : ∀ a, InternalOnly (put a))
    (hg : g.Sound) (hlen : pfx.length ≤ maxKeyLen) (hvisible : isReserved pfx = false)
    {cursor : Option Bytes} (hcursor : CursorOk pfx cursor) {limit : UInt32}
    (hlimit : PageLimit limit) {fuel : Nat} (hfuel : 12 < fuel) (round : Nat) :
    Settled (∀ attempt, g.fault round attempt = none) (pageUpTo row limit h.store pfx cursor)
      (Fits put (pageUpTo row limit h.store pfx cursor))
      (hostPage w g h row put get pfx limit fuel round cursor) := by
  have hstart : (cursor.getD []).length ≤ maxKeyLen := by
    cases cursor with
    | none => exact Nat.zero_le _
    | some c => exact hcursor.short c rfl
  refine pageAfterLoop_spec (fun attempt cap hcap => ?_) (fun e he hfits => ?_) 12 rfl hfuel
  · exact callHost_answer hlimit hlen hvisible hcursor hcap
      (hg round attempt pfx (cursor.getD []) cap hlen hstart hcap) (encodeList_internalOnly hput)
  · refine hinv.parseList_encodeList (hfits.trans ?_) he
    cases w <;> decide

theorem cursorOk_of_between
    (hkeys : ∀ key ∈ h.store, isReserved key = false → key.length ≤ maxKeyLen)
    {cursor : Option Bytes} (hcursor : Between h.store pfx cursor) :
    CursorOk pfx cursor := by
  have hshown : ∀ c, cursor = some c → c ∈ h.store ∧ startsWith c pfx = true ∧
      isReserved c = false := by
    intro c hc
    obtain ⟨-, v, hv⟩ := hcursor c hc
    obtain ⟨hget, hscope, -⟩ := mem_pending.mp hv
    rw [shown, Bool.and_eq_true, Bool.not_eq_true'] at hscope
    exact ⟨ExtTreeMap.mem_iff_isSome_getElem?.mpr (by rw [hget]; rfl), hscope⟩
  refine ⟨?_, fun c hc => (hcursor c hc).1, fun c hc => ?_, fun c hc => (hshown c hc).2.2⟩
  · cases cursor with
    | none => trivial
    | some c => exact (hshown c rfl).2.1
  · exact hkeys c (hshown c hc).1 (hshown c hc).2.2

/-- There are no more pages than rows. -/
theorem length_pending_le (s : Store) (pfx : Bytes) :
    (pending (shown pfx) s none).length ≤ s.size := by
  rw [← ExtTreeMap.length_toList]
  exact List.length_filter_le _ _

/-- The whole scan of either kind. -/
theorem fullScan_settled {keyOf : α → Bytes} (hkey : ∀ entry, keyOf (row entry) = entry.1)
    (hinv : Inverse w put get) (hput : ∀ a, InternalOnly (put a)) (hg : g.Sound)
    (hlen : pfx.length ≤ maxKeyLen) (hvisible : isReserved pfx = false)
    (hkeys : ∀ key ∈ h.store, isReserved key = false → key.length ≤ maxKeyLen)
    {fuel : Nat} (hfuel : 12 + h.store.size < fuel) :
    Settled (∀ round attempt, g.fault round attempt = none)
      ((pending (shown pfx) h.store none).map row)
      (∀ i, Fits put (pageOf defaultScanLimit i ((pending (shown pfx) h.store none).map row)))
      (Sdk.fullScanLoop keyOf (hostPage w g h row put get pfx defaultScanLimit fuel) fuel 0
        none []) := by
  refine fullScanLoop_spec hkey (fun round cursor hcursor => ?_) (.start _ _ _ _) nofun ?_
  · rcases @hostPage_settled _ w g h pfx row put get hinv hput hg hlen hvisible cursor
      (cursorOk_of_between hkeys hcursor) defaultScanLimit ⟨by decide, by decide⟩ fuel (by omega)
      round with hok | ⟨e, herror, hnot⟩
    · exact .inl hok
    · exact .inr ⟨e, herror, fun hcalm => hnot (hcalm round)⟩
  · have hle := length_pending_le h.store pfx
    omega

end Scans

/-! ## Complete scans -/

/-- The rows of a store under a prefix, without the reserved ones. -/
def visibleRows (s : Store) (pfx : String) : List (Bytes × Bytes) :=
  s.toList.filter fun entry => shown (asBytes pfx) entry.1

theorem pending_eq_visibleRows (s : Store) (pfx : String) :
    pending (shown (asBytes pfx)) s none = visibleRows s pfx := by
  refine List.filter_congr fun entry _ => ?_
  simp [passed]

theorem visibleRows_sorted (s : Store) (pfx : String) :
    (visibleRows s pfx).Pairwise fun a b => compare a.1 b.1 = .lt := by
  rw [← pending_eq_visibleRows]
  exact pending_sorted _ _ _

theorem mem_visibleRows {s : Store} {pfx : String} {key value : Bytes} :
    (key, value) ∈ visibleRows s pfx ↔
      s[key]? = some value ∧ startsWith key (asBytes pfx) = true ∧ isReserved key = false := by
  rw [← pending_eq_visibleRows, mem_pending, shown, Bool.and_eq_true, Bool.not_eq_true']
  exact ⟨fun hmem => ⟨hmem.1, hmem.2.1⟩, fun hmem => ⟨hmem.1, hmem.2, rfl⟩⟩

/-- For every store with guest keys of at most 8 KiB and every prefix a guest may
use: both scans end; their result is the list of all visible rows (or keys), or an
error; and unless the store fails, it is the list exactly if every page fits. -/
theorem fullScan_complete (w : UsizeWidth) {g : Surroundings} (hg : g.Sound) (h : HostState)
    {pfx : String} (hlen : (asBytes pfx).length ≤ maxKeyLen)
    (hvisible : isReserved (asBytes pfx) = false)
    (hkeys : ∀ key ∈ h.store, isReserved key = false → key.length ≤ maxKeyLen) :
    ((visibleRows h.store pfx).Pairwise fun a b => compare a.1 b.1 = .lt) ∧
    (∀ key value, (key, value) ∈ visibleRows h.store pfx ↔
      h.store[key]? = some value ∧ startsWith key (asBytes pfx) = true ∧ isReserved key = false) ∧
    ∃ enough, ∀ fuel ≥ enough,
      Settled (∀ round attempt, g.fault round attempt = none) (visibleRows h.store pfx)
        (∀ i, Fits encodeScanRow (pageOf defaultScanLimit i (visibleRows h.store pfx)))
        (Sdk.scan w g h fuel pfx) ∧
      Settled (∀ round attempt, g.fault round attempt = none)
        ((visibleRows h.store pfx).map Prod.fst)
        (∀ i, Fits encodeSized (pageOf defaultScanLimit i ((visibleRows h.store pfx).map Prod.fst)))
        (Sdk.keys w g h fuel pfx) := by
  refine ⟨visibleRows_sorted _ _, fun key value => mem_visibleRows, 13 + h.store.size,
    fun fuel hfuel => ⟨?_, ?_⟩⟩
  · have hscan := @fullScan_settled _ w g h _ id encodeScanRow (parseScanRow w) Prod.fst
      (fun _ => rfl) inverse_scanRow encodeScanRow_internalOnly hg hlen hvisible hkeys fuel
      (by omega)
    rw [List.map_id, pending_eq_visibleRows] at hscan
    exact hscan
  · have hkeysScan := @fullScan_settled _ w g h _ Prod.fst encodeSized (parseSized w) id
      (fun _ => rfl) inverse_sized encodeSized_internalOnly hg hlen hvisible hkeys fuel (by omega)
    rw [pending_eq_visibleRows] at hkeysScan
    exact hkeysScan

/-- Prefix, cursor and buffer one after the other, and a store that never fails. -/
def flatSurroundings : Surroundings where
  frame _ _ pfx startAfter cap :=
    { memory := ⟨pfx ++ startAfter ++ List.replicate cap 0⟩
      prefixPtr := 0
      startAfterPtr := UInt32.ofNat pfx.length
      outPtr := UInt32.ofNat (pfx.length + startAfter.length) }
  fault _ _ := none

theorem flatSurroundings_sound : flatSurroundings.Sound := by
  intro round attempt pfx startAfter cap hpfx hstart hcap
  have hsum : pfx.length + startAfter.length ≤ maxScanBuffer := by
    unfold maxKeyLen at hpfx hstart
    unfold maxScanBuffer
    omega
  refine ⟨?_, fun _ => ?_, ?_⟩
  · simp [flatSurroundings, GuestMemory.read, GuestMemory.size, List.append_assoc]
  · simp only [flatSurroundings]
    rw [toNat_ofNat_of_le (hpfx.trans maxKeyLen_le)]
    simp [GuestMemory.read, GuestMemory.size, List.append_assoc]
  · simp only [flatSurroundings]
    rw [toNat_ofNat_of_le hsum]
    simp [GuestMemory.size, Nat.add_assoc]

/-- One guest row next to one of the runtime's. -/
def twoRowHost : HostState where
  memory := none
  store := OrdMap.insertAll ∅ [(asBytes "a", [1]), (asBytes "__nx/x", [2])]
  sync := none

theorem twoRowHost_visible : visibleRows twoRowHost.store "" = [(asBytes "a", [1])] := by
  decide +kernel

/-- The bound on guest keys, checked row by row. -/
theorem keys_short_of_rows {s : Store} (hall : ∀ row ∈ s.toList, row.1.length ≤ maxKeyLen)
    (key : Bytes) (hkey : key ∈ s) (_ : isReserved key = false) : key.length ≤ maxKeyLen := by
  obtain ⟨value, hvalue⟩ := Option.isSome_iff_exists.mp (ExtTreeMap.mem_iff_isSome_getElem?.mp hkey)
  exact hall (key, value) (ExtTreeMap.mem_toList_iff_getElem?_eq_some.mpr hvalue)

theorem fullScan_complete_twoRows :
    ∃ enough, ∀ fuel ≥ enough,
      Sdk.scan .bits32 flatSurroundings twoRowHost fuel "" = some (.ok [(asBytes "a", [1])]) := by
  have hkeys : ∀ key ∈ twoRowHost.store, isReserved key = false → key.length ≤ maxKeyLen :=
    keys_short_of_rows (by decide +kernel)
  have hfits : ∀ i, Fits encodeScanRow
      (pageOf defaultScanLimit i (visibleRows twoRowHost.store "")) := by
    rw [twoRowHost_visible]
    intro i
    cases i with
    | zero => exact ⟨_, rfl, by decide⟩
    | succ i => exact fits_pageOf_of_le (by simp [defaultScanLimit]; omega)
  obtain ⟨-, -, enough, hscan⟩ := @fullScan_complete .bits32 _ flatSurroundings_sound twoRowHost
    "" (by decide) (by decide) hkeys
  refine ⟨enough, fun fuel hfuel => ?_⟩
  rcases (hscan fuel hfuel).1 with ⟨hok, -⟩ | ⟨e, -, hnot⟩
  · rw [hok, twoRowHost_visible]
  · exact absurd hfits (hnot fun _ _ => rfl)

end Numax
