import Numax.Api.Keys
import Numax.Store.Paging

/-!
# Following the cursor through the keys

A client of the management API starts without a cursor and sends back the
`next_cursor` of each page until there is none. Whatever limits it uses, and
however the body limit trims the pages, a page is a non-empty piece of what is
still pending, and its cursor is its last key as long as something is behind it
(`listKeysRoute_page`). So the client has seen every key once, in order, when the
cursor is gone.
-/

open Base Std

namespace Numax

open Store

/-! ## Encoded keys -/

variable {engine : Base64.Engine}

theorem decodeKey_encodeKey (key : Bytes) (allowAbsent : Bool) :
    decodeKey engine (some (encodeKey engine key)) allowAbsent =
      if key.length > maxKeySize then none else some key := by
  cases key with
  | nil => rfl
  | cons b rest =>
    have hencode : encodeKey engine (b :: rest) = engine.encode (b :: rest) := rfl
    have hdecode := engine.decode_encode (b :: rest)
    have htilde : engine.encode (b :: rest) ≠ emptyKey := by
      intro h
      rw [h, emptyKey, engine.decode_tilde] at hdecode
      cases hdecode
    have hnonempty : ¬ (engine.encode (b :: rest)).isEmpty = true := by
      rw [String.isEmpty_iff]
      exact engine.encode_ne_empty (List.cons_ne_nil _ _)
    simp only [decodeKey, hencode, if_neg hnonempty, if_neg htilde, hdecode, List.isEmpty_cons,
      Bool.false_or, decide_eq_true_eq]

variable {key : Bytes}

/-- A text of more than 8 KiB is refused, whatever stands for them. -/
theorem decodeKey_long {text : String} (htext : engine.decode text = some key)
    (hlong : maxKeySize < key.length) (allowAbsent : Bool) :
    decodeKey engine (some text) allowAbsent = none := by
  have htilde : text ≠ emptyKey := by
    rintro rfl
    rw [emptyKey, engine.decode_tilde] at htext
    cases htext
  simp only [decodeKey, if_neg htilde, htext, hlong, decide_true, Bool.or_true, if_true, ite_self]

/-! ## Body size -/

/-- The body of a page. -/
def pageText (page : PageResponse String) : Bytes := asBytes (String.ofList (pageCodec.print page))

theorem length_asBytes_ofList_le (cs : List Char) :
    (asBytes (String.ofList cs)).length ≤ 4 * cs.length := by
  induction cs with
  | nil => exact Nat.zero_le _
  | cons c cs ih =>
    have hchar : (asBytes (String.singleton c)).length = c.utf8Size := by
      rw [asBytes, Array.length_toList]
      exact String.size_toByteArray.trans String.utf8ByteSize_singleton
    rw [String.ofList_cons, asBytes_append, List.length_append, hchar, List.length_cons]
    have := c.utf8Size_le_four
    omega

/-- An escape has at most six characters. -/
theorem length_print_string_le (s : String) :
    (Json.Codec.string.print s).length ≤ 6 * s.toList.length + 2 := by
  have hescape : ∀ c, (Json.Codec.escapeChar c).length ≤ 6 := by
    intro c
    unfold Json.Codec.escapeChar
    repeat' split
    all_goals simp
  have hbody : ∀ cs : List Char, (cs.flatMap Json.Codec.escapeChar).length ≤ 6 * cs.length := by
    intro cs
    induction cs with
    | nil => exact Nat.zero_le _
    | cons c cs ih =>
      rw [List.flatMap_cons, List.length_append, List.length_cons]
      have := hescape c
      omega
  have := hbody s.toList
  simp only [Json.Codec.string, List.length_cons, List.length_append, List.length_nil]
  omega

theorem length_encodeKey_le (engine : Base64.Engine) (h : key.length ≤ maxKeySize) :
    (encodeKey engine key).toList.length ≤ 10923 := by
  cases key with
  | nil =>
    change emptyKey.toList.length ≤ _
    decide
  | cons b rest =>
    change (engine.encode (b :: rest)).toList.length ≤ _
    have hlength := engine.length_encode (b :: rest)
    unfold maxKeySize at h
    omega

/-- A page with one key always fits. -/
theorem length_pageText_single (hkey : key.length ≤ maxKeySize) {next : Option Bytes}
    (hnext : ∀ k ∈ next, k.length ≤ maxKeySize) :
    (pageText ⟨[encodeKey engine key], next.map (encodeKey engine)⟩).length ≤
      maxResponseBodySize := by
  refine (length_asBytes_ofList_le _).trans ?_
  have hitem := length_print_string_le (encodeKey engine key)
  have hitemLen := length_encodeKey_le engine hkey
  have hcursor : ((Json.Codec.option Json.Codec.string Json.Codec.string_leads_some).print
      (next.map (encodeKey engine))).length ≤ 65540 := by
    cases next with
    | none =>
      rw [Option.map_none]
      decide
    | some k =>
      have hprint := length_print_string_le (encodeKey engine k)
      have hlen := length_encodeKey_le engine (hnext k rfl)
      change (Json.Codec.string.print (encodeKey engine k)).length ≤ _
      omega
  simp only [pageCodec, Json.Codec.imap, Json.Codec.field, Json.Codec.fieldName, Json.Codec.list,
    Json.Codec.items, Json.Codec.printItems, Json.Codec.done, List.length_append,
    List.length_cons, List.length_nil]
  have hname : ("items".toList).length = 5 := rfl
  have hname' : ("next_cursor".toList).length = 11 := rfl
  unfold maxResponseBodySize
  omega

/-- The serializer writes the JSON text of the page, in whatever pieces. -/
def Prints (pieces : PageResponse String → List Bytes) : Prop :=
  ∀ page, (pieces page).flatten = pageText page

theorem toWriter_eq (pieces : List Bytes) (body : LimitedJsonBody)
    (hbody : body.bytes.length ≤ maxResponseBodySize) :
    (body.bytes.length + pieces.flatten.length ≤ maxResponseBodySize ∧
        body.toWriter pieces = ({ body with bytes := body.bytes ++ pieces.flatten }, true)) ∨
      maxResponseBodySize < body.bytes.length + pieces.flatten.length ∧
        ∃ after, body.toWriter pieces = (after, false) ∧ after.exceeded = true := by
  induction pieces generalizing body with
  | nil => exact .inl ⟨by simpa using hbody, by simp [LimitedJsonBody.toWriter]⟩
  | cons piece rest ih =>
    rw [LimitedJsonBody.toWriter, LimitedJsonBody.write, List.flatten_cons, List.length_append]
    by_cases hlong : piece.length > maxResponseBodySize - body.bytes.length
    · rw [if_pos hlong]
      exact .inr ⟨by omega, _, rfl, rfl⟩
    · rw [if_neg hlong]
      have hnext : (body.bytes ++ piece).length ≤ maxResponseBodySize := by
        rw [List.length_append]
        omega
      rcases ih { body with bytes := body.bytes ++ piece } hnext with
        ⟨hfits, heq⟩ | ⟨hover, hstop⟩
      · refine .inl ⟨?_, ?_⟩
        · rw [List.length_append] at hfits
          omega
        · simp [heq]
      · refine .inr ⟨?_, hstop⟩
        rw [List.length_append] at hover
        omega

/-- A page is written whole, or the writer reports that it is too long. -/
theorem toWriter_page {pieces : PageResponse String → List Bytes} (hpieces : Prints pieces)
    (page : PageResponse String) :
    ((pageText page).length ≤ maxResponseBodySize ∧
        LimitedJsonBody.toWriter {} (pieces page) = ({ bytes := pageText page }, true)) ∨
      maxResponseBodySize < (pageText page).length ∧
        ∃ after, LimitedJsonBody.toWriter {} (pieces page) = (after, false) ∧
          after.exceeded = true := by
  have h := toWriter_eq (pieces page) {} (Nat.zero_le _)
  rw [hpieces page, List.length_nil, Nat.zero_add, List.nil_append] at h
  exact h

/-! ## One page -/

/-- A trimmed page is a piece at the front of the keys; its cursor is its last key
as soon as something was trimmed. -/
theorem boundedPageLoop_keys {pieces : PageResponse String → List Bytes} (hpieces : Prints pieces)
    {keys : List Bytes} (hkeys : ∀ key ∈ keys, key.length ≤ maxKeySize) {next : Option Bytes}
    (hnext : next = none ∨ next = keys.getLast?) :
    ∃ front behind, keys = front ++ behind ∧ (behind ≠ [] → front ≠ []) ∧
      boundedPageLoop pieces id ⟨keys.map (encodeKey engine), next.map (encodeKey engine)⟩ =
        .ok (pageText ⟨front.map (encodeKey engine),
          (if behind = [] then next else front.getLast?).map (encodeKey engine)⟩) := by
  induction keys using List.reverseRecOn generalizing next with
  | nil =>
    have hnone : next = none := by simpa using hnext
    subst hnone
    refine ⟨[], [], rfl, fun h => absurd rfl h, ?_⟩
    rw [boundedPageLoop]
    rcases toWriter_page hpieces ⟨[], none⟩ with ⟨-, hall⟩ | ⟨hover, -⟩
    · simp only [List.map_nil, Option.map_none, hall, if_true]
    · exact absurd hover (by decide +kernel)
  | append_singleton init last ih =>
    rw [boundedPageLoop]
    rcases toWriter_page hpieces
      ⟨(init ++ [last]).map (encodeKey engine), next.map (encodeKey engine)⟩ with
      ⟨-, hall⟩ | ⟨hover, after, hstop, hexceeded⟩
    · refine ⟨init ++ [last], [], (List.append_nil _).symm, fun h => absurd rfl h, ?_⟩
      simp only [hall, if_true]
    · by_cases hinit : init = []
      · -- a single key is never too long
        subst hinit
        refine absurd (length_pageText_single (hkeys last (by simp)) ?_) (Nat.not_le.mpr hover)
        rintro k rfl
        have hlast : k = last := by simpa using hnext
        exact hlast ▸ hkeys last (by simp)
      · obtain ⟨front, behind, hsplit, hfront, hloop⟩ := ih
          (fun key hkey => hkeys key (List.mem_append_left _ hkey)) (.inr rfl)
        refine ⟨front, behind ++ [last], by rw [hsplit, List.append_assoc], fun _ => ?_, ?_⟩
        · rintro rfl
          have hbehind : behind = [] := by
            by_contra hne
            exact hfront hne rfl
          exact hinit (by rw [hsplit, hbehind]; rfl)
        · have hlong : ¬ ((init ++ [last]).map (encodeKey engine)).length ≤ 1 := by
            have := List.length_pos_iff.mpr hinit
            simp only [List.length_map, List.length_append, List.length_singleton]
            omega
          have hcursor : (if behind = [] then init.getLast? else front.getLast?) =
              front.getLast? := by
            split
            · next hnil => rw [hsplit, hnil, List.append_nil]
            · rfl
          simp only [hstop, Bool.false_eq_true, if_false, hexceeded, hlong, decide_false,
            Bool.not_true, Bool.or_false]
          rw [List.map_append, List.map_singleton, List.dropLast_concat, List.getLast?_map,
            Option.map_map, Function.id_comp, hloop, hcursor, if_neg (by simp)]

variable {cursor : Option Bytes}

theorem cursorUnder_of_not_refused {pfx : Bytes} (h : cursorRefused pfx cursor = false) :
    CursorUnder pfx cursor := by
  cases cursor with
  | none => trivial
  | some c =>
    simp only [cursorRefused, Option.any_some, Bool.or_eq_false_iff, Bool.and_eq_false_iff,
      Bool.not_eq_false'] at h
    rcases h.2 with hempty | hunder
    · rw [List.isEmpty_iff.mp hempty]
      exact startsWith_iff.mpr List.nil_prefix
    · exact hunder

variable {limit : Nat}

theorem listKeys_page (s : Store) {pfx : Bytes} (hlimit : 1 ≤ limit ∧ limit ≤ maxControlPageSize)
    (hcursor : cursorRefused pfx cursor = false) :
    listKeys none s pfx cursor limit =
      .ok { items := ((pending (shown pfx) s cursor).take limit).map Prod.fst
            nextCursor := if (pending (shown pfx) s cursor).length > limit then
              (((pending (shown pfx) s cursor).take limit).map Prod.fst).getLast? else none } := by
  have hcount : (UInt32.ofNat (min (limit + 1) (2 ^ 32 - 1))).toNat = limit + 1 := by
    have := hlimit.2
    unfold maxControlPageSize at this
    rw [UInt32.toNat_ofNat', min_eq_left (by omega)]
    exact Nat.mod_eq_of_lt (by omega)
  have hpage : pageLoop Prod.fst 0 (limit + 1) (some (asBytes reservedPrefix))
      (s.entriesAfter pfx cursor) 0 [] =
        ((pending (shown pfx) s cursor).take (limit + 1)).map Prod.fst :=
    pageAfter_eq Prod.fst s (cursorUnder_of_not_refused hcursor) _ _
  simp only [listKeys, validatePageLimit, if_pos hlimit, hcursor, Bool.false_eq_true, if_false,
    keysPrefixPageAfter, accessing, hcount, hpage, ← List.map_take, List.take_take,
    min_eq_left (Nat.le_succ limit), List.length_map, List.length_take]
  congr 2
  have hmore : min (limit + 1) (pending (shown pfx) s cursor).length > limit ↔
      (pending (shown pfx) s cursor).length > limit := by omega
  simp only [hmore]

section Traversal

variable {pieces : PageResponse String → List Bytes} {s : Store} {pfx : Bytes}

/-- Guest keys are at most 8 KiB. -/
def KeysBounded (s : Store) : Prop :=
  ∀ key ∈ s, isReserved key = false → key.length ≤ maxKeySize

theorem length_le_of_pending (hkeys : KeysBounded s) {entry : Bytes × Bytes}
    (h : entry ∈ pending (shown pfx) s cursor) :
    entry.1.length ≤ maxKeySize ∧ startsWith entry.1 pfx = true ∧ isReserved entry.1 = false := by
  obtain ⟨hget, hshown, -⟩ := mem_pending.mp h
  rw [shown, Bool.and_eq_true, Bool.not_eq_true'] at hshown
  have hmem : entry.1 ∈ s := ExtTreeMap.mem_iff_isSome_getElem?.mpr (by rw [hget]; rfl)
  exact ⟨hkeys entry.1 hmem hshown.2, hshown⟩

/-- A cursor is sent exactly when something is behind the page, trimmed or not. -/
theorem cursor_eq {rest : List (Bytes × Bytes)} {front trimmed : List Bytes}
    (hsplit : (rest.take limit).map Prod.fst = front ++ trimmed) :
    (if trimmed = [] then
        if rest.length > limit then ((rest.take limit).map Prod.fst).getLast? else none
      else front.getLast?) = if rest.drop front.length = [] then none else front.getLast? := by
  have hlength : front.length + trimmed.length = min limit rest.length := by
    rw [← List.length_append, ← hsplit, List.length_map, List.length_take]
  simp only [List.drop_eq_nil_iff]
  by_cases htrimmed : trimmed = []
  · rw [if_pos htrimmed, hsplit, htrimmed, List.append_nil]
    rw [htrimmed, List.length_nil] at hlength
    split <;> split <;> first | rfl | omega
  · have := List.length_pos_iff.mpr htrimmed
    rw [if_neg htrimmed, if_neg (by omega)]

/-- The page of the pending keys: a piece at their front, with its last key as cursor
while something is behind it. -/
theorem boundedKeyPage_eq (hpieces : Prints pieces) {rest : List (Bytes × Bytes)}
    (hrest : ∀ entry ∈ rest, entry.1.length ≤ maxKeySize) (hlimit : 1 ≤ limit) :
    ∃ page behind, rest = page ++ behind ∧ (behind ≠ [] → page ≠ []) ∧
      boundedKeyPage engine pieces ((rest.take limit).map Prod.fst)
          (if rest.length > limit then ((rest.take limit).map Prod.fst).getLast? else none) =
        .ok (pageText ⟨page.map fun entry => encodeKey engine entry.1,
          if behind = [] then none
          else page.getLast?.map fun entry => encodeKey engine entry.1⟩) := by
  have hkeys : ∀ key ∈ (rest.take limit).map Prod.fst, key.length ≤ maxKeySize := by
    intro key hkey
    obtain ⟨entry, hentry, rfl⟩ := List.mem_map.mp hkey
    exact hrest entry (List.mem_of_mem_take hentry)
  have hshort : ¬ ((rest.take limit).map Prod.fst).any
      (fun key => decide (key.length > maxKeySize)) = true := by
    rw [List.any_eq_true]
    rintro ⟨key, hkey, hlong⟩
    exact absurd (hkeys key hkey) (Nat.not_le.mpr (of_decide_eq_true hlong))
  obtain ⟨front, trimmed, hsplit, hfront, hloop⟩ := @boundedPageLoop_keys engine _ hpieces _ hkeys
    (if rest.length > limit then ((rest.take limit).map Prod.fst).getLast? else none)
    (by split <;> simp)
  have hlength : front.length + trimmed.length = min limit rest.length := by
    rw [← List.length_append, ← hsplit, List.length_map, List.length_take]
  -- what fits the body is a front of the rest
  have hpage : (rest.take front.length).map Prod.fst = front := by
    have htake : ((rest.take limit).map Prod.fst).take front.length = front := by
      rw [hsplit, List.take_left]
    rwa [← List.map_take, List.take_take, min_eq_left (by omega)] at htake
  have hitems : front.map (encodeKey engine) =
      (rest.take front.length).map fun entry => encodeKey engine entry.1 := by
    nth_rewrite 1 [← hpage]
    exact List.map_map
  have hlast : (front.getLast?).map (encodeKey engine) =
      (rest.take front.length).getLast?.map fun entry => encodeKey engine entry.1 := by
    rw [← List.getLast?_map, hitems, List.getLast?_map]
  refine ⟨rest.take front.length, rest.drop front.length, (List.take_append_drop _ _).symm, ?_, ?_⟩
  · -- the first key always fits
    intro hbehind hnil
    have hzero : front = [] := by rw [← hpage, hnil, List.map_nil]
    have hsome : 0 < rest.length := by
      refine List.length_pos_iff.mpr ?_
      rintro rfl
      exact hbehind List.drop_nil
    rw [hzero, List.length_nil] at hlength
    exact hfront (List.length_pos_iff.mp (by omega)) hzero
  · rw [boundedKeyPage, if_neg hshort, boundedPage, hloop, cursor_eq hsplit, hitems,
      apply_ite (Option.map (encodeKey engine)), hlast, Option.map_none]

/-- What the route answers: the first pending keys, and the last of them as cursor
while there are more. -/
theorem listKeysRoute_page (hpieces : Prints pieces) (hkeys : KeysBounded s)
    {query : KeyPageQuery} {limit : Nat} (hlimit : pageSize query.limit = some limit)
    (hpfx : decodeKey engine query.pfx true = some pfx) {cursor : Option Bytes}
    (hdecode : decodeCursor engine query.cursor = some cursor)
    (hcursor : cursorRefused pfx cursor = false) :
    ∃ page behind, pending (shown pfx) s cursor = page ++ behind ∧ (behind ≠ [] → page ≠ []) ∧
      listKeysRoute engine none s pieces (some query) =
        .ok (pageText ⟨page.map fun entry => encodeKey engine entry.1,
          if behind = [] then none
          else page.getLast?.map fun entry => encodeKey engine entry.1⟩) := by
  have hrange : 1 ≤ limit ∧ limit ≤ maxControlPageSize := by
    simp only [pageSize, Option.ite_none_right_eq_some, Option.some.injEq] at hlimit
    exact hlimit.2 ▸ hlimit.1
  have hrest : ∀ entry ∈ pending (shown pfx) s cursor, entry.1.length ≤ maxKeySize :=
    fun entry hentry => (length_le_of_pending hkeys hentry).1
  obtain ⟨page, behind, hsplit, hpage, hroute⟩ := boundedKeyPage_eq hpieces hrest hrange.1
  refine ⟨page, behind, hsplit, hpage, ?_⟩
  simp only [listKeysRoute, hlimit, hpfx, hdecode, listKeys_page s hrange hcursor]
  exact hroute

/-! ## The client -/

inductive ClientError where
  | refused (error : ApiError)
  | unreadable
deriving DecidableEq, Repr

def readPage (body : Bytes) : Option (PageResponse String) :=
  (fromUtf8 body).bind fun text => pageCodec.parseAll text.toList

theorem readPage_pageText (page : PageResponse String) : readPage (pageText page) = some page := by
  rw [readPage, pageText, fromUtf8_asBytes, Option.bind_some, String.toList_ofList,
    Json.Codec.parseAll_print]

/-- Ask for pages until one comes without a cursor. -/
def followCursor (get : KeyPageQuery → Except ApiError Bytes) (pfx : Option String)
    (limits : Nat → Option Nat) : Nat → Nat → Option String → List String →
      Option (Except ClientError (List String))
  | 0, _, _, _ => none
  | fuel + 1, round, cursor, out =>
    match get { pfx, cursor, limit := limits round } with
    | .error error => some (.error (.refused error))
    | .ok body =>
      match readPage body with
      | none => some (.error .unreadable)
      | some page =>
        match page.nextCursor with
        | none => some (.ok (out ++ page.items))
        | some cursor =>
          followCursor get pfx limits fuel (round + 1) (some cursor) (out ++ page.items)

/-- The keys of a listing, in order. -/
def listedKeys (s : Store) (pfx : Bytes) : List Bytes :=
  (pending (shown pfx) s none).map Prod.fst

theorem mem_listedKeys :
    key ∈ listedKeys s pfx ↔ key ∈ s ∧ startsWith key pfx = true ∧ isReserved key = false := by
  have hscope : shown pfx key = true ↔ startsWith key pfx = true ∧ isReserved key = false := by
    rw [shown, Bool.and_eq_true, Bool.not_eq_true']
  constructor
  · intro hkey
    obtain ⟨⟨key, value⟩, hentry, rfl⟩ := List.mem_map.mp hkey
    obtain ⟨hget, hshown, -⟩ := mem_pending.mp hentry
    exact ⟨ExtTreeMap.mem_iff_isSome_getElem?.mpr (by rw [hget]; rfl), hscope.mp hshown⟩
  · rintro ⟨hkey, hshown⟩
    obtain ⟨value, hget⟩ := Option.isSome_iff_exists.mp (ExtTreeMap.mem_iff_isSome_getElem?.mp hkey)
    exact List.mem_map.mpr ⟨(key, value), mem_pending.mpr ⟨hget, hscope.mpr hshown, rfl⟩, rfl⟩

/-- A cursor the API has handed out. -/
def HandedOut (pfx : Bytes) (cursor : Option Bytes) : Prop :=
  ∀ c ∈ cursor, c.length ≤ maxKeySize ∧ startsWith c pfx = true ∧ isReserved c = false

theorem HandedOut.accepted (h : HandedOut pfx cursor) :
    decodeCursor engine (cursor.map (encodeKey engine)) = some cursor ∧
      cursorRefused pfx cursor = false := by
  cases cursor with
  | none => exact ⟨rfl, rfl⟩
  | some c =>
    obtain ⟨hshort, hunder, hguest⟩ := h c rfl
    refine ⟨?_, by simp [cursorRefused, hunder, hguest]⟩
    rw [Option.map_some, decodeCursor, decodeKey_encodeKey, if_neg (Nat.not_lt.mpr hshort),
      Option.map_some]

theorem followCursor_exact (hpieces : Prints pieces) (hkeys : KeysBounded s)
    {param : Option String} (hpfx : decodeKey engine param true = some pfx)
    {limits : Nat → Option Nat}
    (hlimits : ∀ round, (pageSize (limits round)).isSome) {fuel : Nat} (round : Nat)
    {cursor : Option Bytes} (hcursor : HandedOut pfx cursor)
    {out : List String}
    (hout : Collected (shown pfx) s (fun entry => encodeKey engine entry.1) cursor out)
    (hfuel : (pending (shown pfx) s cursor).length < fuel) :
    followCursor (fun query => listKeysRoute engine none s pieces (some query))
          param limits fuel round (cursor.map (encodeKey engine)) out =
      some (.ok ((listedKeys s pfx).map (encodeKey engine))) := by
  -- each page leaves fewer keys pending
  induction fuel generalizing round cursor out with
  | zero => exact absurd hfuel (Nat.not_lt_zero _)
  | succ fuel ih =>
    obtain ⟨limit, hlimit⟩ := Option.isSome_iff_exists.mp (hlimits round)
    obtain ⟨hdecode, haccept⟩ := hcursor.accepted
    obtain ⟨page, behind, hsplit, hpage, hroute⟩ := @listKeysRoute_page engine pieces s pfx
      hpieces hkeys
      ⟨param, cursor.map (encodeKey engine), limits round⟩
      limit hlimit hpfx cursor hdecode haccept
    rw [followCursor]
    simp only [hroute, readPage_pageText]
    by_cases hbehind : behind = []
    · rw [if_pos hbehind]
      rw [Collected, hsplit, hbehind, List.append_nil] at hout
      rw [listedKeys, List.map_map]
      exact congrArg (some ∘ Except.ok) hout
    · obtain ⟨last, hlast⟩ := Option.ne_none_iff_exists'.mp
        (mt List.getLast?_eq_none_iff.mp (hpage hbehind))
      have hmem : last ∈ pending (shown pfx) s cursor := by
        rw [hsplit]
        exact List.mem_append_left _ (List.mem_of_getLast? hlast)
      rw [if_neg hbehind, hlast, Option.map_some]
      refine @ih (round + 1) (some last.1) ?_ _ (hout.page hsplit hlast) ?_
      · rintro c ⟨⟩
        exact length_le_of_pending hkeys hmem
      · have := length_pending_lt hmem
        omega

theorem followCursor_longPrefix (s : Store) (pieces : PageResponse String → List Bytes)
    {text : String} (htext : engine.decode text = some pfx) (hlong : maxKeySize < pfx.length)
    (limits : Nat → Option Nat) (fuel : Nat) :
    followCursor (fun query => listKeysRoute engine none s pieces (some query)) (some text)
        limits (fuel + 1) 0 none [] =
      some (.error (.refused invalidRequest)) := by
  have hroute : listKeysRoute engine none s pieces (some ⟨some text, none, limits 0⟩) =
      .error invalidRequest := by
    simp only [listKeysRoute, decodeKey_long htext hlong]
    cases pageSize (limits 0) <;> rfl
  rw [followCursor, hroute]

/-- For every base64 engine, every store with guest keys of at most 8 KiB and every choice
of limits: under a prefix of at most 8 KiB, following `next_cursor` ends, and brings every
key under the prefix that is not reserved once, in ascending order. A longer prefix is
refused with the first request. -/
theorem keyTraversal_exact (engine : Base64.Engine) (hpieces : Prints pieces)
    (hkeys : KeysBounded s) {limits : Nat → Option Nat}
    (hlimits : ∀ round, ∀ limit ∈ limits round, 1 ≤ limit ∧ limit ≤ 100) (pfx : Bytes) :
    (pfx.length ≤ maxKeySize →
      ((listedKeys s pfx).Pairwise fun a b => compare a b = .lt) ∧
      (∀ key, key ∈ listedKeys s pfx ↔
        key ∈ s ∧ startsWith key pfx = true ∧ startsWith key (asBytes "__nx/") = false) ∧
      ∀ param, (param = some (encodeKey engine pfx) ∨ pfx = [] ∧ param = none) →
        ∃ texts,
          texts.map (fun text => decodeKey engine (some text) false) =
            (listedKeys s pfx).map some ∧
          ∃ enough, ∀ fuel ≥ enough,
            followCursor (fun query => listKeysRoute engine none s pieces (some query)) param
              limits fuel 0 none [] = some (.ok texts)) ∧
    (maxKeySize < pfx.length → ∀ text, engine.decode text = some pfx → ∀ fuel,
      followCursor (fun query => listKeysRoute engine none s pieces (some query)) (some text)
          limits (fuel + 1) 0 none [] =
        some (.error (.refused ⟨400, "invalid_request", "invalid request"⟩))) := by
  have hsizes : ∀ round, (pageSize (limits round)).isSome := by
    intro round
    rw [pageSize]
    cases hlimit : limits round with
    | none => rfl
    | some limit =>
      have hrange : 1 ≤ limit ∧ limit ≤ maxPageSize := hlimits round limit hlimit
      simp [hrange]
  refine ⟨fun hpfx => ⟨?_, fun key => mem_listedKeys, fun param hparam => ?_⟩,
    fun hlong text htext => followCursor_longPrefix s pieces htext hlong limits⟩
  · exact List.pairwise_map.mpr (pending_sorted _ _ _)
  · have hdecode : decodeKey engine param true = some pfx := by
      rcases hparam with rfl | ⟨rfl, rfl⟩
      · rw [decodeKey_encodeKey, if_neg (Nat.not_lt.mpr hpfx)]
      · rfl
    refine ⟨(listedKeys s pfx).map (encodeKey engine), ?_,
      (pending (shown pfx) s none).length + 1, fun fuel hfuel => ?_⟩
    · rw [List.map_map]
      refine List.map_congr_left fun key hkey => ?_
      obtain ⟨entry, hentry, rfl⟩ := List.mem_map.mp hkey
      rw [Function.comp_apply, decodeKey_encodeKey,
        if_neg (Nat.not_lt.mpr (length_le_of_pending hkeys hentry).1)]
    · exact @followCursor_exact _ _ _ _ hpieces hkeys _ hdecode _ hsizes _ 0 none nofun _
        (.start _) hfuel

end Traversal

/-- The empty key, a guest key and one of the runtime's. -/
def threeKeyStore : Store := OrdMap.insertAll ∅ [([], [1]), ([97], [2]), (asBytes "__nx/x", [3])]

/-- Its two guest keys are listed, and a prefix of 8193 bytes is refused. -/
theorem keyTraversal_exact_threeKeys :
    listedKeys threeKeyStore [] = [[], [97]] ∧
    (∃ texts,
      texts.map (fun text => decodeKey Base64.urlSafeNoPad (some text) false) =
        [some [], some [97]] ∧
      ∃ enough, ∀ fuel ≥ enough,
        followCursor (fun query => listKeysRoute Base64.urlSafeNoPad none threeKeyStore
          (fun page => [pageText page]) (some query)) none (fun _ => some 1) fuel 0 none [] =
            some (.ok texts)) ∧
    followCursor (fun query => listKeysRoute Base64.urlSafeNoPad none threeKeyStore
        (fun page => [pageText page]) (some query))
        (some (Base64.urlSafeNoPad.encode (List.replicate 8193 97))) (fun _ => some 1) 1 0 none [] =
      some (.error (.refused ⟨400, "invalid_request", "invalid request"⟩)) := by
  have hlisted : listedKeys threeKeyStore [] = [[], [97]] := by decide +kernel
  have hkeys : KeysBounded threeKeyStore := by
    intro key hkey _
    have hall : ∀ row ∈ threeKeyStore.toList, row.1.length ≤ maxKeySize := by decide +kernel
    obtain ⟨value, hvalue⟩ :=
      Option.isSome_iff_exists.mp (ExtTreeMap.mem_iff_isSome_getElem?.mp hkey)
    exact hall (key, value) (ExtTreeMap.mem_toList_iff_getElem?_eq_some.mpr hvalue)
  have hprints : Prints fun page => [pageText page] := by
    intro page
    rw [List.flatten_cons, List.flatten_nil, List.append_nil]
  have hexact := @keyTraversal_exact _ threeKeyStore Base64.urlSafeNoPad hprints hkeys
    (fun _ => some 1) (by rintro _ limit ⟨⟩; decide)
  obtain ⟨-, -, hfollow⟩ := (hexact []).1 (Nat.zero_le _)
  rw [hlisted] at hfollow
  refine ⟨hlisted, hfollow none (.inr ⟨rfl, rfl⟩), (hexact _).2 ?_ _
    (Base64.urlSafeNoPad.decode_encode _) 0⟩
  rw [List.length_replicate]
  decide

/-- A prefix of more than 8 KiB is refused, also where its listing is just empty. -/
theorem longPrefix_refused :
    listedKeys ∅ (List.replicate 8193 97) = [] ∧
    followCursor
        (fun query => listKeysRoute Base64.urlSafeNoPad none ∅ (fun page => [pageText page])
          (some query))
        (some (Base64.urlSafeNoPad.encode (List.replicate 8193 97))) (fun _ => some 1) 1 0 none [] =
      some (.error (.refused invalidRequest)) := by
  have hempty : ∀ pfx, listedKeys ∅ pfx = [] := fun _ => rfl
  have hlong : maxKeySize < (List.replicate 8193 97 : Bytes).length := by
    rw [List.length_replicate]
    decide
  exact ⟨hempty _,
    followCursor_longPrefix ∅ _ (Base64.urlSafeNoPad.decode_encode _) hlong _ 0⟩

end Numax
