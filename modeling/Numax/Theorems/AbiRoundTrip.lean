import Numax.Host.Abi
import Numax.Sdk.Parse

/-!
# Host encoders and guest parsers

Each of the five list formats of the guest interface is read back by the guest
library to what the host wrote, and the library accepts nothing but what the
host would write. Parsing never indexes out of range.

Both directions are proved for the items first (`Inverse`): at any position of a
buffer, the parser either refuses with the internal error or consumes exactly
the encoding of the item it returns. Lists follow by induction on the count.
-/

open Base

namespace Numax

/-- Encoder and parser of an item undo each other, wherever in a buffer the item
stands. -/
structure Inverse {α : Type} (w : UsizeWidth) (put : α → Except Int Bytes)
    (get : Bytes → Nat → Except ParseError (α × Nat)) : Prop where
  complete : ∀ (before after : Bytes) {a : α} {e : Bytes}, put a = .ok e →
    (before ++ e ++ after).length ≤ w.isizeMax →
      get (before ++ e ++ after) before.length = .ok (a, before.length + e.length)
  sound : ∀ before rest : Bytes, (before ++ rest).length ≤ w.isizeMax →
    get (before ++ rest) before.length = .error .internal ∨
      ∃ a e after, rest = e ++ after ∧ put a = .ok e ∧
        get (before ++ rest) before.length = .ok (a, before.length + e.length)

variable {e : Bytes}

section Items

variable {w : UsizeWidth}

theorem isizeMax_add_lt (w : UsizeWidth) : w.isizeMax + 4 ≤ w.max := by
  cases w <;> simp [UsizeWidth.isizeMax, UsizeWidth.max]

/-- Within a slice, saturation makes no difference to a bounds check. -/
theorem saturatingAdd_spec {a b len : Nat} (hlen : len ≤ w.isizeMax) :
    (saturatingAdd w a b > len ↔ a + b > len) ∧ (a + b ≤ len → saturatingAdd w a b = a + b) := by
  have hmax := isizeMax_add_lt w
  unfold saturatingAdd
  omega

theorem byteAt_append (before : Bytes) (rest : Bytes) (i : Nat) :
    byteAt (before ++ rest) (before.length + i) = byteAt rest i := by
  unfold byteAt
  rw [List.getElem?_append_right (Nat.le_add_right _ _), Nat.add_sub_cancel_left]

/-- Reading a length: four bytes, or the internal error. -/
theorem readU32Le_spec (before rest : Bytes) (hlen : (before ++ rest).length ≤ w.isizeMax) :
    (rest.length < 4 ∧ readU32Le w (before ++ rest) before.length = .error .internal) ∨
      ∃ e after, rest = e ++ after ∧ e.length = 4 ∧
        readU32Le w (before ++ rest) before.length = .ok (ofLe e, before.length + 4) := by
  obtain ⟨hover, hexact⟩ := @saturatingAdd_spec w before.length 4 _ hlen
  rw [List.length_append] at hover hexact
  by_cases hshort : rest.length < 4
  · left
    refine ⟨hshort, ?_⟩
    rw [readU32Le, List.length_append, if_pos (hover.mpr (by omega))]
  · right
    obtain ⟨b₀, b₁, b₂, b₃, after, rfl⟩ :
        ∃ b₀ b₁ b₂ b₃ after, rest = b₀ :: b₁ :: b₂ :: b₃ :: after := by
      match rest, hshort with
      | b₀ :: b₁ :: b₂ :: b₃ :: after, _ => exact ⟨b₀, b₁, b₂, b₃, after, rfl⟩
      | [], h | [_], h | [_, _], h | [_, _, _], h => simp at h
    refine ⟨[b₀, b₁, b₂, b₃], after, rfl, rfl, ?_⟩
    have hbyte := byteAt_append before (b₀ :: b₁ :: b₂ :: b₃ :: after)
    have h₀ : byteAt (before ++ b₀ :: b₁ :: b₂ :: b₃ :: after) before.length = .ok b₀ := hbyte 0
    rw [readU32Le, List.length_append, if_neg (by rw [hover]; simp), hexact (by simp), h₀,
      hbyte 1, hbyte 2, hbyte 3]
    rfl

theorem byteRange_append (before rest : Bytes) (start len : Nat) (h : start + len ≤ rest.length) :
    byteRange (before ++ rest) (before.length + start) (before.length + start + len) =
      .ok ((rest.drop start).take len) := by
  rw [byteRange, if_pos (by rw [List.length_append]; omega), Nat.add_sub_cancel_left,
    List.drop_append, List.drop_of_length_le (by omega), Nat.add_sub_cancel_left, List.nil_append]

/-- The next bytes: as many as asked for, or the internal error. -/
theorem takeBytes_spec (before rest : Bytes) (len : Nat)
    (hlen : (before ++ rest).length ≤ w.isizeMax) :
    takeBytes w (before ++ rest) before.length len =
      if len ≤ rest.length then .ok (rest.take len, before.length + len)
      else .error .internal := by
  obtain ⟨hover, hexact⟩ := @saturatingAdd_spec w before.length len _ hlen
  rw [List.length_append] at hover hexact
  unfold takeBytes byteRange
  rw [List.length_append]
  by_cases hfits : len ≤ rest.length
  · rw [if_neg (by rw [hover]; omega), if_pos hfits, hexact (by omega), if_pos (by omega),
      List.drop_left, Nat.add_sub_cancel_left]
    rfl
  · rw [if_pos (by rw [hover]; omega), if_neg hfits]

/-- An encoded length is read back, and what is read is an encoded length. -/
theorem encodeLen_ofLe (h : e.length = 4) : encodeLen (ofLe e) = .ok e := by
  have hlt := ofLe_lt e
  rw [h] at hlt
  have hback := leBytes_ofLe e
  rw [h] at hback
  rw [encodeLen, if_pos (by omega), hback]

theorem encodeLen_eq_ok {n : Nat} (h : encodeLen n = .ok e) :
    n < 2 ^ 32 ∧ e = leBytes 4 n ∧ e.length = 4 ∧ ofLe e = n := by
  unfold encodeLen at h
  split at h
  · next hlt =>
      cases h
      exact ⟨hlt, rfl, length_leBytes 4 n, by rw [ofLe_leBytes]; exact Nat.mod_eq_of_lt (by omega)⟩
  · cases h

/-- Reading an encoded length. -/
theorem readU32Le_encodeLen {n : Nat} (h : encodeLen n = .ok e) (before after : Bytes)
    (hlen : (before ++ e ++ after).length ≤ w.isizeMax) :
    readU32Le w (before ++ e ++ after) before.length = .ok (n, before.length + e.length) := by
  obtain ⟨-, -, hfour, hvalue⟩ := encodeLen_eq_ok h
  rw [List.append_assoc] at hlen ⊢
  rcases readU32Le_spec before (e ++ after) hlen with ⟨hshort, -⟩ | ⟨e', after', heq, hlen', hread⟩
  · rw [List.length_append] at hshort
    omega
  · have he : e = e' := (List.append_inj heq (hfour.trans hlen'.symm)).1
    rw [hread, ← he, hvalue, hfour]

theorem inverse_sized : Inverse w encodeSized (parseSized w) where
  complete before after a e hput hlen := by
    unfold encodeSized at hput
    cases hcode : encodeLen a.length with
    | error code => rw [hcode] at hput; cases hput
    | ok code =>
      rw [hcode] at hput
      cases hput
      have hlen' : (before ++ code ++ (a ++ after)).length ≤ w.isizeMax := by simpa using hlen
      have hread := readU32Le_encodeLen hcode before (a ++ after) hlen'
      have hbytes := takeBytes_spec (before ++ code) (a ++ after) a.length hlen'
      rw [if_pos (by simp), List.take_left, List.length_append] at hbytes
      have hassoc : before ++ (code ++ a) ++ after = before ++ code ++ (a ++ after) := by simp
      rw [hassoc, parseSized, hread]
      change takeBytes w _ (before.length + code.length) a.length = _
      rw [hbytes, List.length_append, Nat.add_assoc]
  sound before rest hlen := by
    unfold parseSized
    rcases readU32Le_spec before rest hlen with ⟨-, hread⟩ | ⟨e, after, rfl, hfour, hread⟩
    · left
      rw [hread]
      rfl
    · have hassoc : before ++ (e ++ after) = before ++ e ++ after := by simp
      rw [hread]
      have hbytes := takeBytes_spec (before ++ e) after (ofLe e) (by simpa using hlen)
      rw [List.length_append, hfour] at hbytes
      change takeBytes w _ (before.length + 4) (ofLe e) = _ ∨ ∃ a e' after', _ ∧ _ ∧
        takeBytes w _ (before.length + 4) (ofLe e) = _
      rw [hassoc, hbytes]
      by_cases hfits : ofLe e ≤ after.length
      · right
        have htake : (after.take (ofLe e)).length = ofLe e := by simpa using hfits
        refine ⟨after.take (ofLe e), e ++ after.take (ofLe e), after.drop (ofLe e), ?_, ?_, ?_⟩
        · rw [List.append_assoc, List.take_append_drop]
        · rw [encodeSized, htake, encodeLen_ofLe hfour]
          rfl
        · rw [if_pos hfits, List.length_append, htake, hfour, Nat.add_assoc]
      · left
        rw [if_neg hfits]

theorem inverse_text : Inverse w (fun text => encodeSized (asBytes text)) (parseText w) where
  complete before after text e hput hlen := by
    rw [parseText, inverse_sized.complete before after hput hlen]
    simp only [bind, Except.bind, fromUtf8_asBytes]
    rfl
  sound before rest hlen := by
    unfold parseText
    rcases inverse_sized.sound before rest hlen with hread | ⟨bytes, e, after, hrest, hput, hread⟩
    · left
      rw [hread]
      rfl
    · rw [hread]
      simp only [bind, Except.bind]
      cases htext : fromUtf8 bytes with
      | none => exact .inl rfl
      | some text =>
        refine .inr ⟨text, e, after, hrest, ?_, rfl⟩
        rw [asBytes_of_fromUtf8 htext]
        exact hput

/-- An encoded entry is an encoded field and an encoded value. -/
theorem encodeLwwMapEntry_eq_ok {entry : String × Bytes} :
    encodeLwwMapEntry entry = .ok e ↔
      ∃ e₁ e₂, encodeSized (asBytes entry.1) = .ok e₁ ∧ encodeSized entry.2 = .ok e₂ ∧
        e = e₁ ++ e₂ := by
  unfold encodeLwwMapEntry encodeSized
  cases encodeLen (asBytes entry.1).length with
  | error code => simp [bind, Except.bind]
  | ok fieldLen =>
    cases encodeLen entry.2.length with
    | error code => simp [bind, Except.bind]
    | ok valueLen => simp [bind, Except.bind, pure, Except.pure, eq_comm]

theorem inverse_entry : Inverse w encodeLwwMapEntry (parseEntry w) where
  complete before after entry e hput hlen := by
    obtain ⟨e₁, e₂, hfield, hvalue, rfl⟩ := encodeLwwMapEntry_eq_ok.mp hput
    have hassoc : before ++ (e₁ ++ e₂) ++ after = before ++ e₁ ++ (e₂ ++ after) := by simp
    have hassoc' : before ++ e₁ ++ (e₂ ++ after) = (before ++ e₁) ++ e₂ ++ after := by simp
    rw [hassoc] at hlen ⊢
    have hsecond := inverse_sized.complete (before ++ e₁) after hvalue (hassoc' ▸ hlen)
    rw [← hassoc', List.length_append] at hsecond
    rw [parseEntry, inverse_text.complete before (e₂ ++ after) hfield hlen]
    simp only [bind, Except.bind, hsecond, List.length_append, Nat.add_assoc]
    rfl
  sound before rest hlen := by
    unfold parseEntry
    rcases inverse_text.sound before rest hlen with hread | ⟨field, e₁, after, rfl, hfield, hread⟩
    · left
      rw [hread]
      rfl
    · rw [hread]
      have hassoc : before ++ (e₁ ++ after) = before ++ e₁ ++ after := by simp
      rw [hassoc] at hlen ⊢
      have hsecond := inverse_sized.sound (before ++ e₁) after hlen
      rw [List.length_append] at hsecond
      simp only [bind, Except.bind]
      rcases hsecond with hread' | ⟨value, e₂, after', rfl, hvalue, hread'⟩
      · left
        rw [hread']
      · right
        refine ⟨(field, value), e₁ ++ e₂, after', by simp,
          encodeLwwMapEntry_eq_ok.mpr ⟨e₁, e₂, hfield, hvalue, rfl⟩, ?_⟩
        rw [hread', List.length_append, Nat.add_assoc]
        rfl

theorem encodeScanRow_eq_ok {row : Bytes × Bytes} :
    encodeScanRow row = .ok e ↔
      ∃ e₁ e₂, encodeLen row.1.length = .ok e₁ ∧ encodeLen row.2.length = .ok e₂ ∧
        e = e₁ ++ e₂ ++ row.1 ++ row.2 := by
  unfold encodeScanRow
  cases encodeLen row.1.length with
  | error code => simp [bind, Except.bind]
  | ok keyLen =>
    cases encodeLen row.2.length with
    | error code => simp [bind, Except.bind]
    | ok valueLen => simp [bind, Except.bind, pure, Except.pure, eq_comm]

/-- Key and value of a row, or the internal error. -/
theorem takeRow_spec (before rest : Bytes) (keyLen valueLen : Nat)
    (hlen : (before ++ rest).length ≤ w.isizeMax) :
    takeRow w (before ++ rest) before.length keyLen valueLen =
      if keyLen + valueLen ≤ rest.length then
        .ok ((rest.take keyLen, (rest.drop keyLen).take valueLen),
          before.length + keyLen + valueLen)
      else .error .internal := by
  have hmax := isizeMax_add_lt w
  have hlength : (before ++ rest).length = before.length + rest.length := List.length_append
  by_cases hfits : keyLen + valueLen ≤ rest.length
  · have hkey : saturatingAdd w before.length keyLen = before.length + keyLen := by
      unfold saturatingAdd
      omega
    have hvalue : saturatingAdd w (before.length + keyLen) valueLen =
        before.length + keyLen + valueLen := by
      unfold saturatingAdd
      omega
    have hkeyBytes := byteRange_append before rest 0 keyLen (by omega)
    have hvalueBytes := byteRange_append before rest keyLen valueLen hfits
    rw [Nat.add_zero, List.drop_zero] at hkeyBytes
    simp only [takeRow, hkey, hvalue, hkeyBytes, hvalueBytes]
    rw [if_neg (by omega), if_pos hfits]
    rfl
  · have hover : saturatingAdd w before.length keyLen > (before ++ rest).length ∨
        saturatingAdd w (saturatingAdd w before.length keyLen) valueLen >
          (before ++ rest).length := by
      unfold saturatingAdd
      omega
    simp only [takeRow, if_pos hover, if_neg hfits]

theorem inverse_scanRow : Inverse w encodeScanRow (parseScanRow w) where
  complete before after row e hput hlen := by
    obtain ⟨e₁, e₂, hkey, hvalue, rfl⟩ := encodeScanRow_eq_ok.mp hput
    have hfirst := readU32Le_encodeLen hkey before (e₂ ++ (row.1 ++ (row.2 ++ after)))
      (by simpa using hlen)
    have hsecond := readU32Le_encodeLen hvalue (before ++ e₁) (row.1 ++ (row.2 ++ after))
      (by simpa using hlen)
    have hrow := takeRow_spec (before ++ e₁ ++ e₂) (row.1 ++ (row.2 ++ after)) row.1.length
      row.2.length (by simpa using hlen)
    rw [if_pos (by simp), List.take_left, List.drop_left, List.take_left] at hrow
    simp only [List.append_assoc, List.length_append, Nat.add_assoc] at hfirst hsecond hrow ⊢
    simp only [parseScanRow, hfirst, bind, Except.bind, hsecond, hrow]
  sound before rest hlen := by
    unfold parseScanRow
    rcases readU32Le_spec before rest hlen with ⟨-, hread⟩ | ⟨e₁, rest, rfl, hfour, hread⟩
    · left
      rw [hread]
      rfl
    · rw [hread]
      have hassoc : before ++ (e₁ ++ rest) = before ++ e₁ ++ rest := by simp
      rw [hassoc] at hlen ⊢
      simp only [bind, Except.bind]
      have hnext := readU32Le_spec (before ++ e₁) rest hlen
      rw [List.length_append, hfour] at hnext
      rcases hnext with ⟨-, hread'⟩ | ⟨e₂, rest, rfl, hfour', hread'⟩
      · left
        rw [hread']
      · rw [hread']
        have hassoc' : before ++ e₁ ++ (e₂ ++ rest) = before ++ e₁ ++ e₂ ++ rest := by simp
        rw [hassoc'] at hlen ⊢
        have hrow := takeRow_spec (before ++ e₁ ++ e₂) rest (ofLe e₁) (ofLe e₂) hlen
        rw [List.length_append, List.length_append, hfour, hfour'] at hrow
        dsimp only
        rw [hrow]
        by_cases hfits : ofLe e₁ + ofLe e₂ ≤ rest.length
        · right
          -- the lengths that were read are those of what is taken
          have hkey : (rest.take (ofLe e₁)).length = ofLe e₁ := by
            rw [List.length_take]
            omega
          have hvalue : ((rest.drop (ofLe e₁)).take (ofLe e₂)).length = ofLe e₂ := by
            rw [List.length_take, List.length_drop]
            omega
          refine ⟨(rest.take (ofLe e₁), (rest.drop (ofLe e₁)).take (ofLe e₂)),
            e₁ ++ e₂ ++ rest.take (ofLe e₁) ++ (rest.drop (ofLe e₁)).take (ofLe e₂),
            (rest.drop (ofLe e₁)).drop (ofLe e₂), ?_, ?_, ?_⟩
          · simp only [List.append_assoc, List.take_append_drop]
          · refine encodeScanRow_eq_ok.mpr ⟨e₁, e₂, ?_, ?_, rfl⟩
            · rw [hkey]
              exact encodeLen_ofLe hfour
            · rw [hvalue]
              exact encodeLen_ofLe hfour'
          · rw [if_pos hfits]
            simp only [List.length_append, hkey, hvalue, hfour, hfour', Nat.add_assoc]
        · left
          rw [if_neg hfits]

end Items

/-! ## Lists -/

section Lists

variable {α : Type} {w : UsizeWidth} {put : α → Except Int Bytes}
  {get : Bytes → Nat → Except ParseError (α × Nat)}

/-- The encodings of the items, one after the other. -/
def encodeItems (put : α → Except Int Bytes) : List α → Except Int Bytes
  | [] => .ok []
  | a :: rest => do
    let e ← put a
    let body ← encodeItems put rest
    pure (e ++ body)

theorem encodeItems_cons_eq_ok {a : α} {rest : List α} :
    encodeItems put (a :: rest) = .ok e ↔
      ∃ e₁ e₂, put a = .ok e₁ ∧ encodeItems put rest = .ok e₂ ∧ e = e₁ ++ e₂ := by
  rw [encodeItems]
  cases put a with
  | error code => simp [bind, Except.bind]
  | ok e₁ =>
    cases encodeItems put rest with
    | error code => simp [bind, Except.bind]
    | ok e₂ => simp [bind, Except.bind, pure, Except.pure, eq_comm]

/-- The loop appends the items to what it has. -/
theorem foldlM_encodeItems (items : List α) (out : Bytes) :
    items.foldlM (fun out item => do
      let encoded ← put item
      pure (out ++ encoded)) out =
      (encodeItems put items).map fun body => out ++ body := by
  induction items generalizing out with
  | nil => simp [encodeItems, Except.map, pure, Except.pure]
  | cons a rest ih =>
    rw [List.foldlM_cons, encodeItems]
    cases put a with
    | error code => rfl
    | ok e =>
      simp only [bind, Except.bind, pure, Except.pure] at ih ⊢
      rw [ih]
      cases encodeItems put rest with
      | error code => rfl
      | ok body => simp [Except.map]

theorem encodeList_eq_ok {items : List α} :
    encodeList put items = .ok e ↔
      ∃ count body, encodeLen items.length = .ok count ∧ encodeItems put items = .ok body ∧
        e = count ++ body := by
  unfold encodeList
  cases encodeLen items.length with
  | error code => simp [bind, Except.bind]
  | ok count =>
    change List.foldlM _ count items = _ ↔ _
    rw [foldlM_encodeItems]
    cases encodeItems put items with
    | error code => simp [Except.map]
    | ok body => simp [Except.map, eq_comm]

/-- The loop reads back all items it was announced. -/
theorem Inverse.parseLoop_complete (h : Inverse w put get) (items : List α) (before after : Bytes)
    {body : Bytes} (hput : encodeItems put items = .ok body)
    (hlen : (before ++ body ++ after).length ≤ w.isizeMax) (out : List α) :
    parseLoop (before ++ body ++ after) get items.length before.length out =
      .ok (out ++ items, before.length + body.length) := by
  induction items generalizing before body out with
  | nil =>
    cases hput
    simp [parseLoop]
  | cons a rest ih =>
    obtain ⟨e₁, e₂, hfirst, hrest, rfl⟩ := encodeItems_cons_eq_ok.mp hput
    have hitem := h.complete before (e₂ ++ after) hfirst (by simpa using hlen)
    have hloop := ih (before ++ e₁) hrest (by simpa using hlen) (out ++ [a])
    simp only [List.append_assoc, List.length_append, Nat.add_assoc] at hitem hloop ⊢
    simp only [List.length_cons, parseLoop, hitem, bind, Except.bind, hloop,
      List.singleton_append]

/-- What the loop reads is the encoding of its items. -/
theorem Inverse.parseLoop_sound (h : Inverse w put get) (count : Nat) (before rest : Bytes)
    (hlen : (before ++ rest).length ≤ w.isizeMax) (out : List α) :
    parseLoop (before ++ rest) get count before.length out = .error .internal ∨
      ∃ items body after, rest = body ++ after ∧ items.length = count ∧
        encodeItems put items = .ok body ∧
        parseLoop (before ++ rest) get count before.length out =
          .ok (out ++ items, before.length + body.length) := by
  induction count generalizing before rest out with
  | zero => exact .inr ⟨[], [], rest, rfl, rfl, rfl, by simp [parseLoop]⟩
  | succ count ih =>
    rw [parseLoop]
    rcases h.sound before rest hlen with hread | ⟨a, e, rest, rfl, hput, hread⟩
    · left
      rw [hread]
      rfl
    · rw [hread]
      simp only [bind, Except.bind]
      have hassoc : before ++ (e ++ rest) = before ++ e ++ rest := by simp
      rw [hassoc] at hlen ⊢
      have hnext := ih (before ++ e) rest hlen (out ++ [a])
      rw [List.length_append] at hnext
      rcases hnext with hloop | ⟨items, body, after, rfl, hcount, hitems, hloop⟩
      · exact .inl hloop
      · refine .inr ⟨a :: items, e ++ body, after, by simp, by rw [List.length_cons, hcount],
          encodeItems_cons_eq_ok.mpr ⟨e, body, hput, hitems, rfl⟩, ?_⟩
        rw [hloop]
        simp [Nat.add_assoc]

/-- The parser of a list reads back what the encoder wrote. -/
theorem Inverse.parseList_encodeList (h : Inverse w put get) {items : List α} {buf : Bytes}
    (hlen : buf.length ≤ w.isizeMax) (hput : encodeList put items = .ok buf) :
    parseList w buf get = .ok items := by
  obtain ⟨count, body, hcount, hitems, rfl⟩ := encodeList_eq_ok.mp hput
  have hread := readU32Le_encodeLen hcount [] body (by simpa using hlen)
  have hloop := h.parseLoop_complete items count [] hitems (by simpa using hlen) []
  simp only [List.nil_append, List.append_nil, List.length_nil, Nat.zero_add] at hread hloop
  simp only [parseList, hread, bind, Except.bind, hloop, List.length_append, ne_eq, not_true,
    if_false]
  rfl

/-- The parser of a list never runs out of range, and accepts only what the
encoder writes. -/
theorem Inverse.parseList_sound (h : Inverse w put get) {buf : Bytes}
    (hlen : buf.length ≤ w.isizeMax) :
    parseList w buf get = .error .internal ∨
      ∃ items, parseList w buf get = .ok items ∧ encodeList put items = .ok buf := by
  unfold parseList
  have hread := readU32Le_spec [] buf (by simpa using hlen)
  rw [List.nil_append, List.length_nil] at hread
  rcases hread with ⟨-, hread⟩ | ⟨count, rest, rfl, hfour, hread⟩
  · left
    rw [hread]
    rfl
  · rw [hread]
    simp only [bind, Except.bind, Nat.zero_add]
    have hloop := h.parseLoop_sound (ofLe count) count rest hlen []
    rw [hfour] at hloop
    rcases hloop with hloop | ⟨items, body, after, rfl, hitems, hput, hloop⟩
    · left
      rw [hloop]
    · rw [hloop]
      by_cases hend : 4 + body.length = (count ++ (body ++ after)).length
      · right
        have hafter : after = [] := by
          simp only [List.length_append] at hend
          exact List.eq_nil_of_length_eq_zero (by omega)
        subst hafter
        refine ⟨items, if_neg (not_not.mpr hend),
          encodeList_eq_ok.mpr ⟨count, body, ?_, hput, by simp⟩⟩
        rw [hitems]
        exact encodeLen_ofLe hfour
      · left
        exact if_pos hend

end Lists

/-! ## The five formats -/

/-- The list formats of the guest interface. -/
inductive AbiFormat where
  | scanRows
  | keys
  | stringList
  | bytesList
  | mapEntries
deriving DecidableEq, Repr

namespace AbiFormat

@[reducible] def Item : AbiFormat → Type
  | scanRows => Bytes × Bytes
  | keys => Bytes
  | stringList => String
  | bytesList => Bytes
  | mapEntries => String × Bytes

/-- The host's encoder. -/
def encode : (f : AbiFormat) → List f.Item → Except Int Bytes
  | scanRows => encodeScanRows
  | keys => encodeKeys
  | stringList => encodeStringList
  | bytesList => encodeBytesList
  | mapEntries => encodeLwwMapEntries

/-- The guest library's parser. -/
def parse (w : UsizeWidth) (buf : Bytes) : (f : AbiFormat) → Except ParseError (List f.Item)
  | scanRows => parseScanRows w buf
  | keys => parseKeys w buf
  | stringList => parseElements w buf
  | bytesList => parseValues w buf
  | mapEntries => parseEntries w buf

/-- Encoder and parser of every format are a list encoder and a list parser over
inverse item functions. -/
theorem exists_inverse (w : UsizeWidth) (f : AbiFormat) :
    ∃ put get, Inverse w put get ∧ (∀ items, f.encode items = encodeList put items) ∧
      ∀ buf, f.parse w buf = parseList w buf get := by
  cases f with
  | scanRows => exact ⟨_, _, inverse_scanRow, fun _ => rfl, fun _ => rfl⟩
  | keys => exact ⟨_, _, inverse_sized, fun _ => rfl, fun _ => rfl⟩
  | stringList => exact ⟨_, _, inverse_text, fun _ => rfl, fun _ => rfl⟩
  | bytesList => exact ⟨_, _, inverse_sized, fun _ => rfl, fun _ => rfl⟩
  | mapEntries => exact ⟨_, _, inverse_entry, fun _ => rfl, fun _ => rfl⟩

/-- For every format, word size and buffer: what the host encodes is parsed to
what was encoded; parsing never indexes out of range; and what is parsed would
be encoded to the very buffer. -/
theorem parse_encode_inverse (f : AbiFormat) (w : UsizeWidth) (b : Slice w) :
    (∀ x, f.encode x = .ok b.bytes → f.parse w b.bytes = .ok x) ∧
      f.parse w b.bytes ≠ .error .outOfRange ∧
      ∀ x, f.parse w b.bytes = .ok x → f.encode x = .ok b.bytes := by
  obtain ⟨put, get, hinverse, hencode, hparse⟩ := exists_inverse w f
  rw [hparse]
  simp only [hencode]
  refine ⟨fun x hx => hinverse.parseList_encodeList b.length_le hx, ?_, ?_⟩
  · rcases hinverse.parseList_sound b.length_le with h | ⟨items, h, -⟩
    · rw [h]
      simp
    · rw [h]
      nofun
  · intro x hx
    rcases hinverse.parseList_sound b.length_le with h | ⟨items, h, hput⟩
    · rw [h] at hx
      cases hx
    · rw [h] at hx
      cases hx
      exact hput

end AbiFormat

end Numax
