import Numax.Core.MigrationBatch

/-!
# Migration checkpoints are a canonical format

A migration goes on from the checkpoint of its table. `decode` reads the fixed
fields by index and the cursor as the rest of the record. It accepts exactly
what `encode` writes for the table it is called with: the fields are read back,
an accepted record is written again byte for byte, and no read is out of range.
-/

open Base

namespace Numax

namespace MigrationCheckpoint

/-! ## No read is out of range -/

/-- The first check covers every index and slice after it. -/
theorem decodeIndexed_eq (table : StoreTable) (bytes : Bytes) :
    decodeIndexed table bytes = some (decode table bytes) := by
  by_cases hshort : bytes.length < checkpointFixedLen
  · simp [decodeIndexed, decode, hshort]
  · have hlen : 16 ≤ bytes.length := Nat.not_lt.mp hshort
    have hread : ∀ i (h : i < 16), bytes[i]? = some bytes[i] :=
      fun i h => List.getElem?_eq_getElem (by omega)
    -- a field of `decode` is the list of the bytes at its indices
    have htwo : ∀ i (h : i < 15), (bytes.drop i).take 2 = [bytes[i], bytes[i + 1]] := by
      intro i h
      rw [take_succ_drop (by omega), take_succ_drop (by omega), List.take_zero]
    have hfour : (bytes.drop 12).take 4 = [bytes[12], bytes[13], bytes[14], bytes[15]] := by
      rw [take_succ_drop (by omega), take_succ_drop (by omega), take_succ_drop (by omega),
        take_succ_drop (by omega), List.take_zero]
    simp only [decodeIndexed, decode, hshort, sliceTo_of_le (show 4 ≤ bytes.length by omega),
      sliceFrom_of_le (show checkpointFixedLen ≤ bytes.length from hlen), hread 4 (by decide),
      hread 5 (by decide), hread 6 (by decide), hread 7 (by decide), hread 8 (by decide),
      hread 9 (by decide), hread 10 (by decide), hread 11 (by decide), hread 12 (by decide),
      hread 13 (by decide), hread 14 (by decide), hread 15 (by decide), htwo 4 (by decide),
      htwo 6 (by decide), htwo 8 (by decide), htwo 10 (by decide), hfour, Option.bind_eq_bind,
      Option.bind_some, if_false, Nat.reduceAdd]
    split_ifs <;> rfl

/-! ## What is accepted is written again -/

variable {table : StoreTable} {bytes : Bytes} {c : MigrationCheckpoint}

/-- What the checks of `decode` have established about a record it accepts. -/
theorem decode_eq_ok (h : decode table bytes = .ok c) :
    checkpointFixedLen ≤ bytes.length ∧ bytes.take 4 = migrationMagic ∧
      UInt16.ofNat (ofBe ((bytes.drop 4).take 2)) = checkpointFormatVersion ∧
      ofBe ((bytes.drop 6).take 2) = table.tableId ∧
      bytes.length = checkpointFixedLen + ofBe ((bytes.drop 12).take 4) ∧
      c = ⟨table, UInt16.ofNat (ofBe ((bytes.drop 8).take 2)),
        UInt16.ofNat (ofBe ((bytes.drop 10).take 2)),
        if 0 < ofBe ((bytes.drop 12).take 4) then some (bytes.drop checkpointFixedLen)
        else none⟩ := by
  simp only [decode] at h
  split at h
  · cases h
  split at h
  · cases h
  split at h
  · cases h
  split at h
  · cases h
  split at h
  · cases h
  split at h
  · cases h
  rename_i hlen hmagic hformat htable hfit hexact
  exact ⟨Nat.not_lt.mp hlen, not_not.mp hmagic, not_not.mp hformat, not_not.mp htable,
    not_not.mp hexact, (Except.ok.inj h).symm⟩

/-- The places of the fields cover the record without a gap. -/
theorem fields_append (bytes : Bytes) :
    bytes.take 4 ++ (bytes.drop 4).take 2 ++ (bytes.drop 6).take 2 ++ (bytes.drop 8).take 2 ++
      (bytes.drop 10).take 2 ++ (bytes.drop 12).take 4 ++ bytes.drop 16 = bytes := by
  have hfield : ∀ i k, (bytes.drop i).take k ++ bytes.drop (i + k) = bytes.drop i := by
    intro i k
    rw [← List.drop_drop, List.take_append_drop]
  simp only [List.append_assoc, hfield 12 4, hfield 10 2, hfield 8 2, hfield 6 2, hfield 4 2,
    List.take_append_drop]

/-- A version that was read from two bytes is written as these two bytes. -/
theorem beBytes_u16_ofBe {b : Bytes} (h : b.length = 2) :
    beBytes 2 (UInt16.ofNat (ofBe b)).toNat = b := by
  have hlt : ofBe b < 2 ^ 16 := by
    have := ofBe_lt b
    rwa [h] at this
  rw [UInt16.toNat_ofNat_of_lt' hlt, beBytes_ofBe h]

theorem encode_of_decode (h : decode table bytes = .ok c) :
    c.table = table ∧ c.encode = .ok bytes := by
  obtain ⟨hlen, hmagic, hformat, htable, hexact, rfl⟩ := decode_eq_ok h
  refine ⟨rfl, ?_⟩
  have hfield : ∀ i k, i + k ≤ 16 → ((bytes.drop i).take k).length = k := by
    intro i k hik
    have hfixed : 16 ≤ bytes.length := hlen
    rw [List.length_take, List.length_drop]
    omega
  -- the cursor is the rest of the record, also where it is absent
  have hrest : (bytes.drop 16).length = ofBe ((bytes.drop 12).take 4) := by
    rw [List.length_drop, hexact, checkpointFixedLen]
    omega
  have hcursor : (if 0 < ofBe ((bytes.drop 12).take 4) then some (bytes.drop checkpointFixedLen)
      else none).getD [] = bytes.drop 16 := by
    split
    · rfl
    next hzero =>
      rw [← hrest, Nat.not_lt, Nat.le_zero, List.length_eq_zero_iff] at hzero
      rw [hzero]
      rfl
  have hkey : ¬ 2 ^ 32 ≤ (bytes.drop 16).length := by
    have hlt := ofBe_lt ((bytes.drop 12).take 4)
    rw [hfield 12 4 (by decide)] at hlt
    rw [hrest]
    omega
  simp only [encode, hcursor, if_neg hkey]
  rw [hrest, ← hmagic, ← hformat, ← htable, beBytes_u16_ofBe (hfield 4 2 (by decide)),
    beBytes_ofBe (hfield 6 2 (by decide)), beBytes_u16_ofBe (hfield 8 2 (by decide)),
    beBytes_u16_ofBe (hfield 10 2 (by decide)), beBytes_ofBe (hfield 12 4 (by decide)),
    fields_append]

/-! ## Exactly the encodings are accepted -/

/-- A cursor `decode` returns has at least one byte. -/
theorem cursor_ne_of_decode (h : decode table bytes = .ok c) : c.lastProcessedKey ≠ some [] := by
  obtain ⟨hlen, -, -, -, hexact, rfl⟩ := decode_eq_ok h
  intro hempty
  dsimp only at hempty
  split at hempty
  next hpos =>
    have hrest := congrArg List.length (Option.some.inj hempty)
    rw [List.length_drop, List.length_nil] at hrest
    omega
  · cases hempty

/-- What a record is read as is the one checkpoint with a proper cursor it is written for. -/
theorem decode_eq_ok_iff :
    decode table bytes = .ok c ↔
      c.table = table ∧ c.lastProcessedKey ≠ some [] ∧ c.encode = .ok bytes := by
  constructor
  · intro h
    obtain ⟨htable, hencode⟩ := encode_of_decode h
    exact ⟨htable, cursor_ne_of_decode h, hencode⟩
  · rintro ⟨rfl, hcursor, hencode⟩
    exact decode_encode hcursor hencode

/-- No cursor and a cursor with an empty key are written alike. -/
theorem encode_of_cursor_empty (h : c.lastProcessedKey = some []) :
    { c with lastProcessedKey := none : MigrationCheckpoint }.encode = c.encode := by
  simp only [encode, h]
  rfl

theorem decode_of_encode (h : c.encode = .ok bytes) :
    ∃ c', decode c.table bytes = .ok c' := by
  by_cases hempty : c.lastProcessedKey = some []
  · rw [← encode_of_cursor_empty hempty] at h
    exact ⟨_, decode_encode (c := { c with lastProcessedKey := none }) (by simp) h⟩
  · exact ⟨c, decode_encode hempty h⟩

/-- Every checkpoint with a proper cursor is written and read back, every accepted record is
the encoding of what was read, so that `decode` accepts the encodings of its table and
nothing else, and no index or slice of it is out of range. -/
theorem codec_exact (table : StoreTable) :
    (∀ (fromVersion toVersion : UInt16) (cursor : Option Bytes),
      (∀ key, cursor = some key → key ≠ [] ∧ key.length < 2 ^ 32) →
      ∃ bytes, (mk table fromVersion toVersion cursor).encode = .ok bytes ∧
        decode table bytes = .ok ⟨table, fromVersion, toVersion, cursor⟩) ∧
    (∀ bytes c, decode table bytes = .ok c → c.encode = .ok bytes) ∧
    (∀ bytes, (∃ c, decode table bytes = .ok c) ↔
      ∃ c : MigrationCheckpoint, c.table = table ∧ c.encode = .ok bytes) ∧
    ∀ bytes, decodeIndexed table bytes = some (decode table bytes) := by
  refine ⟨?_, fun bytes c h => (decode_eq_ok_iff.mp h).2.2, ?_, decodeIndexed_eq table⟩
  · intro fromVersion toVersion cursor hcursor
    have hshort : (cursor.getD []).length < 2 ^ 32 := by
      cases cursor with
      | none => decide
      | some key => exact (hcursor key rfl).2
    obtain ⟨bytes, hbytes⟩ := encode_of_lt (c := ⟨table, fromVersion, toVersion, cursor⟩) hshort
    have hproper : cursor ≠ some [] := fun hempty => (hcursor [] hempty).1 rfl
    exact ⟨bytes, hbytes, decode_eq_ok_iff.mpr ⟨rfl, hproper, hbytes⟩⟩
  · intro bytes
    constructor
    · rintro ⟨c, h⟩
      obtain ⟨htable, -, hencode⟩ := decode_eq_ok_iff.mp h
      exact ⟨c, htable, hencode⟩
    · rintro ⟨c, rfl, h⟩
      exact decode_of_encode h

/-- A record of the table with the number 13, and the checkpoint it stands for. -/
theorem codec_exact_seenOps :
    (∃ bytes, (mk .seenOps 0 1 (some (asBytes "k"))).encode = .ok bytes ∧
      decode .seenOps bytes = .ok ⟨.seenOps, 0, 1, some (asBytes "k")⟩) ∧
    (mk .seenOps 0 1 (some (asBytes "k"))).encode =
      .ok (asBytes "NXMG" ++ [0, 1, 0, 13, 0, 0, 0, 1, 0, 0, 0, 1] ++ asBytes "k") := by
  constructor
  · refine (codec_exact .seenOps).1 0 1 (some (asBytes "k")) ?_
    intro key hkey
    cases hkey
    decide +kernel
  · refine (codec_exact .seenOps).2.1 _ _ ?_
    decide +kernel

end MigrationCheckpoint

end Numax
