import Numax.Base.Bytes

/-!
# The order of encoded text

Strings are ordered character by character, and their UTF-8 encodings byte by byte. The
two orders are one (`asBytes_lt_iff`): that is how text is compared by machines that only
see its bytes.
-/

namespace Base

theorem ofNat_lt_ofNat {a b : Nat} (ha : a < 256) (hb : b < 256) :
    UInt8.ofNat a < UInt8.ofNat b ↔ a < b := by
  rw [UInt8.lt_iff_toNat_lt, UInt8.toNat_ofNat_of_lt' ha, UInt8.toNat_ofNat_of_lt' hb]

theorem ofNat_inj_of_lt {a b : Nat} (ha : a < 256) (hb : b < 256) :
    UInt8.ofNat a = UInt8.ofNat b ↔ a = b := by
  rw [← UInt8.toNat_inj, UInt8.toNat_ofNat_of_lt' ha, UInt8.toNat_ofNat_of_lt' hb]

/-- Encodings differ before either ends, and the greater character has the greater byte. -/
theorem utf8EncodeChar_append_lt {c d : Char} (h : c < d) (s t : Bytes) :
    String.utf8EncodeChar c ++ s < String.utf8EncodeChar d ++ t := by
  have hlt : c.val.toNat < d.val.toNat := h
  have hmax : d.val.toNat < 1114112 := by
    rcases d.valid with h | h
    · exact Nat.lt_trans h (by decide)
    · exact h.2
  -- the digits to base 64 in terms of each other
  have hdigits (v : Nat) : v / 4096 = v / 64 / 64 ∧ v / 262144 = v / 64 / 64 / 64 := by omega
  unfold String.utf8EncodeChar
  simp only [hdigits]
  split_ifs <;>
    simp only [List.cons_append, List.nil_append, List.cons_lt_cons_iff] <;>
    simp (disch := omega) only [ofNat_lt_ofNat, ofNat_inj_of_lt] <;> omega

theorem asBytes_eq (s : String) : asBytes s = s.toList.flatMap String.utf8EncodeChar := by
  obtain ⟨cs, rfl⟩ : ∃ cs, s = String.ofList cs := ⟨s.toList, String.ofList_toList.symm⟩
  simp [asBytes, String.toByteArray_ofList, List.utf8Encode]

theorem asBytes_lt_of_lt {s t : String} (h : s < t) : asBytes s < asBytes t := by
  rw [String.lt_iff] at h
  rw [asBytes_eq, asBytes_eq]
  generalize s.toList = cs at h
  generalize t.toList = ds at h
  induction cs generalizing ds with
  | nil =>
    cases ds with
    | nil => exact absurd h (List.lt_irrefl _)
    | cons d ds =>
      rw [List.flatMap_cons]
      cases henc : String.utf8EncodeChar d with
      | nil => exact absurd henc String.utf8EncodeChar_ne_nil
      | cons b bs => exact List.nil_lt_cons _ _
  | cons c cs ih =>
    cases ds with
    | nil => exact absurd h (List.not_lt_nil _)
    | cons d ds =>
      rw [List.flatMap_cons, List.flatMap_cons]
      rcases List.cons_lt_cons_iff.mp h with hlt | ⟨rfl, hlt⟩
      · exact utf8EncodeChar_append_lt hlt _ _
      · exact List.append_left_lt (ih ds hlt)

theorem asBytes_lt_iff {s t : String} : asBytes s < asBytes t ↔ s < t := by
  refine ⟨fun h => ?_, asBytes_lt_of_lt⟩
  rcases lt_trichotomy s t with hlt | rfl | hgt
  · exact hlt
  · exact absurd h (List.lt_irrefl _)
  · exact absurd (asBytes_lt_of_lt hgt) (List.lt_asymm h)

end Base
