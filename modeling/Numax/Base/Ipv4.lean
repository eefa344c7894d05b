import Mathlib

/-!
# Dotted IPv4 addresses

Four decimal octets without leading zeros. An address has one text only, so
printing and parsing are inverse in both directions (`parse_eq_some_iff`). Texts with
separators, as addresses are part of, are cut at one that the front does not have.
-/

namespace Base

/-! ## Text with separators -/

section Separator

variable {α : Type} [DecidableEq α] {d : α} {front : List α} (h : d ∉ front)

include h

theorem bne_of_not_mem : ∀ c ∈ front, (c != d) = true := by
  intro c hc
  rw [bne_iff_ne]
  rintro rfl
  exact h hc

theorem takeWhile_ne_append (rest : List α) : (front ++ d :: rest).takeWhile (· != d) = front := by
  rw [List.takeWhile_append_of_pos (bne_of_not_mem h)]
  simp

theorem dropWhile_ne_append (rest : List α) :
    (front ++ d :: rest).dropWhile (· != d) = d :: rest := by
  rw [List.dropWhile_append_of_pos (bne_of_not_mem h)]
  simp

end Separator

theorem not_mem_toDigits {c : Char} (h : c.isDigit = false) (n : Nat) : c ∉ Nat.toDigits 10 n := by
  intro hmem
  rw [Nat.isDigit_of_mem_toDigits (by decide) (by decide) hmem] at h
  cases h

structure Ipv4 where
  a : Fin 256
  b : Fin 256
  c : Fin 256
  d : Fin 256
deriving DecidableEq, Repr

namespace Ipv4

/-! ## Octets -/

def octetText (n : Fin 256) : List Char := Nat.toDigits 10 n

def octetOf (text : List Char) : Option (Fin 256) :=
  (List.finRange 256).find? fun n => octetText n == text

theorem isDigit_of_mem_octetText {n : Fin 256} {c : Char} (h : c ∈ octetText n) :
    c.isDigit = true :=
  Nat.isDigit_of_mem_toDigits (by decide) (by decide) h

theorem octetText_injective : Function.Injective octetText := by
  intro m n h
  have hvalue := congrArg (fun text => Nat.ofDigitChars 10 text 0) h
  simp only [octetText, Nat.ofDigitChars_ten_toDigits] at hvalue
  exact Fin.ext hvalue

theorem octetOf_eq_some_iff {text : List Char} {n : Fin 256} :
    octetOf text = some n ↔ octetText n = text := by
  constructor
  · intro h
    have hfound := List.find?_some h
    exact beq_iff_eq.mp hfound
  · rintro rfl
    cases hfind : octetOf (octetText n) with
    | none =>
      have := List.find?_eq_none.mp hfind n (List.mem_finRange n)
      simp at this
    | some m =>
      have hfound := List.find?_some hfind
      rw [octetText_injective (beq_iff_eq.mp hfound)]

theorem length_octetText_le (n : Fin 256) : (octetText n).length ≤ 3 := by
  revert n
  decide +kernel

/-! ## Addresses -/

def print (ip : Ipv4) : List Char :=
  octetText ip.a ++ '.' :: (octetText ip.b ++ '.' :: (octetText ip.c ++ '.' :: octetText ip.d))

def parse (text : List Char) : Option Ipv4 :=
  match text.splitOn '.' with
  | [a, b, c, d] =>
    match octetOf a, octetOf b, octetOf c, octetOf d with
    | some a, some b, some c, some d => some ⟨a, b, c, d⟩
    | _, _, _, _ => none
  | _ => none

def isUnspecified (ip : Ipv4) : Bool := ip.a == 0 && ip.b == 0 && ip.c == 0 && ip.d == 0

def isMulticast (ip : Ipv4) : Bool := decide (224 ≤ ip.a.val ∧ ip.a.val ≤ 239)

def isBroadcast (ip : Ipv4) : Bool := ip.a == 255 && ip.b == 255 && ip.c == 255 && ip.d == 255

def isLinkLocal (ip : Ipv4) : Bool := ip.a == 169 && ip.b == 254

theorem dot_not_mem_octetText (n : Fin 256) : '.' ∉ octetText n := by
  intro h
  exact absurd (isDigit_of_mem_octetText h) (by decide)

theorem splitOn_print (ip : Ipv4) :
    ip.print.splitOn '.' = [octetText ip.a, octetText ip.b, octetText ip.c, octetText ip.d] := by
  rw [print, List.splitOn_append_cons_self_of_not_mem (dot_not_mem_octetText _),
    List.splitOn_append_cons_self_of_not_mem (dot_not_mem_octetText _),
    List.splitOn_append_cons_self_of_not_mem (dot_not_mem_octetText _),
    List.splitOn_eq_singleton (dot_not_mem_octetText _)]

theorem parse_eq_some_iff {text : List Char} {ip : Ipv4} :
    parse text = some ip ↔ ip.print = text := by
  constructor
  · intro h
    unfold parse at h
    split at h
    · next a b c d hsplit =>
        split at h
        · next a' b' c' d' ha hb hc hd =>
            cases h
            rw [octetOf_eq_some_iff] at ha hb hc hd
            have hjoin := @List.intercalate_splitOn Char text _ _ '.'
            rw [hsplit] at hjoin
            rw [print, ha, hb, hc, hd, ← hjoin]
            simp [List.intercalate, List.intersperse]
        · cases h
    · cases h
  · rintro rfl
    have hoctet : ∀ n, octetOf (octetText n) = some n := fun n => octetOf_eq_some_iff.mpr rfl
    simp only [parse, splitOn_print, hoctet]

theorem getLast?_print_ne (ip : Ipv4) : ip.print.getLast? ≠ some '.' := by
  intro h
  obtain ⟨init, hinit⟩ := List.getLast?_eq_some_iff.mp h
  -- the label after the dot would be empty
  have hlabels := congrArg (List.splitOn '.') hinit
  rw [splitOn_print, List.splitOn_append_cons_self] at hlabels
  have hlast : octetText ip.d = [] := by
    have hget := congrArg List.getLast? hlabels
    rw [List.getLast?_append] at hget
    simpa using hget
  exact Nat.toDigits_ne_nil hlast

theorem mem_print {ip : Ipv4} {c : Char} (h : c ∈ ip.print) : c.isDigit = true ∨ c = '.' := by
  simp only [print, List.mem_append, List.mem_cons] at h
  rcases h with h | h | h | h | h | h | h
  all_goals first | exact .inr h | exact .inl (isDigit_of_mem_octetText h)

theorem not_mem_print {c : Char} (hdigit : c.isDigit = false) (hdot : c ≠ '.') (ip : Ipv4) :
    c ∉ ip.print := by
  intro hmem
  rcases mem_print hmem with h | h
  · rw [hdigit] at h
    cases h
  · exact hdot h

theorem length_print_le (ip : Ipv4) : ip.print.length ≤ 15 := by
  have ha := length_octetText_le ip.a
  have hb := length_octetText_le ip.b
  have hc := length_octetText_le ip.c
  have hd := length_octetText_le ip.d
  simp only [print, List.length_append, List.length_cons]
  omega

end Ipv4

end Base
