import Numax.Base.Bytes

/-!
# Base64 engines

What is asked of an engine that writes bytes as text (`Engine`), and URL-safe base64
without padding as one of them. Three bytes become four characters of six bits each; one or
two bytes left over become two or three characters, whose unused bits are zero. The decoder
refuses
characters outside the alphabet, a single character left over, and unused bits
that are set, so that every text it accepts is the encoding of its result.
-/

namespace Base

namespace Base64

/-- An engine decodes what it has encoded, refuses a tilde, and writes four characters for
three bytes at most. -/
structure Engine where
  encode : Bytes → String
  decode : String → Option Bytes
  decode_encode : ∀ bytes, decode (encode bytes) = some bytes
  decode_tilde : decode "~" = none
  length_encode : ∀ bytes, (encode bytes).toList.length ≤ (4 * bytes.length + 2) / 3

/-- The empty text stands for no bytes, so that other bytes have another text. -/
theorem Engine.encode_ne_empty (engine : Engine) {bytes : Bytes} (h : bytes ≠ []) :
    engine.encode bytes ≠ "" := by
  intro hempty
  have hnothing : engine.encode [] = "" := by
    have hlength := engine.length_encode []
    rw [List.length_nil, Nat.le_zero, List.length_eq_zero_iff] at hlength
    exact String.toList_inj.mp hlength
  have hdecode := engine.decode_encode bytes
  rw [hempty, ← hnothing, engine.decode_encode] at hdecode
  exact h (Option.some.inj hdecode).symm

/-- The character of a six-bit value. -/
def digit (n : Nat) : Char :=
  if n < 26 then Char.ofNat (65 + n)
  else if n < 52 then Char.ofNat (97 + (n - 26))
  else if n < 62 then Char.ofNat (48 + (n - 52))
  else if n = 62 then '-'
  else '_'

/-- The six-bit value of a character of the alphabet. -/
def value (c : Char) : Option Nat :=
  if 'A' ≤ c ∧ c ≤ 'Z' then some (c.toNat - 65)
  else if 'a' ≤ c ∧ c ≤ 'z' then some (c.toNat - 97 + 26)
  else if '0' ≤ c ∧ c ≤ '9' then some (c.toNat - 48 + 52)
  else if c = '-' then some 62
  else if c = '_' then some 63
  else none

theorem value_digit {n : Nat} (h : n < 64) : value (digit n) = some n := by
  have hall : ∀ m : Fin 64, value (digit m.val) = some m.val := by decide
  exact hall ⟨n, h⟩

def encodeChars : Bytes → List Char
  | [] => []
  | [a] => [digit (a.toNat / 4), digit (a.toNat % 4 * 16)]
  | [a, b] =>
    [digit (a.toNat / 4), digit (a.toNat % 4 * 16 + b.toNat / 16), digit (b.toNat % 16 * 4)]
  | a :: b :: c :: rest =>
    digit (a.toNat / 4) :: digit (a.toNat % 4 * 16 + b.toNat / 16) ::
      digit (b.toNat % 16 * 4 + c.toNat / 64) :: digit (c.toNat % 64) :: encodeChars rest

def decodeChars : List Char → Option Bytes
  | [] => some []
  | [_] => none
  | [p, q] => do
    let x ← value p
    let y ← value q
    if y % 16 = 0 then some [UInt8.ofNat (x * 4 + y / 16)] else none
  | [p, q, r] => do
    let x ← value p
    let y ← value q
    let z ← value r
    if z % 4 = 0 then
      some [UInt8.ofNat (x * 4 + y / 16), UInt8.ofNat (y % 16 * 16 + z / 4)]
    else none
  | p :: q :: r :: s :: rest => do
    let x ← value p
    let y ← value q
    let z ← value r
    let t ← value s
    let tail ← decodeChars rest
    some (UInt8.ofNat (x * 4 + y / 16) :: UInt8.ofNat (y % 16 * 16 + z / 4) ::
      UInt8.ofNat (z % 4 * 64 + t) :: tail)

theorem decodeChars_encodeChars (bytes : Bytes) : decodeChars (encodeChars bytes) = some bytes := by
  induction bytes using encodeChars.induct with
  | case1 => rfl
  | case2 a =>
    have ha := a.toNat_lt
    have hbits : a.toNat / 4 * 4 + a.toNat % 4 * 16 / 16 = a.toNat := by omega
    have hzero : a.toNat % 4 * 16 % 16 = 0 := by omega
    simp only [encodeChars, decodeChars, value_digit (show a.toNat / 4 < 64 by omega),
      value_digit (show a.toNat % 4 * 16 < 64 by omega), Option.bind_eq_bind, Option.bind_some,
      hzero, if_true, hbits, UInt8.ofNat_toNat]
  | case3 a b =>
    have ha := a.toNat_lt
    have hb := b.toNat_lt
    have hfirst : a.toNat / 4 * 4 + (a.toNat % 4 * 16 + b.toNat / 16) / 16 = a.toNat := by omega
    have hsecond : (a.toNat % 4 * 16 + b.toNat / 16) % 16 * 16 + b.toNat % 16 * 4 / 4 =
        b.toNat := by omega
    have hzero : b.toNat % 16 * 4 % 4 = 0 := by omega
    simp only [encodeChars, decodeChars, value_digit (show a.toNat / 4 < 64 by omega),
      value_digit (show a.toNat % 4 * 16 + b.toNat / 16 < 64 by omega),
      value_digit (show b.toNat % 16 * 4 < 64 by omega), Option.bind_eq_bind, Option.bind_some,
      hzero, if_true, hfirst, hsecond, UInt8.ofNat_toNat]
  | case4 a b c rest ih =>
    have ha := a.toNat_lt
    have hb := b.toNat_lt
    have hc := c.toNat_lt
    have hfirst : a.toNat / 4 * 4 + (a.toNat % 4 * 16 + b.toNat / 16) / 16 = a.toNat := by omega
    have hsecond : (a.toNat % 4 * 16 + b.toNat / 16) % 16 * 16 +
        (b.toNat % 16 * 4 + c.toNat / 64) / 4 = b.toNat := by omega
    have hthird : (b.toNat % 16 * 4 + c.toNat / 64) % 4 * 64 + c.toNat % 64 = c.toNat := by omega
    simp only [encodeChars, decodeChars, value_digit (show a.toNat / 4 < 64 by omega),
      value_digit (show a.toNat % 4 * 16 + b.toNat / 16 < 64 by omega),
      value_digit (show b.toNat % 16 * 4 + c.toNat / 64 < 64 by omega),
      value_digit (show c.toNat % 64 < 64 by omega), ih, Option.bind_eq_bind, Option.bind_some,
      hfirst, hsecond, hthird, UInt8.ofNat_toNat]

theorem length_encodeChars (bytes : Bytes) :
    (encodeChars bytes).length = (4 * bytes.length + 2) / 3 := by
  induction bytes using encodeChars.induct with
  | case1 => simp [encodeChars]
  | case2 a => simp [encodeChars]
  | case3 a b => simp [encodeChars]
  | case4 a b c rest ih =>
    simp only [encodeChars, List.length_cons, ih]
    omega

/-- `URL_SAFE_NO_PAD`. -/
def urlSafeNoPad : Engine where
  encode bytes := String.ofList (encodeChars bytes)
  decode text := decodeChars text.toList
  decode_encode bytes := by rw [String.toList_ofList, decodeChars_encodeChars]
  decode_tilde := by decide +kernel
  length_encode bytes := by rw [String.toList_ofList, length_encodeChars]

end Base64

end Base
