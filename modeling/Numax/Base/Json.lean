import Numax.Base.OrdMap
import Mathlib.Data.List.Basic

/-!
# Compact JSON text

Printers with the parsers that invert them, for the shapes derived serializers
produce: strings, numbers, arrays, objects used as maps, records and optional
values. A `Codec` carries the proof that its parser takes exactly the printed
text off the front of the input and leaves the rest; the only condition is that
the rest does not continue a number (`Ends`).

The parsers read the compact form the printers write; they accept no white
space and only the escapes the printer uses.
-/

open Std

namespace Base

namespace Json

/-- The text does not continue a number. -/
def Ends (rest : List Char) : Prop := ∀ c ∈ rest.head?, c.isDigit = false

theorem ends_cons {c : Char} {rest : List Char} (h : c.isDigit = false) : Ends (c :: rest) := by
  rintro d ⟨⟩
  exact h

/-- A printer and a parser that inverts it. -/
structure Codec (α : Type) where
  print : α → List Char
  parse : List Char → Option (α × List Char)
  parse_print : ∀ a rest, Ends rest → parse (print a ++ rest) = some (a, rest)

namespace Codec

variable {α β : Type}

/-- Every printed text starts with a character satisfying `P`. -/
def Leads (c : Codec α) (P : Char → Prop) : Prop := ∀ a, ∃ d ds, c.print a = d :: ds ∧ P d

variable {c : Codec α}

theorem Leads.ends (h : c.Leads fun d => d.isDigit = false) (a : α) (rest : List Char) :
    Ends (c.print a ++ rest) := by
  obtain ⟨d, ds, hprint, hd⟩ := h a
  rw [hprint]
  exact ends_cons hd

/-- Read a whole text. -/
def parseAll (c : Codec α) (s : List Char) : Option α :=
  match c.parse s with
  | some (a, []) => some a
  | _ => none

theorem parseAll_print (c : Codec α) (a : α) : c.parseAll (c.print a) = some a := by
  have h := c.parse_print a [] nofun
  rw [List.append_nil] at h
  rw [parseAll, h]

/-- Represent another type, rejecting texts outside the image. -/
def imap (c : Codec α) (f : α → Option β) (g : β → α) (h : ∀ b, f (g b) = some b) : Codec β where
  print b := c.print (g b)
  parse s := do
    let (a, rest) ← c.parse s
    let b ← f a
    some (b, rest)
  parse_print b rest hrest := by
    simp [c.parse_print _ _ hrest, h]

variable {P : Char → Prop}

theorem imap_leads {f : α → Option β} {g : β → α} {h : ∀ b, f (g b) = some b} (hc : c.Leads P) :
    (c.imap f g h).Leads P := fun b => hc (g b)

/-! ## Records -/

/-- Take a fixed text off the front. -/
def expect (lit s : List Char) : Option (List Char) :=
  if lit.isPrefixOf s then some (s.drop lit.length) else none

theorem expect_append (lit rest : List Char) : expect lit (lit ++ rest) = some rest := by
  simp [expect, List.isPrefixOf_iff_prefix]

/-- The end of a record. -/
def done : Codec Unit where
  print _ := ['}']
  parse s := (expect ['}'] s).map fun rest => ((), rest)
  parse_print _ rest _ := by rw [expect_append]; rfl

theorem done_leads (h : P '}') : done.Leads P := fun _ => ⟨'}', [], rfl, h⟩ 

theorem done_leads_nondigit : done.Leads fun d => d.isDigit = false := done_leads (by decide)

/-- The text that introduces a field. -/
def fieldName (lead : Char) (name : String) : List Char :=
  lead :: '"' :: name.toList ++ ['"', ':']

/-- One field of a record and the fields after it. -/
def field (lead : Char) (name : String) (c : Codec α) (next : Codec β)
    (hnext : next.Leads fun d => d.isDigit = false) : Codec (α × β) where
  print p := fieldName lead name ++ (c.print p.1 ++ next.print p.2)
  parse s := do
    let s ← expect (fieldName lead name) s
    let (a, s) ← c.parse s
    let (b, s) ← next.parse s
    some ((a, b), s)
  parse_print p rest hrest := by
    have hc := c.parse_print p.1 (next.print p.2 ++ rest) (hnext.ends p.2 rest)
    simp [List.append_assoc, expect_append, hc, next.parse_print p.2 rest hrest]

theorem field_leads {lead : Char} {name : String} {next : Codec β}
    {hnext : next.Leads fun d => d.isDigit = false} (h : P lead) :
    (field lead name c next hnext).Leads P := fun _ => ⟨lead, _, rfl, h⟩

/-! ## Numbers -/

/-- A decimal number. -/
def nat : Codec Nat where
  print n := Nat.toDigits 10 n
  parse s :=
    match s.takeWhile Char.isDigit with
    | [] => none
    | digits => some (Nat.ofDigitChars 10 digits 0, s.dropWhile Char.isDigit)
  parse_print n rest hrest := by
    have hdigits : ∀ c ∈ Nat.toDigits 10 n, c.isDigit = true := fun c hc =>
      Nat.isDigit_of_mem_toDigits (by decide) (by decide) hc
    have htake : rest.takeWhile Char.isDigit = [] := by
      cases rest with
      | nil => rfl
      | cons c cs => rw [List.takeWhile_cons_of_neg (by simpa using hrest c rfl)]
    have hdrop : rest.dropWhile Char.isDigit = rest := by
      cases rest with
      | nil => rfl
      | cons c cs => rw [List.dropWhile_cons_of_neg (by simpa using hrest c rfl)]
    rw [List.takeWhile_append_of_pos hdigits, List.dropWhile_append_of_pos hdigits, htake, hdrop,
      List.append_nil]
    split
    · next h => exact absurd h Nat.toDigits_ne_nil
    · rw [Nat.ofDigitChars_ten_toDigits]

theorem nat_leads (h : ∀ c, c.isDigit = true → P c) : nat.Leads P := by
  intro n
  cases hn : Nat.toDigits 10 n with
  | nil => exact absurd hn Nat.toDigits_ne_nil
  | cons d ds =>
    have hd : d ∈ Nat.toDigits 10 n := by rw [hn]; exact List.mem_cons_self
    exact ⟨d, ds, hn, h d (Nat.isDigit_of_mem_toDigits (by decide) (by decide) hd)⟩

def u64 : Codec UInt64 :=
  nat.imap (fun n => if n < 2 ^ 64 then some (UInt64.ofNat n) else none) UInt64.toNat
    fun u => by rw [if_pos u.toNat_lt, UInt64.ofNat_toNat]

def u8 : Codec UInt8 :=
  nat.imap (fun n => if n < 2 ^ 8 then some (UInt8.ofNat n) else none) UInt8.toNat
    fun u => by rw [if_pos u.toNat_lt, UInt8.ofNat_toNat]

/-! ## Strings -/

/-- One character of a string. Control characters without a short escape are
written as `\u00XX`. -/
def escapeChar (c : Char) : List Char :=
  if c = '"' then ['\\', '"']
  else if c = '\\' then ['\\', '\\']
  else if c = '\n' then ['\\', 'n']
  else if c = '\r' then ['\\', 'r']
  else if c = '\t' then ['\\', 't']
  else if c = '\x08' then ['\\', 'b']
  else if c = '\x0c' then ['\\', 'f']
  else if c.toNat < 32 then
    ['\\', 'u', '0', '0', (c.toNat / 16).digitChar, (c.toNat % 16).digitChar]
  else [c]

def hexValue (d : Char) : Option Nat := (List.range 16).find? fun n => n.digitChar == d

theorem hexValue_digitChar {n : Nat} (h : n < 16) : hexValue n.digitChar = some n := by
  have hall : ∀ m : Fin 16, hexValue m.val.digitChar = some m.val := by decide
  exact hall ⟨n, h⟩

/-- The short escapes. -/
def unescape (e : Char) : Option Char :=
  if e = '"' then some '"'
  else if e = '\\' then some '\\'
  else if e = 'n' then some '\n'
  else if e = 'r' then some '\r'
  else if e = 't' then some '\t'
  else if e = 'b' then some '\x08'
  else if e = 'f' then some '\x0c'
  else none

/-- The rest of a string after its opening quote. -/
def parseBody : List Char → Option (List Char × List Char)
  | [] => none
  | '"' :: rest => some ([], rest)
  | '\\' :: 'u' :: '0' :: '0' :: hi :: lo :: rest => do
    let high ← hexValue hi
    let low ← hexValue lo
    (parseBody rest).map fun p => (Char.ofNat (16 * high + low) :: p.1, p.2)
  | '\\' :: e :: rest => do
    let c ← unescape e
    (parseBody rest).map fun p => (c :: p.1, p.2)
  | c :: rest => (parseBody rest).map fun p => (c :: p.1, p.2)

theorem parseBody_escapeChar (c : Char) (s : List Char) :
    parseBody (escapeChar c ++ s) = (parseBody s).map fun p => (c :: p.1, p.2) := by
  by_cases hshort : c ∈ ['"', '\\', '\n', '\r', '\t', '\x08', '\x0c']
  · simp only [List.mem_cons, List.not_mem_nil, or_false] at hshort
    rcases hshort with rfl | rfl | rfl | rfl | rfl | rfl | rfl <;>
      simp [escapeChar, parseBody, unescape]
  · simp only [List.mem_cons, List.not_mem_nil, or_false, not_or] at hshort
    obtain ⟨hquote, hslash, hn, hr, ht, hb, hf⟩ := hshort
    by_cases hcontrol : c.toNat < 32
    · have hchar : Char.ofNat (16 * (c.toNat / 16) + c.toNat % 16) = c := by
        rw [Nat.div_add_mod, Char.ofNat_toNat]
      simp [escapeChar, hquote, hslash, hn, hr, ht, hb, hf, hcontrol, parseBody,
        hexValue_digitChar (show c.toNat / 16 < 16 by omega),
        hexValue_digitChar (Nat.mod_lt c.toNat (by decide : 16 > 0)), hchar]
    · have hplain : escapeChar c = [c] := by
        simp [escapeChar, hquote, hslash, hn, hr, ht, hb, hf, hcontrol]
      rw [hplain, List.singleton_append, parseBody]
      · intro h; exact absurd h hquote
      · intro _ _ _ h; exact absurd h hslash
      · intro _ _ h; exact absurd h hslash

def string : Codec String where
  print str := '"' :: (str.toList.flatMap escapeChar ++ ['"'])
  parse s := do
    let s ← expect ['"'] s
    let (cs, rest) ← parseBody s
    some (String.ofList cs, rest)
  parse_print str rest _ := by
    have hbody : ∀ cs : List Char,
        parseBody (cs.flatMap escapeChar ++ '"' :: rest) = some (cs, rest) := by
      intro cs
      induction cs with
      | nil => rfl
      | cons c cs ih =>
        rw [List.flatMap_cons, List.append_assoc, parseBody_escapeChar, ih]
        rfl
    have hquote := expect_append ['"'] (str.toList.flatMap escapeChar ++ '"' :: rest)
    simp only [List.singleton_append] at hquote
    simp [hquote, hbody]

theorem string_leads (h : P '"') : string.Leads P := fun _ => ⟨'"', _, rfl, h⟩

theorem string_leads_item : string.Leads (· ≠ ']') := string_leads (by decide)

theorem string_leads_some : string.Leads (· ≠ 'n') := string_leads (by decide)

/-! ## Arrays, maps and options -/

def printItems (c : Codec α) : List α → List Char
  | [] => []
  | [a] => c.print a
  | a :: rest => c.print a ++ ',' :: printItems c rest

/-- Items up to a closing character; the fuel bounds the number of items. -/
def parseItems (c : Codec α) (close : Char) : Nat → List Char → Option (List α × List Char)
  | 0, _ => none
  | fuel + 1, s => do
    let (a, s) ← c.parse s
    match s with
    | [] => none
    | d :: s =>
      if d = ',' then do
        let (rest, s) ← parseItems c close fuel s
        some (a :: rest, s)
      else if d = close then some ([a], s)
      else none

theorem length_le_printItems (c : Codec α) (hlead : c.Leads P) (as : List α) :
    as.length ≤ (printItems c as).length := by
  fun_induction printItems c as with
  | case1 => exact le_rfl
  | case2 a =>
    obtain ⟨d, ds, h, -⟩ := hlead a
    simp [h]
  | case3 a rest _ ih =>
    simp only [List.length_cons, List.length_append]
    omega

theorem parseItems_printItems (c : Codec α) {close : Char} (hclose : close.isDigit = false)
    (hcomma : close ≠ ',') (rest : List Char) :
    ∀ (as : List α) (fuel : Nat), as ≠ [] → as.length ≤ fuel →
      parseItems c close fuel (printItems c as ++ close :: rest) = some (as, rest) := by
  intro as
  induction as with
  | nil => intro _ h; exact absurd rfl h
  | cons a as ih =>
    intro fuel _ hfuel
    obtain ⟨fuel, rfl⟩ : ∃ k, fuel = k + 1 := ⟨fuel - 1, by simp at hfuel; omega⟩
    cases as with
    | nil =>
      rw [printItems, parseItems, c.parse_print a _ (ends_cons hclose)]
      simp [hcomma]
    | cons b as =>
      have hrest := ih fuel (by simp) (by simpa using hfuel)
      rw [printItems, parseItems, List.append_assoc, List.cons_append,
        c.parse_print a _ (ends_cons (by decide))]
      · simp [hrest]
      · simp

/-- Items between brackets. -/
def items (c : Codec α) (opening close : Char) (hlead : c.Leads (· ≠ close))
    (hclose : close.isDigit = false) (hcomma : close ≠ ',') : Codec (List α) where
  print as := opening :: (printItems c as ++ [close])
  parse s := do
    let s ← expect [opening] s
    match s with
    | [] => none
    | d :: rest =>
      if d = close then some ([], rest)
      else parseItems c close (d :: rest).length (d :: rest)
  parse_print as rest _ := by
    have hopen := expect_append [opening] (printItems c as ++ close :: rest)
    simp only [List.singleton_append] at hopen
    cases as with
    | nil =>
      simp only [printItems, List.nil_append] at hopen
      simp [hopen, printItems]
    | cons a as =>
      have hlen := length_le_printItems c hlead (a :: as)
      obtain ⟨d, ds, hprint, hd⟩ : ∃ d ds, printItems c (a :: as) = d :: ds ∧ d ≠ close := by
        obtain ⟨d, ds, hprint, hd⟩ := hlead a
        cases as with
        | nil => exact ⟨d, ds, hprint, hd⟩
        | cons b as =>
          exact ⟨d, ds ++ ',' :: printItems c (b :: as), by simp [printItems, hprint], hd⟩
      have hitems := parseItems_printItems c hclose hcomma rest (a :: as)
        (printItems c (a :: as) ++ close :: rest).length (by simp) (by simp at hlen ⊢; omega)
      rw [hprint] at hitems hopen ⊢
      simp only [List.cons_append, List.append_assoc, List.nil_append] at hitems hopen ⊢
      simp only [hopen, Option.bind_eq_bind, Option.bind_some, if_neg hd]
      exact hitems

/-- An array. -/
def list (c : Codec α) (hlead : c.Leads (· ≠ ']')) : Codec (List α) :=
  items c '[' ']' hlead (by decide) (by decide)

theorem list_leads {hlead : c.Leads (· ≠ ']')} {P : Char → Prop} (h : P '[') :
    (list c hlead).Leads P := fun _ => ⟨'[', _, rfl, h⟩

/-- A member of an object. -/
def member (c : Codec α) : Codec (String × α) where
  print p := string.print p.1 ++ ':' :: c.print p.2
  parse s := do
    let (key, s) ← string.parse s
    let s ← expect [':'] s
    let (a, s) ← c.parse s
    some ((key, a), s)
  parse_print p rest hrest := by
    have hkey := string.parse_print p.1 (':' :: (c.print p.2 ++ rest)) (ends_cons (by decide))
    have hcolon := expect_append [':'] (c.print p.2 ++ rest)
    simp only [List.singleton_append] at hcolon
    simp [List.append_assoc, hkey, hcolon, c.parse_print p.2 rest hrest]

/-- A pair is an array of two. -/
def pair (c : Codec α) (d : Codec β) : Codec (α × β) where
  print p := '[' :: (c.print p.1 ++ ',' :: (d.print p.2 ++ [']']))
  parse s := do
    let s ← expect ['['] s
    let (a, s) ← c.parse s
    let s ← expect [','] s
    let (b, s) ← d.parse s
    let s ← expect [']'] s
    some ((a, b), s)
  parse_print p rest _ := by
    have hopen := expect_append ['['] (c.print p.1 ++ ',' :: (d.print p.2 ++ ']' :: rest))
    have hcomma := expect_append [','] (d.print p.2 ++ ']' :: rest)
    have hclose := expect_append [']'] rest
    simp only [List.singleton_append] at hopen hcomma hclose
    have hfst := c.parse_print p.1 (',' :: (d.print p.2 ++ ']' :: rest)) (ends_cons (by decide))
    have hsnd := d.parse_print p.2 (']' :: rest) (ends_cons (by decide))
    simp [List.append_assoc, hopen, hfst, hcomma, hsnd, hclose]

theorem pair_leads {d : Codec β} (h : P '[') :
    (pair c d).Leads P := fun _ => ⟨'[', _, rfl, h⟩ 

/-- An object used as a map with string keys. -/
def strMap (c : Codec α) : Codec (OrdMap String α) :=
  (items (member c) '\x7b' '\x7d' (fun p => ⟨'"', _, rfl, by decide⟩) (by decide) (by decide)).imap
    (fun entries => some (OrdMap.insertAll ∅ entries)) (fun m => m.toList) fun m => by
      have h : OrdMap.insertAll ∅ m.toList = m := by
        apply ExtTreeMap.ext_getElem?
        intro k
        rw [OrdMap.get_insertAll_toList]
        simp
      rw [h]

/-- An absent value is `null`. -/
def option (c : Codec α) (hlead : c.Leads (· ≠ 'n')) : Codec (Option α) where
  print
    | none => ['n', 'u', 'l', 'l']
    | some a => c.print a
  parse s :=
    match expect ['n', 'u', 'l', 'l'] s with
    | some rest => some (none, rest)
    | none => (c.parse s).map fun p => (some p.1, p.2)
  parse_print a rest hrest := by
    cases a with
    | none => rfl
    | some a =>
      obtain ⟨d, ds, hprint, hd⟩ := hlead a
      have hnull : expect ['n', 'u', 'l', 'l'] (c.print a ++ rest) = none := by
        rw [hprint]
        simp [expect, List.isPrefixOf, hd.symm]
      rw [hnull, c.parse_print a rest hrest]
      rfl

end Codec

end Json

end Base
