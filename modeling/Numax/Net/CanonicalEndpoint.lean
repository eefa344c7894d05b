import Numax.Net.Endpoint

/-!
# Canonical endpoints, again

Is the canonical form of an endpoint its own canonical form? The text splits back
into the host and the port it was made of, an address is parsed back from what was
printed, and a DNS name in lower case stays as it is. There is one exception. A
name may end in a dot, an address may not, so `0.0.0.0.` is taken for a name, and
without its dot it is an address that cannot be dialed. `disguised` recognizes
these endpoints, and `canonicalize_again` says that they are the only ones.
-/

open Base

namespace Numax

/-! ## Characters -/

/-- Characters of a canonical host. -/
def isHostChar (c : Char) : Bool := c.isAlphanum || c == '-' || c == '.' || c == ':'

/-- A visible ASCII character. -/
def Visible (c : Char) : Prop := 0x21 ≤ c.toNat ∧ c.toNat ≤ 0x7e

variable {c : Char}

theorem visible_of_isAlphanum (h : c.isAlphanum = true) : Visible c := by
  simp only [Char.isAlphanum, Char.isAlpha, Char.isUpper, Char.isLower, Char.isDigit,
    Bool.or_eq_true, Bool.and_eq_true, decide_eq_true_eq, ge_iff_le, UInt32.le_iff_toNat_le,
    Char.toNat_val] at h
  simp at h
  unfold Visible
  omega

theorem visible_of_isHostChar (h : isHostChar c = true) : Visible c := by
  simp only [isHostChar, Bool.or_eq_true, beq_iff_eq] at h
  rcases h with ((h | rfl) | rfl) | rfl
  · exact visible_of_isAlphanum h
  all_goals exact ⟨by decide, by decide⟩

theorem Visible.not_whitespace (h : Visible c) : isWhitespace c = false := by
  obtain ⟨hlow, hhigh⟩ := h
  simp only [isWhitespace, Bool.or_eq_false_iff, decide_eq_false_iff_not, beq_eq_false_iff_ne]
  omega

theorem Visible.utf8Size (h : Visible c) : c.utf8Size = 1 := by
  rw [Char.utf8Size_eq_one_iff, UInt32.le_iff_toNat_le]
  exact h.2.trans (by decide)

theorem isLower_toLower_or (c : Char) : c.toLower.isLower = true ∨ c.toLower = c := by
  by_cases h : c.isUpper = true
  · left
    rw [Char.isLower_toLower_eq_isAlpha, Char.isAlpha, h, Bool.true_or]
  · exact .inr (Char.toLower_eq_of_not_isUpper h)

theorem toLower_eq_iff {d : Char} (h : d.isAlpha = false) : c.toLower = d ↔ c = d := by
  rw [Char.isAlpha, Bool.or_eq_false_iff] at h
  rcases isLower_toLower_or c with hlower | hself
  · constructor
    · rintro rfl
      rw [h.2] at hlower
      cases hlower
    · rintro rfl
      exact Char.toLower_eq_of_not_isUpper (by simp [h.1])
  · rw [hself]

theorem isAlphanum_toLower (c : Char) : c.toLower.isAlphanum = c.isAlphanum := by
  rw [Char.isAlphanum, Char.isAlphanum, Char.isAlpha_toLower_eq_isAlpha]
  by_cases h : c.isUpper = true
  · simp [Char.isAlpha, h]
  · rw [Char.toLower_eq_of_not_isUpper h]

/-! ## Text -/

variable {text : List Char}

theorem trim_eq_self (h : ∀ c ∈ text, Visible c) : trim text = text := by
  have hdrop : ∀ t : List Char, (∀ c ∈ t, Visible c) → t.dropWhile isWhitespace = t := by
    intro t ht
    cases t with
    | nil => rfl
    | cons c t => rw [List.dropWhile_cons, (ht c List.mem_cons_self).not_whitespace]; rfl
  rw [trim, hdrop text h, hdrop text.reverse fun c hc => h c (List.mem_reverse.mp hc),
    List.reverse_reverse]

theorem utf8Len_eq_length (h : ∀ c ∈ text, Visible c) :
    String.utf8Len text = text.length := by
  induction text with
  | nil => rfl
  | cons c text ih =>
    rw [String.utf8Len_cons, ih fun d hd => h d (List.mem_cons_of_mem _ hd),
      (h c List.mem_cons_self).utf8Size, List.length_cons]

theorem utf8Len_map_toLower (text : List Char) :
    String.utf8Len (text.map Char.toLower) = String.utf8Len text := by
  have hsize : ∀ c : Char, c.toLower.utf8Size = c.utf8Size := by
    intro c
    rcases isLower_toLower_or c with hlower | hself
    · have halnum : c.toLower.isAlphanum = true := by simp [Char.isAlphanum, Char.isAlpha, hlower]
      rw [(visible_of_isAlphanum halnum).utf8Size,
        (visible_of_isAlphanum (isAlphanum_toLower c ▸ halnum)).utf8Size]
    · rw [hself]
  induction text with
  | nil => rfl
  | cons c text ih => rw [List.map_cons, String.utf8Len_cons, String.utf8Len_cons, ih, hsize]

theorem parseU16_toDigits {n : Nat} (h : n < 2 ^ 16) : parseU16 (Nat.toDigits 10 n) = some n := by
  have hdigits : ∀ c ∈ Nat.toDigits 10 n, c.isDigit = true := fun c hc =>
    Nat.isDigit_of_mem_toDigits (by decide) (by decide) hc
  cases htext : Nat.toDigits 10 n with
  | nil => exact absurd htext Nat.toDigits_ne_nil
  | cons d ds =>
    have hplus : d ≠ '+' := by
      rintro rfl
      exact absurd (hdigits '+' (by rw [htext]; exact List.mem_cons_self)) (by decide)
    have hall : (d :: ds).any (fun c => !c.isDigit) = false := by
      rw [← htext, List.any_eq_false]
      exact fun c hc => by simp [hdigits c hc]
    have hvalue : Nat.ofDigitChars 10 (d :: ds) 0 = n := by
      rw [← htext, Nat.ofDigitChars_ten_toDigits]
    rw [parseU16]
    · simp only [hall, List.isEmpty_cons, Bool.or_self, Bool.false_eq_true, if_false, hvalue,
        if_pos h]
    · rintro rest heq
      exact hplus (List.cons.inj heq).1

theorem parseU16_lt {n : Nat} (h : parseU16 text = some n) : n < 2 ^ 16 := by
  simp only [parseU16, Option.ite_none_left_eq_some, Option.ite_none_right_eq_some,
    Option.some.injEq] at h
  exact h.2.2 ▸ h.2.1

theorem rsplitColon_append {host port : List Char} (h : ':' ∉ port) :
    rsplitColon (host ++ ':' :: port) = some (host, port) := by
  have hport : ':' ∉ port.reverse := by rwa [List.mem_reverse]
  have hreverse : (host ++ ':' :: port).reverse = port.reverse ++ ':' :: host.reverse := by simp
  rw [rsplitColon, hreverse, dropWhile_ne_append hport, takeWhile_ne_append hport]
  simp

/-! ## Hosts -/

/-- The host of a canonical endpoint. -/
structure HostText (host : List Char) : Prop where
  chars : ∀ c ∈ host, isHostChar c = true
  nonempty : host ≠ []
  short : host.length ≤ 253

theorem HostText.not_mem {host : List Char} (h : HostText host) (hc : isHostChar c = false) :
    c ∉ host := by
  intro hmem
  rw [h.chars c hmem] at hc
  cases hc

variable {port : Nat}

/-- A canonical endpoint splits into what it was made of. -/
theorem splitEndpoint_formatEndpoint {host : List Char} (hhost : HostText host)
    (hport : port < 2 ^ 16) : splitEndpoint (formatEndpoint host port) = .ok (host, port) := by
  by_cases hcolon : ':' ∈ host
  · have hclose : ']' ∉ host := hhost.not_mem (by decide)
    simp only [formatEndpoint, if_pos hcolon, splitEndpoint, takeWhile_ne_append hclose,
      dropWhile_ne_append hclose, parseU16_toDigits hport]
  · obtain ⟨first, rest, rfl⟩ := List.exists_cons_of_ne_nil hhost.nonempty
    rw [formatEndpoint, if_neg hcolon, List.cons_append, splitEndpoint]
    · rw [← List.cons_append, rsplitColon_append (not_mem_toDigits (by decide) port)]
      simp only [if_neg hcolon, parseU16_toDigits hport]
    · rintro rest' heq
      have hopen : '[' ∉ first :: rest := hhost.not_mem (by decide)
      exact hopen ((List.cons.inj heq).1 ▸ List.mem_cons_self)

/-! ### Names -/

theorem mem_label_or_dot {host : List Char} (h : c ∈ host) :
    c = '.' ∨ ∃ label ∈ host.splitOn '.', c ∈ label := by
  induction host with
  | nil => cases h
  | cons d host ih =>
    rw [List.splitOn_cons_eq_if_modifyHead]
    obtain ⟨first, rest, hsplit⟩ := List.exists_cons_of_ne_nil (List.splitOn_ne_nil '.' host)
    rw [hsplit] at ih ⊢
    by_cases hdot : d = '.'
    · rw [if_pos (beq_iff_eq.mpr hdot)]
      rcases List.mem_cons.mp h with rfl | htail
      · exact .inl hdot
      · exact (ih htail).imp_right fun ⟨label, hlabel, hc⟩ =>
          ⟨label, List.mem_cons_of_mem _ hlabel, hc⟩
    · rw [if_neg (by simpa using hdot), List.modifyHead_cons]
      rcases List.mem_cons.mp h with rfl | htail
      · exact .inr ⟨_, List.mem_cons_self, List.mem_cons_self⟩
      · rcases ih htail with heq | ⟨label, hlabel, hc⟩
        · exact .inl heq
        · rcases List.mem_cons.mp hlabel with rfl | hother
          · exact .inr ⟨_, List.mem_cons_self, List.mem_cons_of_mem _ hc⟩
          · exact .inr ⟨label, List.mem_cons_of_mem _ hother, hc⟩

theorem splitOn_map_toLower (host : List Char) :
    (host.map Char.toLower).splitOn '.' = (host.splitOn '.').map (List.map Char.toLower) := by
  induction host with
  | nil => rfl
  | cons c host ih =>
    have hdot : (c.toLower == '.') = (c == '.') := by
      rw [Bool.eq_iff_iff, beq_iff_eq, beq_iff_eq, toLower_eq_iff (by decide)]
    rw [List.map_cons, List.splitOn_cons_eq_if_modifyHead, List.splitOn_cons_eq_if_modifyHead,
      hdot, ih]
    split
    · rfl
    · cases host.splitOn '.' <;> rfl

theorem validLabel_map_toLower (label : List Char) :
    validLabel (label.map Char.toLower) = validLabel label := by
  have hchar : ∀ c : Char, (c.toLower.isAlphanum || c.toLower == '-') =
      (c.isAlphanum || c == '-') := by
    intro c
    rw [isAlphanum_toLower, Bool.eq_iff_iff, Bool.or_eq_true, Bool.or_eq_true, beq_iff_eq,
      beq_iff_eq, toLower_eq_iff (by decide)]
  have hany : ∀ o : Option Char,
      (o.map Char.toLower).any Char.isAlphanum = o.any Char.isAlphanum := by
    intro o
    cases o with
    | none => rfl
    | some c => exact isAlphanum_toLower c
  simp only [validLabel, List.isEmpty_map, utf8Len_map_toLower, List.all_map, Function.comp_def,
    hchar, List.head?_map, List.getLast?_map, hany]

/-- What a valid name is, without the dot at its end. -/
structure DnsName (host : List Char) : Prop where
  nonempty : host ≠ []
  short : String.utf8Len host ≤ 253
  labels : ∀ label ∈ host.splitOn '.', validLabel label = true

theorem validDnsName_iff {host : List Char} :
    validDnsName host = true ↔ DnsName (stripDot host) := by
  simp only [validDnsName, Bool.and_eq_true, Bool.not_eq_true', List.isEmpty_eq_false_iff,
    decide_eq_true_eq, List.all_eq_true]
  exact ⟨fun h => ⟨h.1.1, h.1.2, h.2⟩, fun h => ⟨⟨h.nonempty, h.short⟩, h.labels⟩⟩

namespace DnsName

variable {host : List Char}

theorem chars (h : DnsName host) : ∀ c ∈ host, c.isAlphanum = true ∨ c = '-' ∨ c = '.' := by
  intro c hc
  rcases mem_label_or_dot hc with hdot | ⟨label, hlabel, hmem⟩
  · exact .inr (.inr hdot)
  · have hvalid := h.labels label hlabel
    simp only [validLabel, Bool.and_eq_true, List.all_eq_true] at hvalid
    have hchar := hvalid.1.1.2 c hmem
    rw [Bool.or_eq_true, beq_iff_eq] at hchar
    exact hchar.imp_right .inl

theorem hostText (h : DnsName host) : HostText host := by
  have hchars : ∀ c ∈ host, isHostChar c = true := by
    intro c hc
    rcases h.chars c hc with halnum | rfl | rfl
    · simp [isHostChar, halnum]
    · rfl
    · rfl
  refine ⟨hchars, h.nonempty, ?_⟩
  rw [← utf8Len_eq_length fun c hc => visible_of_isHostChar (hchars c hc)]
  exact h.short

theorem no_colon (h : DnsName host) : ':' ∉ host := by
  intro hmem
  have hchar := h.chars ':' hmem
  revert hchar
  decide

theorem no_bracket (h : DnsName host) : '[' ∉ host := by
  intro hmem
  have hchar := h.chars '[' hmem
  revert hchar
  decide

/-- The last label is not empty. -/
theorem stripDot_eq (h : DnsName host) : stripDot host = host := by
  rw [stripDot, if_neg]
  intro hlast
  obtain ⟨init, rfl⟩ := List.getLast?_eq_some_iff.mp hlast
  have hempty : [] ∈ (init ++ ['.']).splitOn '.' := by
    rw [List.splitOn_append_cons_self, List.splitOn_nil]
    exact List.mem_append_right _ List.mem_cons_self
  exact absurd (h.labels [] hempty) (by decide)

theorem toLower (h : DnsName host) : DnsName (host.map Char.toLower) := by
  refine ⟨by simpa using h.nonempty, by rw [utf8Len_map_toLower]; exact h.short, ?_⟩
  intro label hlabel
  rw [splitOn_map_toLower] at hlabel
  obtain ⟨original, hmem, rfl⟩ := List.mem_map.mp hlabel
  rw [validLabel_map_toLower]
  exact h.labels original hmem

end DnsName

/-! ### Addresses and names -/

variable {v6 : Ipv6Text}

theorem IpAddr.parse_print (ip : IpAddr v6) : IpAddr.parse v6 ip.print = some ip := by
  cases ip with
  | v4 ip => simp only [IpAddr.parse, IpAddr.print, Ipv4.parse_eq_some_iff.mpr rfl]
  | v6 ip =>
    have hnot : Ipv4.parse (v6.print ip) = none := by
      rw [Option.eq_none_iff_forall_ne_some]
      intro other h
      have hcolon := v6.colon_of_parse (v6.parse_print ip)
      rw [← Ipv4.parse_eq_some_iff.mp h] at hcolon
      exact Ipv4.not_mem_print (by decide) (by decide) other hcolon
    simp only [IpAddr.parse, IpAddr.print, hnot, v6.parse_print, Option.map_some]

theorem IpAddr.hostText (ip : IpAddr v6) : HostText ip.print := by
  cases ip with
  | v4 ip =>
    refine ⟨fun c hc => ?_, ?_, (Ipv4.length_print_le ip).trans (by decide)⟩
    · rcases Ipv4.mem_print hc with hdigit | rfl
      · simp [isHostChar, Char.isAlphanum, hdigit]
      · rfl
    · simp [IpAddr.print, Ipv4.print]
  | v6 ip =>
    refine ⟨fun c hc => ?_, ?_, (v6.length_print_le ip).trans (by decide)⟩
    · rcases v6.mem_print hc with halnum | rfl | rfl
      · simp [isHostChar, halnum]
      · rfl
      · rfl
    · exact List.ne_nil_of_mem (v6.colon_of_parse (v6.parse_print ip))

/-- Is the text a name only because of its dot, and an address that cannot be dialed
without it? -/
def disguisedHost (host : List Char) : Bool :=
  host.getLast? == some '.' && (Ipv4.parse host.dropLast).any fun ip =>
    ip.isUnspecified || ip.isMulticast || ip.isBroadcast

variable {canonical : List Char}

theorem canonicalHost_hostText {host : List Char} (h : canonicalHost v6 host = .ok canonical) :
    HostText canonical := by
  unfold canonicalHost at h
  split at h
  · next ip _ =>
      split at h
      · cases h
      · cases h
        exact ip.hostText
  · split at h
    · cases h
    · next hvalid =>
        cases h
        rw [Bool.not_eq_true', Bool.not_eq_false] at hvalid
        exact (validDnsName_iff.mp hvalid).toLower.hostText

/-- Case does not matter to an IPv4 address. -/
theorem ipv4Parse_map_toLower (text : List Char) :
    Ipv4.parse (text.map Char.toLower) = Ipv4.parse text := by
  refine Option.ext fun ip => ?_
  rw [Ipv4.parse_eq_some_iff, Ipv4.parse_eq_some_iff]
  have hplain : ∀ c ∈ ip.print, c.isAlpha = false := by
    intro c hc
    rcases Ipv4.mem_print hc with hdigit | rfl
    · simp only [Char.isDigit, Char.isAlpha, Char.isUpper, Char.isLower, Bool.and_eq_true,
        decide_eq_true_eq, ge_iff_le, UInt32.le_iff_toNat_le, Bool.or_eq_false_iff,
        Bool.and_eq_false_iff, decide_eq_false_iff_not] at hdigit ⊢
      simp at hdigit ⊢
      omega
    · rfl
  constructor <;> intro h
  · have hsame : text.map Char.toLower = text.map id := List.map_congr_left fun c hc => by
      have hmem : c.toLower ∈ ip.print := h ▸ List.mem_map_of_mem hc
      exact ((toLower_eq_iff (hplain _ hmem)).mp rfl).symm
    rw [h, hsame, List.map_id]
  · have hsame : text.map Char.toLower = text.map id := List.map_congr_left fun c hc =>
      (toLower_eq_iff (hplain c (h ▸ hc))).mpr rfl
    rw [h, hsame, List.map_id]

theorem ipAddrParse_of_no_colon {text : List Char} (h : ':' ∉ text) :
    IpAddr.parse v6 text = (Ipv4.parse text).map .v4 := by
  have hnone : v6.parse text = none := by
    rw [Option.eq_none_iff_forall_ne_some]
    exact fun ip hip => h (v6.colon_of_parse hip)
  rw [IpAddr.parse, hnone]
  cases Ipv4.parse text <;> rfl

/-- An address with a dot at its end is no IPv4 address without it. -/
theorem ipv4Parse_dropLast_of_parse {host : List Char} {ip : IpAddr v6}
    (h : IpAddr.parse v6 host = some ip) (hlast : host.getLast? = some '.') :
    Ipv4.parse host.dropLast = none := by
  by_contra hsome
  obtain ⟨other, hother⟩ := Option.ne_none_iff_exists'.mp hsome
  obtain ⟨init, rfl⟩ := List.getLast?_eq_some_iff.mp hlast
  rw [List.dropLast_concat, Ipv4.parse_eq_some_iff] at hother
  have hcolon : ':' ∉ init ++ ['.'] := by
    rw [← hother]
    intro hmem
    rcases List.mem_append.mp hmem with hprint | hdot
    · exact Ipv4.not_mem_print (by decide) (by decide) other hprint
    · exact absurd hdot (by decide)
  rw [ipAddrParse_of_no_colon hcolon, Option.map_eq_some_iff] at h
  obtain ⟨found, hfound, -⟩ := h
  -- five labels against four
  have hlabels := congrArg (List.splitOn '.') (Ipv4.parse_eq_some_iff.mp hfound)
  rw [← hother, List.splitOn_append_cons_self, Ipv4.splitOn_print, Ipv4.splitOn_print] at hlabels
  simpa using congrArg List.length hlabels

theorem not_disguisedHost_of_parse {host : List Char} {ip : IpAddr v6}
    (h : IpAddr.parse v6 host = some ip) : disguisedHost host = false := by
  by_cases hlast : host.getLast? = some '.'
  · simp [disguisedHost, ipv4Parse_dropLast_of_parse h hlast]
  · simp [disguisedHost, hlast]

/-- The canonical host is the IPv4 address that the host is, up to a dot at its end. -/
theorem ipv4Parse_canonicalHost {host : List Char} (h : canonicalHost v6 host = .ok canonical) :
    Ipv4.parse canonical = Ipv4.parse (stripDot host) := by
  unfold canonicalHost at h
  split at h
  · next ip hip =>
      split at h
      · cases h
      · cases h
        have hprint : Ipv4.parse ip.print = Ipv4.parse host := by
          cases hv4 : Ipv4.parse host with
          | some other =>
            rw [IpAddr.parse, hv4] at hip
            cases hip
            exact Ipv4.parse_eq_some_iff.mpr rfl
          | none =>
            rw [IpAddr.parse, hv4] at hip
            obtain ⟨other, -, rfl⟩ := Option.map_eq_some_iff.mp hip
            rw [Option.eq_none_iff_forall_ne_some]
            intro found hfound
            have hcolon := v6.colon_of_parse (v6.parse_print other)
            change ':' ∈ (IpAddr.v6 other).print at hcolon
            rw [← Ipv4.parse_eq_some_iff.mp hfound] at hcolon
            exact Ipv4.not_mem_print (by decide) (by decide) found hcolon
        rw [hprint, stripDot]
        split
        · next hlast =>
            -- such a host is no IPv4 address, with the dot or without it
            rw [ipv4Parse_dropLast_of_parse hip hlast, Option.eq_none_iff_forall_ne_some]
            intro other hother
            rw [← Ipv4.parse_eq_some_iff.mp hother] at hlast
            exact other.getLast?_print_ne hlast
        · rfl
  · split at h
    · cases h
    · cases h
      exact ipv4Parse_map_toLower _

def undialableHost : NetError :=
  .invalidMessage "advertised endpoint must use a dialable unicast IP address"

theorem canonicalHost_again_name {host : List Char} (hname : IpAddr.parse v6 host = none)
    (hvalid : validDnsName host = true) :
    canonicalHost v6 ((stripDot host).map Char.toLower) =
      if disguisedHost host then .error undialableHost
      else .ok ((stripDot host).map Char.toLower) := by
  have hlower := (validDnsName_iff.mp hvalid).toLower
  have hparse : IpAddr.parse v6 ((stripDot host).map Char.toLower) =
      (Ipv4.parse (stripDot host)).map .v4 := by
    rw [ipAddrParse_of_no_colon hlower.no_colon, ipv4Parse_map_toLower]
  have hstrip : host.getLast? = some '.' → stripDot host = host.dropLast := fun h => if_pos h
  cases hip : Ipv4.parse (stripDot host) with
  | none =>
    have hagain : validDnsName ((stripDot host).map Char.toLower) = true := by
      rw [validDnsName_iff, hlower.stripDot_eq]
      exact hlower
    have hplain : disguisedHost host = false := by
      by_cases hlast : host.getLast? = some '.'
      · simp [disguisedHost, ← hstrip hlast, hip]
      · simp [disguisedHost, hlast]
    rw [hip] at hparse
    simp [canonicalHost, hparse, hagain, hplain, hlower.stripDot_eq]
  | some ip =>
    -- the address has become one by losing its dot
    have hlast : host.getLast? = some '.' := by
      by_contra hlast
      rw [stripDot, if_neg hlast] at hip
      rw [IpAddr.parse, hip] at hname
      cases hname
    have hprint : ip.print = (stripDot host).map Char.toLower := by
      rw [← Ipv4.parse_eq_some_iff, ipv4Parse_map_toLower, hip]
    have hdisguised : disguisedHost host = (IpAddr.v4 ip : IpAddr v6).undialable := by
      simp [disguisedHost, hlast, ← hstrip hlast, hip, IpAddr.undialable]
    rw [hip, Option.map_some] at hparse
    rw [canonicalHost, hparse, hdisguised, ← hprint]
    rfl

theorem canonicalHost_again {host : List Char} (h : canonicalHost v6 host = .ok canonical) :
    canonicalHost v6 canonical =
      if disguisedHost host then .error undialableHost else .ok canonical := by
  unfold canonicalHost at h
  split at h
  · next ip hip =>
      split at h
      · cases h
      · next hdialable =>
          cases h
          rw [not_disguisedHost_of_parse hip]
          simp only [canonicalHost, IpAddr.parse_print, if_neg hdialable, Bool.false_eq_true,
            if_false]
  · next hname =>
      split at h
      · cases h
      · next hvalid =>
          cases h
          exact canonicalHost_again_name hname (by simpa using hvalid)

/-! ## Endpoints -/

/-- The endpoints whose canonical form is refused. -/
def disguised (endpoint : String) : Bool :=
  match splitEndpoint endpoint.toList with
  | .error _ => false
  | .ok (host, _) => disguisedHost host

/-- The endpoints of IPv4 link-local addresses, with or without a dot at their end. -/
def linkLocalV4 (endpoint : String) : Bool :=
  match splitEndpoint endpoint.toList with
  | .error _ => false
  | .ok (host, _) => (Ipv4.parse (stripDot host)).any Ipv4.isLinkLocal

theorem visible_formatEndpoint {host : List Char} (hhost : HostText host) (port : Nat) :
    ∀ c ∈ formatEndpoint host port, Visible c := by
  have hhost' : ∀ c ∈ host, Visible c := fun c hc => visible_of_isHostChar (hhost.chars c hc)
  have hdigit : ∀ c ∈ Nat.toDigits 10 port, Visible c := by
    intro c hc
    have := Nat.isDigit_of_mem_toDigits (b := 10) (by decide) (by decide) hc
    exact visible_of_isAlphanum (by simp [Char.isAlphanum, this])
  have hmark : Visible '[' ∧ Visible ']' ∧ Visible ':' := by
    refine ⟨⟨?_, ?_⟩, ⟨?_, ?_⟩, ⟨?_, ?_⟩⟩ <;> decide
  intro c hc
  unfold formatEndpoint at hc
  split at hc
  · simp only [List.mem_cons, List.mem_append] at hc
    rcases hc with rfl | hc | rfl | rfl | hc
    exacts [hmark.1, hhost' c hc, hmark.2.1, hmark.2.2, hdigit c hc]
  · simp only [List.mem_cons, List.mem_append] at hc
    rcases hc with hc | rfl | hc
    exacts [hhost' c hc, hmark.2.2, hdigit c hc]

theorem length_formatEndpoint_le {host : List Char} (hhost : HostText host)
    (hport : port < 2 ^ 16) : (formatEndpoint host port).length ≤ maxEndpointLen := by
  have hdigits : (Nat.toDigits 10 port).length ≤ 5 := by
    rw [Nat.length_toDigits_le_iff (by decide) (by decide)]
    exact Nat.lt_of_lt_of_le hport (by decide)
  have hshort := hhost.short
  unfold maxEndpointLen formatEndpoint
  split
  all_goals
    simp only [List.length_cons, List.length_append]
    omega

theorem wellSized_formatEndpoint {host : List Char} (hhost : HostText host)
    (hport : port < 2 ^ 16) : wellSized (String.ofList (formatEndpoint host port)) = true := by
  have hvisible := visible_formatEndpoint hhost port
  have hnonempty : formatEndpoint host port ≠ [] := by
    unfold formatEndpoint
    split <;> simp
  have hsize : (String.ofList (formatEndpoint host port)).utf8ByteSize ≤ maxEndpointLen := by
    rw [String.utf8ByteSize_ofList, utf8Len_eq_length hvisible]
    exact length_formatEndpoint_le hhost hport
  simp [wellSized, hsize, trim_eq_self hvisible, hnonempty]

theorem canonicalize_ok {endpoint canonical : String}
    (h : canonicalizeAdvertisedEndpoint v6 endpoint = .ok canonical) :
    ∃ host port canonicalHost', splitEndpoint endpoint.toList = .ok (host, port) ∧ port ≠ 0 ∧
      canonicalHost v6 host = .ok canonicalHost' ∧
      canonical = String.ofList (formatEndpoint canonicalHost' port) := by
  unfold canonicalizeAdvertisedEndpoint at h
  split at h
  · cases h
  · split at h
    · cases h
    · next host port hsplit =>
        split at h
        · cases h
        · next hport =>
            split at h
            · cases h
            · next canonicalHost' hhost =>
                cases h
                exact ⟨host, port, canonicalHost', hsplit, hport, hhost, rfl⟩

theorem splitEndpoint_port_lt {host : List Char} (h : splitEndpoint text = .ok (host, port)) :
    port < 2 ^ 16 := by
  unfold splitEndpoint at h
  dsimp only at h
  split at h
  · cases h
  · split at h
    · cases h
    · next hport =>
        cases h
        exact parseU16_lt hport

/-- The canonical form is its own, except that of a disguised endpoint. -/
theorem canonicalize_again {endpoint canonical : String}
    (h : canonicalizeAdvertisedEndpoint v6 endpoint = .ok canonical) :
    canonicalizeAdvertisedEndpoint v6 canonical =
      if disguised endpoint then .error undialableHost else .ok canonical := by
  obtain ⟨host, port, canonicalHost', hsplit, hzero, hhost, rfl⟩ := canonicalize_ok h
  have hport := splitEndpoint_port_lt hsplit
  have htext := canonicalHost_hostText hhost
  have hdisguised : disguised endpoint = disguisedHost host := by rw [disguised, hsplit]
  simp only [canonicalizeAdvertisedEndpoint, wellSized_formatEndpoint htext hport, Bool.not_true,
    Bool.false_eq_true, if_false, String.toList_ofList, splitEndpoint_formatEndpoint htext hport,
    if_neg hzero, canonicalHost_again hhost, hdisguised]
  cases disguisedHost host <;> rfl

end Numax
