import Numax.Theorems.BootstrapSeed
import Numax.Discovery.PeerEndpoint

/-!
# The two canonical forms of an endpoint

The coordinator and the bootstrap exchange have parsers of their own. Their canonical
endpoints have the same shape (`CanonicalHost`): an address that can be dialed, or a
name in lower case that is no address. An endpoint of this shape is left as it is by
the coordinator, and whatever it accepts it brings into this shape.

The bootstrap exchange checks the address before it takes the dot away from the end of
the host. So its canonical form is not always of this shape: `0.0.0.0.` is accepted as
a name and becomes an address that nobody can dial.
-/

open Base

namespace Numax

variable {v6 : Ipv6Text} {debug : List Char → String}

/-- The hosts of canonical endpoints. -/
inductive CanonicalHost (v6 : Ipv6Text) : List Char → Prop where
  | address (ip : IpAddr v6) (dialable : ip.undialable = false) : CanonicalHost v6 ip.print
  | name (host : List Char) (dns : DnsName host) (lower : host.map Char.toLower = host)
      (noAddress : Ipv4.parse host = none) : CanonicalHost v6 host

/-- An address among them can be dialed. -/
theorem CanonicalHost.dialable {host : List Char} (h : CanonicalHost v6 host) {ip : IpAddr v6}
    (hip : IpAddr.parse v6 host = some ip) : ip.undialable = false := by
  cases h with
  | address other dialable =>
    cases (IpAddr.parse_print other).symm.trans hip
    exact dialable
  | name host dns lower noAddress =>
    rw [ipAddrParse_of_no_colon dns.no_colon, noAddress] at hip
    cases hip

/-! ## Socket addresses -/

theorem readNumber_toDigits {bound n : Nat} (h : n < bound) :
    readNumber bound (Nat.toDigits 10 n) = some n := by
  have hdigits : (Nat.toDigits 10 n).any (fun c => !c.isDigit) = false := by
    rw [List.any_eq_false]
    intro c hc
    simp [Nat.isDigit_of_mem_toDigits (b := 10) (by decide) (by decide) hc]
  simp [readNumber, hdigits, Nat.toDigits_ne_nil, Nat.ofDigitChars_ten_toDigits, h]

theorem readNumber_lt {bound n : Nat} {text : List Char} (h : readNumber bound text = some n) :
    n < bound := by
  simp only [readNumber, Option.ite_none_left_eq_some, Option.ite_none_right_eq_some,
    Option.some.injEq] at h
  exact h.2.2 ▸ h.2.1

theorem ipv4_no_colon (ip : Ipv4) : ':' ∉ ip.print :=
  Ipv4.not_mem_print (by decide) (by decide) ip

namespace SocketAddr

/-- What the bootstrap exchange writes is what the standard library prints. -/
theorem print_eq_formatEndpoint (ip : IpAddr v6) (port : Nat) :
    print ip port = formatEndpoint ip.print port := by
  cases ip with
  | v4 ip => exact (if_neg (ipv4_no_colon ip)).symm
  | v6 ip => exact (if_pos (v6.colon_of_parse (v6.parse_print ip))).symm

/-- Without a bracket the text is split at its first colon. -/
theorem parse_of_no_colon {host port : List Char} (hhost : ':' ∉ host)
    (hbracket : '[' ∉ host) :
    parse v6 (host ++ ':' :: port) =
      (Ipv4.parse host).bind fun ip =>
        (readNumber (2 ^ 16) port).map fun port => (.v4 ip, port) := by
  unfold parse
  split
  next rest heq =>
    cases host with
    | nil => cases heq
    | cons c host =>
      cases heq
      exact absurd List.mem_cons_self hbracket
  next =>
    rw [dropWhile_ne_append hhost, takeWhile_ne_append hhost]
    dsimp only
    cases Ipv4.parse host <;> cases readNumber (2 ^ 16) port <;> rfl

theorem parse_bracketed {host port : List Char} (hclose : ']' ∉ host) (hscope : '%' ∉ host) :
    parse v6 ('[' :: (host ++ ']' :: ':' :: port)) =
      (v6.parse host).bind fun ip => (readNumber (2 ^ 16) port).map fun port => (.v6 ip, port) := by
  have hinner : host.takeWhile (· != '%') = host ∧ host.dropWhile (· != '%') = [] :=
    ⟨List.takeWhile_eq_self_iff.mpr (bne_of_not_mem hscope),
      List.dropWhile_eq_nil_iff.mpr (bne_of_not_mem hscope)⟩
  rw [parse, dropWhile_ne_append hclose]
  simp only [takeWhile_ne_append hclose, hinner.1, hinner.2, readScope, if_true]
  cases v6.parse host <;> cases readNumber (2 ^ 16) port <;> rfl

theorem parse_print (ip : IpAddr v6) {port : Nat} (hport : port < 2 ^ 16) :
    parse v6 (print ip port) = some (ip, port) := by
  cases ip with
  | v4 ip =>
    have hbracket : '[' ∉ ip.print := Ipv4.not_mem_print (by decide) (by decide) ip
    rw [print, parse_of_no_colon (ipv4_no_colon ip) hbracket, Ipv4.parse_eq_some_iff.mpr rfl,
      readNumber_toDigits hport]
    rfl
  | v6 ip =>
    have hchars : ∀ c, c.isAlphanum = false → c ≠ ':' → c ≠ '.' → c ∉ v6.print ip := by
      intro c halnum hcolon hdot hmem
      rcases v6.mem_print hmem with h | h | h
      · rw [halnum] at h
        cases h
      · exact hcolon h
      · exact hdot h
    rw [print, parse_bracketed (hchars ']' (by decide) (by decide) (by decide))
      (hchars '%' (by decide) (by decide) (by decide)), v6.parse_print,
      readNumber_toDigits hport]
    rfl

theorem parse_port_lt {text : List Char} {ip : IpAddr v6} {port : Nat}
    (h : parse v6 text = some (ip, port)) : port < 2 ^ 16 := by
  unfold parse at h
  split at h
  · split at h
    · dsimp only at h
      split at h
      · split at h
        next hport =>
          cases h
          exact readNumber_lt hport
        next => cases h
      · cases h
    · cases h
  · split at h
    · split at h
      next hport =>
        cases h
        exact readNumber_lt hport
      next => cases h
    · cases h

end SocketAddr

/-! ## The coordinator -/

namespace Coordinator

theorem validDnsName_iff {host : List Char} : validDnsName host = true ↔ DnsName host := by
  simp only [validDnsName, Bool.and_eq_true, Bool.not_eq_true', List.isEmpty_eq_false_iff,
    decide_eq_true_eq, List.all_eq_true]
  constructor
  · rintro ⟨⟨⟨hnonempty, hshort⟩, -⟩, hlabels⟩
    exact ⟨hnonempty, hshort, hlabels⟩
  · intro h
    exact ⟨⟨⟨h.nonempty, h.short⟩, by simpa using h.no_colon⟩, h.labels⟩

/-- A name that is no address is not read as a socket address. -/
theorem parse_name {host : List Char} (dns : DnsName host) (noAddress : Ipv4.parse host = none)
    (port : List Char) : SocketAddr.parse v6 (host ++ ':' :: port) = none := by
  rw [SocketAddr.parse_of_no_colon dns.no_colon dns.no_bracket, noAddress]
  rfl

theorem trim_formatEndpoint {host : List Char} (h : HostText host) (port : Nat) :
    trim (formatEndpoint host port) = formatEndpoint host port ∧ formatEndpoint host port ≠ [] := by
  refine ⟨trim_eq_self (visible_formatEndpoint h port), ?_⟩
  unfold formatEndpoint
  split <;> simp

section Format

variable {host : List Char} {port : Nat} (hpos : 0 < port)

include hpos

theorem canonicalizeHostPort_canonical (h : CanonicalHost v6 host) :
    canonicalizeHostPort v6 host port = .ok (String.ofList (formatEndpoint host port)) := by
  rw [canonicalizeHostPort, if_neg hpos.ne']
  cases h with
  | address ip dialable =>
    rw [IpAddr.parse_print]
    simp only [dialable, Bool.false_eq_true, if_false, SocketAddr.print_eq_formatEndpoint]
  | name host dns lower noAddress =>
    rw [ipAddrParse_of_no_colon dns.no_colon, noAddress, formatEndpoint, if_neg dns.no_colon]
    simp only [Option.map_none, lower]

variable (hport : port < 2 ^ 16)

include hport

/-- A canonical endpoint is read back. -/
theorem parseHostPort_formatEndpoint (h : CanonicalHost v6 host) :
    parseHostPort v6 debug (formatEndpoint host port) false = .ok (host, port) := by
  have hzero : ¬((!false) = true ∧ port = 0) := fun hboth => hpos.ne' hboth.2
  cases h with
  | address ip dialable =>
    obtain ⟨htrim, hne⟩ := trim_formatEndpoint ip.hostText port
    rw [parseHostPort, if_neg (not_or.mpr ⟨not_not.mpr htrim, hne⟩),
      ← SocketAddr.print_eq_formatEndpoint, SocketAddr.parse_print ip hport]
    exact if_neg hzero
  | name host dns lower noAddress =>
    obtain ⟨htrim, hne⟩ := trim_formatEndpoint dns.hostText port
    have hvalid : validDnsName host = true := validDnsName_iff.mpr dns
    rw [parseHostPort, if_neg (not_or.mpr ⟨not_not.mpr htrim, hne⟩), formatEndpoint,
      if_neg dns.no_colon, parse_name dns noAddress,
      rsplitColon_append (not_mem_toDigits (by decide) port)]
    simp only [dns.stripDot_eq, hvalid, Bool.not_true, Bool.false_eq_true, if_false,
      parseU16_toDigits hport, if_neg hzero, lower]

/-- The coordinator leaves canonical endpoints as they are. -/
theorem canonicalizeEndpoint_canonical (h : CanonicalHost v6 host) :
    canonicalizeEndpoint v6 debug (String.ofList (formatEndpoint host port)) =
      .ok (String.ofList (formatEndpoint host port)) := by
  rw [canonicalizeEndpoint, String.toList_ofList, parseHostPort_formatEndpoint hpos hport h]
  exact canonicalizeHostPort_canonical hpos h

end Format

/-- The host and the port that are read, in front of the last check. -/
inductive HostPort (v6 : Ipv6Text) : List Char → Prop where
  | address (ip : IpAddr v6) : HostPort v6 ip.print
  | name (host : List Char) (dns : DnsName host) : HostPort v6 (host.map Char.toLower)

theorem parseHostPort_ok {text host : List Char} {port : Nat}
    (h : parseHostPort v6 debug text false = .ok (host, port)) :
    HostPort v6 host ∧ 0 < port ∧ port < 2 ^ 16 := by
  unfold parseHostPort at h
  split at h
  next => cases h
  next =>
    split at h
    next ip found hsocket =>
      split at h
      next => cases h
      next hzero =>
        cases h
        refine ⟨.address ip, Nat.pos_of_ne_zero fun heq => hzero ⟨rfl, heq⟩, ?_⟩
        exact SocketAddr.parse_port_lt hsocket
    next =>
      split at h
      next => cases h
      next =>
        dsimp only at h
        split at h
        next => cases h
        next hvalid =>
          split at h
          next => cases h
          next found hnumber =>
            split at h
            next => cases h
            next hzero =>
              cases h
              have hdns := validDnsName_iff.mp (by simpa using hvalid)
              exact ⟨.name _ hdns, Nat.pos_of_ne_zero fun heq => hzero ⟨rfl, heq⟩,
                parseU16_lt hnumber⟩

/-- What passes the last check has a canonical host. -/
theorem HostPort.canonical {host : List Char} {port : Nat} {canonical : String}
    (h : HostPort v6 host) (hok : canonicalizeHostPort v6 host port = .ok canonical) :
    CanonicalHost v6 host ∧ canonical = String.ofList (formatEndpoint host port) := by
  unfold canonicalizeHostPort at hok
  split at hok
  next => cases hok
  next =>
    split at hok
    next ip hparse =>
      split at hok
      next => cases hok
      next hdialable =>
        cases hok
        have hprint : ip.print = host := by
          cases h with
          | address other =>
            cases (IpAddr.parse_print other).symm.trans hparse
            rfl
          | name name dns =>
            rw [ipAddrParse_of_no_colon dns.toLower.no_colon, Option.map_eq_some_iff] at hparse
            obtain ⟨found, hfound, rfl⟩ := hparse
            exact Ipv4.parse_eq_some_iff.mp hfound
        rw [SocketAddr.print_eq_formatEndpoint, hprint]
        exact ⟨hprint ▸ .address ip (by simpa using hdialable), rfl⟩
    next hparse =>
      cases hok
      cases h with
      | address ip =>
        rw [IpAddr.parse_print] at hparse
        cases hparse
      | name name dns =>
        have hlower : (name.map Char.toLower).map Char.toLower = name.map Char.toLower := by
          rw [List.map_map]
          exact List.map_congr_left fun c _ => Char.toLower_toLower_eq_toLower c
        rw [ipAddrParse_of_no_colon dns.toLower.no_colon, Option.map_eq_none_iff] at hparse
        rw [hlower, formatEndpoint, if_neg dns.toLower.no_colon]
        exact ⟨.name _ dns.toLower hlower hparse, rfl⟩

theorem canonicalizeEndpoint_ok {endpoint canonical : String}
    (h : canonicalizeEndpoint v6 debug endpoint = .ok canonical) :
    ∃ host port, CanonicalHost v6 host ∧ 0 < port ∧ port < 2 ^ 16 ∧
      canonical = String.ofList (formatEndpoint host port) := by
  unfold canonicalizeEndpoint at h
  split at h
  next => cases h
  next host port hparse =>
    obtain ⟨hhost, hpos, hport⟩ := parseHostPort_ok hparse
    obtain ⟨hcanonical, heq⟩ := hhost.canonical h
    exact ⟨host, port, hcanonical, hpos, hport, heq⟩

/-- The coordinator's canonical form is its own canonical form, and can be dialed. -/
theorem canonicalizeEndpoint_stable {endpoint canonical : String}
    (h : canonicalizeEndpoint v6 debug endpoint = .ok canonical) :
    canonicalizeEndpoint v6 debug canonical = .ok canonical ∧
      ∃ host port, parseHostPort v6 debug canonical.toList false = .ok (host, port) ∧
        canonical = String.ofList (formatEndpoint host port) ∧ 1 ≤ port ∧ port ≤ 65535 ∧
        ∀ ip, IpAddr.parse v6 host = some ip → ip.undialable = false := by
  obtain ⟨host, port, hhost, hpos, hport, rfl⟩ := canonicalizeEndpoint_ok h
  refine ⟨canonicalizeEndpoint_canonical hpos hport hhost, host, port, ?_, rfl, hpos, by omega,
    fun ip => hhost.dialable⟩
  rw [String.toList_ofList]
  exact parseHostPort_formatEndpoint hpos hport hhost

theorem canonicalizeEndpoint_stable_name :
    canonicalizeEndpoint loopbackV6 String.ofList "Peer.Example.:09000" = .ok "peer.example:9000" ∧
      canonicalizeEndpoint loopbackV6 String.ofList "peer.example:9000" =
        .ok "peer.example:9000" := by
  have hok : canonicalizeEndpoint loopbackV6 String.ofList "Peer.Example.:09000" =
      .ok "peer.example:9000" := by decide +kernel
  exact ⟨hok, (canonicalizeEndpoint_stable hok).1⟩

end Coordinator

/-! ## The bootstrap exchange -/

/-- Unless the host is a disguised one, the canonical host is one for the coordinator too. -/
theorem canonicalHost_canonical {host canonical : List Char}
    (h : canonicalHost v6 host = .ok canonical) (hplain : disguisedHost host = false) :
    CanonicalHost v6 canonical := by
  have hagain := canonicalHost_again h
  rw [hplain, if_neg Bool.false_ne_true] at hagain
  unfold canonicalHost at h
  split at h
  next ip _ =>
    split at h
    next => cases h
    next hdialable =>
      cases h
      exact .address ip (by simpa using hdialable)
  next =>
    split at h
    next => cases h
    next hvalid =>
      cases h
      have hlower := (validDnsName_iff.mp (by simpa using hvalid)).toLower
      cases hip : Ipv4.parse ((stripDot host).map Char.toLower) with
      | none =>
        refine .name _ hlower ?_ hip
        rw [List.map_map]
        exact List.map_congr_left fun c _ => Char.toLower_toLower_eq_toLower c
      | some ip =>
        -- it became an address by losing its dot, and was accepted as one
        have hparse := @ipAddrParse_of_no_colon v6 _ hlower.no_colon
        rw [hip, Option.map_some] at hparse
        rw [canonicalHost, hparse] at hagain
        dsimp only at hagain
        split at hagain
        next => cases hagain
        next hdialable =>
          have hprint := Except.ok.inj hagain
          exact hprint ▸ .address (.v4 ip) (by simpa using hdialable)

/-- **Advertised endpoints**: the canonical form is stable, accepted by the coordinator as it
is, and no unspecified, multicast, broadcast or link-local address, exactly if the endpoint
is neither a disguised one nor that of an IPv4 link-local address. -/
theorem advertisedEndpoint_stable_iff {endpoint canonical : String}
    (h : canonicalizeAdvertisedEndpoint v6 endpoint = .ok canonical) :
    (canonicalizeAdvertisedEndpoint v6 canonical = .ok canonical ∧
      Coordinator.canonicalizeEndpoint v6 debug canonical = .ok canonical ∧
      ∀ host port ip, splitEndpoint canonical.toList = .ok (host, port) →
        IpAddr.parse v6 host = some ip → ip.undialable = false ∧ ip.isLinkLocal = false) ↔
      disguised endpoint = false ∧ linkLocalV4 endpoint = false := by
  have hagain := canonicalize_again h
  obtain ⟨host, port, canonical', hsplit, hzero, hhost, rfl⟩ := canonicalize_ok h
  have hport := splitEndpoint_port_lt hsplit
  have hlocal : linkLocalV4 endpoint = (Ipv4.parse canonical').any Ipv4.isLinkLocal := by
    rw [linkLocalV4, hsplit, ipv4Parse_canonicalHost hhost]
  have hread : splitEndpoint (String.ofList (formatEndpoint canonical' port)).toList =
      .ok (canonical', port) := by
    rw [String.toList_ofList, splitEndpoint_formatEndpoint (canonicalHost_hostText hhost) hport]
  rw [hlocal]
  constructor
  · rintro ⟨hstable, -, hip⟩
    constructor
    · by_contra hdisguised
      rw [Bool.not_eq_false] at hdisguised
      rw [hdisguised, if_pos rfl, hstable] at hagain
      cases hagain
    · by_contra hany
      rw [Bool.not_eq_false, Option.any_eq_true] at hany
      obtain ⟨ip, hparse, hlink⟩ := hany
      have hv4 : IpAddr.parse v6 canonical' = some (.v4 ip) := by rw [IpAddr.parse, hparse]
      have hnot : ip.isLinkLocal = false := (hip canonical' port (.v4 ip) hread hv4).2
      rw [hlink] at hnot
      cases hnot
  · rintro ⟨hplain, hnot⟩
    rw [hplain, if_neg Bool.false_ne_true] at hagain
    have hcanonical := canonicalHost_canonical hhost (by rwa [disguised, hsplit] at hplain)
    refine ⟨hagain, ?_, ?_⟩
    · exact Coordinator.canonicalizeEndpoint_canonical (Nat.pos_of_ne_zero hzero) hport hcanonical
    · intro found number ip hfound hip
      cases hread.symm.trans hfound
      have hdialable := hcanonical.dialable hip
      refine ⟨hdialable, ?_⟩
      cases ip with
      | v4 ip =>
        cases hv4 : Ipv4.parse canonical' with
        | none =>
          rw [IpAddr.parse, hv4] at hip
          obtain ⟨_, -, hother⟩ := Option.map_eq_some_iff.mp hip
          cases hother
        | some other =>
          rw [IpAddr.parse, hv4] at hip
          cases hip
          rw [hv4] at hnot
          exact hnot
      | v6 ip =>
        -- the source refuses these itself
        rw [IpAddr.undialable, Bool.or_eq_false_iff] at hdialable
        exact hdialable.2

theorem advertisedEndpoint_stable_name :
    canonicalizeAdvertisedEndpoint loopbackV6 "Peer.Example.:9000" = .ok "peer.example:9000" ∧
      canonicalizeAdvertisedEndpoint loopbackV6 "peer.example:9000" = .ok "peer.example:9000" ∧
      Coordinator.canonicalizeEndpoint loopbackV6 String.ofList "peer.example:9000" =
        .ok "peer.example:9000" := by
  have hok : canonicalizeAdvertisedEndpoint loopbackV6 "Peer.Example.:9000" =
      .ok "peer.example:9000" := by decide +kernel
  have hstable := (@advertisedEndpoint_stable_iff loopbackV6 String.ofList _ _ hok).mpr
    (by decide +kernel)
  exact ⟨hok, hstable.1, hstable.2.1⟩

/-- The unspecified address with a dot at its end is accepted, and what becomes of it is
refused by both. A link-local IPv4 address is accepted as it is. -/
theorem unspecifiedName_not_stable :
    (canonicalizeAdvertisedEndpoint loopbackV6 "0.0.0.0.:9000" = .ok "0.0.0.0:9000" ∧
      canonicalizeAdvertisedEndpoint loopbackV6 "0.0.0.0:9000" ≠ .ok "0.0.0.0:9000" ∧
      Coordinator.canonicalizeEndpoint loopbackV6 String.ofList "0.0.0.0:9000" ≠
        .ok "0.0.0.0:9000") ∧
    canonicalizeAdvertisedEndpoint loopbackV6 "169.254.0.1:9000" = .ok "169.254.0.1:9000" := by
  refine ⟨⟨?_, ?_, ?_⟩, ?_⟩ <;> decide +kernel

end Numax
