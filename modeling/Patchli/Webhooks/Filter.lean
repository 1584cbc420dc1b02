import Patchli.Foundation.Url

/-!
# The filter of webhook URLs

`isValidURL` refuses URLs whose host is an internal address. It misses an IPv6 literal
without a port, whose brackets stay, and one with a zone.
-/

namespace Patchli.Webhooks

open GoString NetIP

/-- `ip.IsLinkLocalMulticast()`, whatever the flags of an IPv6 address. -/
def isLinkLocalMulticast (a : Addr) : Bool :=
  Prefix.contains ⟨v4 224 0 0 0, 24⟩ a ||
    (List.range 16).any fun flags => Prefix.contains ⟨v6 [0xff02 + 16 * flags], 16⟩ a

/-- The checks of a host. -/
def allowedHost (host : GoString) : Bool :=
  -- Block loopback addresses to prevent SSRF
  if host = ascii "localhost" ∨ host = ascii "127.0.0.1" ∨ host = ascii "::1" then false
  else
    -- Block private/link-local IP ranges to prevent SSRF
    match parseIP host with
    | some ip =>
      !(ip.isLoopback || ip.isPrivate || ip.isLinkLocalUnicast || isLinkLocalMulticast ip)
    | none => true

def isValidURL (u : GoString) : Bool :=
  match Url.parse u with
  | none => false
  | some p =>
    if p.scheme ≠ ascii "http" ∧ p.scheme ≠ ascii "https" then false
    else
      match splitHostPort p.host with
      | some (host, _) => allowedHost host
      | none => allowedHost p.host

/-! ### Literals in URLs -/

/-- Loopback, private and link-local networks. -/
def internalNetworks : List Prefix :=
  [⟨v4 127 0 0 0, 8⟩, ⟨v4 10 0 0 0, 8⟩, ⟨v4 172 16 0 0, 12⟩, ⟨v4 192 168 0 0, 16⟩,
    ⟨v4 169 254 0 0, 16⟩, ⟨v4 224 0 0 0, 24⟩, ⟨v6 [0, 0, 0, 0, 0, 0, 0, 1], 128⟩,
    ⟨v6 [0xfc00], 7⟩, ⟨v6 [0xfe80], 10⟩, ⟨v6 [0xff02], 16⟩]

/-- An IPv4-mapped address is internal if the IPv4 address is. -/
def Internal (a : Addr) : Prop := ∃ p ∈ internalNetworks, p.contains a.unmap = true

/-- An address as it stands in the host of a URL. -/
inductive Literal
  | ip4 (text : GoString)
  | ip6 (text : GoString) (zone : Option GoString)

def Literal.text : Literal → GoString
  | .ip4 t => t
  | .ip6 t zone => ascii "[" ++ (t ++ zone.elim [] (ascii "%25" ++ ·)) ++ ascii "]"

/-- The text of a literal is one of the address. A zone has no delimiters. -/
def Literal.Denotes : Literal → Addr → Prop
  | .ip4 t, a => a.is6 = false ∧ parseAddr t = some (a, [])
  | .ip6 t zone, a => a.is6 = true ∧ parseAddr t = some (a, []) ∧
      ∀ z ∈ zone, ∀ b ∈ z, b ∉ ascii "/?#[]@"

/-- A web address whose host is a literal. -/
structure LiteralURL where
  scheme : GoString
  userinfo : Option GoString
  literal : Literal
  addr : Addr
  port : Option GoString
  /-- Path, query and fragment. -/
  tail : GoString
  web : scheme.map lowerByte = ascii "http" ∨ scheme.map lowerByte = ascii "https"
  user_bytes : ∀ s ∈ userinfo, ∀ b ∈ s, b ∉ ascii "/?#"
  denotes : literal.Denotes addr
  port_digits : ∀ s ∈ port, ∀ b ∈ s, Decimal.isDigit b = true
  tail_head : ∀ b ∈ tail.head?, b ∈ ascii "/?#"

namespace LiteralURL

def userinfoText (w : LiteralURL) : GoString :=
  match w.userinfo with
  | none => []
  | some s => s ++ ascii "@"

/-- Literal and port. -/
def hostText (w : LiteralURL) : GoString := w.literal.text ++ Url.colonPort w.port

def text (w : LiteralURL) : GoString :=
  w.scheme ++ ascii "://" ++ (w.userinfoText ++ w.hostText) ++ w.tail

/-- An IPv4 literal, or an IPv6 literal without a zone in front of a port. -/
def Seen (w : LiteralURL) : Prop :=
  match w.literal with
  | .ip4 _ => True
  | .ip6 _ zone => zone = none ∧ w.port ≠ none

end LiteralURL

/-! ### What the filter sees -/

theorem contains_full {x y : BitVec 128} (h : Prefix.contains ⟨.ip6 x, 128⟩ (.ip6 y) = true) :
    x = y := by
  simpa [Prefix.contains] using h

theorem refused_of_internal {a : Addr} (h : Internal a) :
    (a.unmap.isLoopback || a.unmap.isPrivate || a.unmap.isLinkLocalUnicast ||
      isLinkLocalMulticast a.unmap) = true := by
  obtain ⟨p, hp, hcontains⟩ := h
  generalize a.unmap = b at hcontains ⊢
  simp only [internalNetworks, List.mem_cons, List.not_mem_nil, or_false] at hp
  rcases hp with rfl | rfl | rfl | rfl | rfl | rfl | rfl | rfl | rfl | rfl
  · simp [Addr.isLoopback, hcontains]
  · simp [Addr.isPrivate, hcontains]
  · simp [Addr.isPrivate, hcontains]
  · simp [Addr.isPrivate, hcontains]
  · simp [Addr.isLinkLocalUnicast, hcontains]
  · simp [isLinkLocalMulticast, hcontains]
  · cases b with
    | ip4 x => cases hcontains
    | ip6 x =>
      rw [← contains_full hcontains]
      rfl
  · simp [Addr.isPrivate, hcontains]
  · simp [Addr.isLinkLocalUnicast, hcontains]
  · have hflags : ∃ flags ∈ List.range 16,
        Prefix.contains ⟨v6 [0xff02 + 16 * flags], 16⟩ b = true :=
      ⟨0, by decide, hcontains⟩
    simp [isLinkLocalMulticast, List.any_eq_true.mpr hflags]

theorem allowedHost_addr {t : GoString} {a : Addr} (ht : parseAddr t = some (a, []))
    (ha : Internal a) : allowedHost t = false := by
  have hparse : parseIP t = some a.unmap := by simp [parseIP, ht]
  unfold allowedHost
  split_ifs
  · rfl
  · rw [hparse]
    simp only [refused_of_internal ha, Bool.not_true]

/-- A bracket or a percent sign makes a host a name. -/
theorem allowedHost_of_mem {host : GoString} {b : UInt8} (hb : b ∈ host)
    (hspecial : b = 0x5B ∨ b = 0x25) : allowedHost host = true := by
  have hno : isAddrByte b = false ∧ b ∉ ascii "localhost" ∧ b ∉ ascii "127.0.0.1" ∧
      b ∉ ascii "::1" := by
    rcases hspecial with rfl | rfl <;> decide
  have hparse : parseIP host = none := by
    cases hip : parseIP host with
    | none => rfl
    | some a =>
      have hbyte := parseIP_bytes hip b hb
      rw [hno.1] at hbyte
      cases hbyte
  have hnames : ¬(host = ascii "localhost" ∨ host = ascii "127.0.0.1" ∨ host = ascii "::1") := by
    rintro (rfl | rfl | rfl)
    · exact hno.2.1 hb
    · exact hno.2.2.1 hb
    · exact hno.2.2.2 hb
  unfold allowedHost
  rw [if_neg hnames, hparse]

/-- The host that the filter looks at. -/
def filteredHost (host : GoString) : GoString :=
  match splitHostPort host with
  | some (host, _) => host
  | none => host

theorem isValidURL_eq {u : GoString} {p : Url.URL} (hparse : Url.parse u = some p)
    (hscheme : p.scheme = ascii "http" ∨ p.scheme = ascii "https") :
    isValidURL u = allowedHost (filteredHost p.host) := by
  have hweb : ¬(p.scheme ≠ ascii "http" ∧ p.scheme ≠ ascii "https") := by tauto
  simp only [isValidURL, filteredHost, hparse, if_neg hweb]
  cases splitHostPort p.host <;> rfl

section

variable {t z : GoString} {a : Addr} {port : Option GoString}

theorem digits_special (hport : ∀ s ∈ port, ∀ b ∈ s, Decimal.isDigit b = true) :
    ∀ s ∈ port, ∀ b ∈ ascii ":[]", b ∉ s := by
  intro s hs b hb hmem
  have hdigit := hport s hs b hmem
  simp only [ascii] at hb
  simp at hb
  rcases hb with rfl | rfl | rfl <;> exact absurd hdigit (by decide)

theorem filteredHost_ip4 (h : IPv4Text t a)
    (hport : ∀ s ∈ port, ∀ b ∈ s, Decimal.isDigit b = true) :
    filteredHost (t ++ Url.colonPort port) = t := by
  unfold filteredHost
  cases port with
  | none => rw [Url.colonPort, List.append_nil, splitHostPort_of_not_mem h.not_mem_colon]
  | some s => rw [Url.colonPort, splitHostPort_plain h.not_mem_special (digits_special hport s rfl)]

theorem filteredHost_ip6 (h : IPv6Text t a) {s : GoString}
    (hs : ∀ b ∈ s, Decimal.isDigit b = true) :
    filteredHost (ascii "[" ++ t ++ ascii "]" ++ Url.colonPort (some s)) = t := by
  have hsome : ∀ s' ∈ some s, ∀ b ∈ s', Decimal.isDigit b = true := by simpa using hs
  have hport := digits_special hsome s rfl
  unfold filteredHost
  rw [Url.colonPort, splitHostPort_bracket h.not_mem_special hport]

theorem append_inj_of_not_mem {c : UInt8} {s t u v : GoString} (ht : c ∉ t)
    (h : t ++ u = s ++ c :: v) : ∃ w, s = t ++ w ∧ u = w ++ c :: v := by
  rcases List.append_eq_append_iff.mp h with ⟨w, hs, hu⟩ | ⟨w, ht', hu⟩
  · exact ⟨w, hs, hu⟩
  · cases w with
    | nil => exact ⟨[], by simpa using ht'.symm, by simpa using hu.symm⟩
    | cons b w =>
      rw [ht', (List.cons.inj hu).1] at ht
      exact absurd (by simp) ht

theorem filteredHost_portless (h : IPv6Text t a) :
    0x5B ∈ filteredHost (ascii "[" ++ t ++ ascii "]") := by
  have hno : splitHostPort (ascii "[" ++ t ++ ascii "]") = none := by
    cases hsplit : splitHostPort (ascii "[" ++ t ++ ascii "]") with
    | none => rfl
    | some pair =>
      obtain ⟨w, -, hw⟩ := append_inj_of_not_mem (h.not_mem_special 0x5D (by decide))
        (eq_of_splitHostPort_bracket hsplit)
      cases w with
      | nil => cases hw
      | cons b w =>
        have hlength := congrArg List.length hw
        simp [ascii] at hlength
  unfold filteredHost
  rw [hno]
  exact List.mem_cons_self

/-- A zone stays, and so does everything if the port cannot be told apart. -/
theorem filteredHost_zone (h : IPv6Text t a) (port : GoString) :
    ∃ b ∈ filteredHost (ascii "[" ++ (t ++ 0x25 :: z) ++ ascii "]" ++ port),
      b = 0x5B ∨ b = 0x25 := by
  have heq : ascii "[" ++ (t ++ 0x25 :: z) ++ ascii "]" ++ port =
      0x5B :: (t ++ 0x25 :: (z ++ ascii "]" ++ port)) := by
    simp [ascii]
  rw [heq]
  unfold filteredHost
  split
  · rename_i inner port' hsplit
    obtain ⟨w, rfl, hw⟩ := append_inj_of_not_mem (h.not_mem_special 0x5D (by decide))
      (eq_of_splitHostPort_bracket hsplit)
    cases w with
    | nil => cases hw
    | cons b w =>
      rw [← (List.cons.inj hw).1]
      exact ⟨0x25, by simp, Or.inr rfl⟩
  · exact ⟨0x5B, List.mem_cons_self, Or.inl rfl⟩

end

/-! ### Internal addresses -/

namespace LiteralURL

variable {w : LiteralURL} {p : Url.URL}

theorem scheme_letters (w : LiteralURL) :
    w.scheme ≠ [] ∧ ∀ b ∈ w.scheme, Url.isLetter b = true := by
  have hletter {b : UInt8} : lowerByte b ∈ ascii "https" → Url.isLetter b = true := by
    revert b
    apply forall_byte
    decide +kernel
  have hweb : w.scheme.map lowerByte ≠ [] ∧ ∀ b ∈ w.scheme, lowerByte b ∈ ascii "https" := by
    rcases w.web with h | h
    · rw [h]
      refine ⟨by decide, fun b hb => ?_⟩
      have hmem := List.mem_map_of_mem (f := lowerByte) hb
      rw [h] at hmem
      exact List.mem_append_left (ascii "s") hmem
    · rw [h]
      refine ⟨by decide, fun b hb => ?_⟩
      rw [← h]
      exact List.mem_map_of_mem hb
  refine ⟨?_, fun b hb => hletter (hweb.2 b hb)⟩
  intro hnil
  exact hweb.1 (by rw [hnil, List.map_nil])

theorem toLower_scheme (w : LiteralURL) :
    toLower w.scheme = ascii "http" ∨ toLower w.scheme = ascii "https" := by
  rw [toLower_eq_iff (by decide +kernel), toLower_eq_iff (by decide +kernel)]
  exact w.web

theorem bracketed_bytes {t : GoString} {a : Addr} {zone : Option GoString}
    (h : IPv6Text t a) (hzone : ∀ z ∈ zone, ∀ b ∈ z, b ∉ ascii "/?#[]@") :
    ∀ b ∈ t ++ zone.elim [] (ascii "%25" ++ ·), b ∉ ascii "/?#[]@" := by
  have hescape : ∀ b ∈ ascii "%25", b ∉ ascii "/?#[]@" := by decide +kernel
  intro b hb
  rcases List.mem_append.mp hb with hb | hb
  · exact (Url.plain_of_isAddrByte (h.bytes b hb)).2.2
  · cases zone with
    | none => cases hb
    | some z =>
      rcases List.mem_append.mp hb with hb | hb
      · exact hescape b hb
      · exact hzone z rfl b hb

theorem literal_cases (w : LiteralURL) :
    (∃ t, w.literal = .ip4 t ∧ IPv4Text t w.addr ∧ w.hostText = t ++ Url.colonPort w.port) ∨
      ∃ t zone, w.literal = .ip6 t zone ∧ IPv6Text t w.addr ∧
        (∀ b ∈ t ++ zone.elim [] (ascii "%25" ++ ·), b ∉ ascii "/?#[]@") ∧
        w.hostText = ascii "[" ++ (t ++ zone.elim [] (ascii "%25" ++ ·)) ++ ascii "]" ++
          Url.colonPort w.port := by
  have hdenotes := w.denotes
  unfold hostText
  generalize w.literal = literal at hdenotes ⊢
  cases literal with
  | ip4 t => exact Or.inl ⟨t, rfl, ip4Text_of_parseAddr hdenotes.2 hdenotes.1, rfl⟩
  | ip6 t zone =>
    have h6 := ip6Text_of_parseAddr hdenotes.2.1 hdenotes.1
    exact Or.inr ⟨t, zone, rfl, h6, bracketed_bytes h6 hdenotes.2.2, rfl⟩

theorem hostText_bytes (w : LiteralURL) : ∀ b ∈ w.hostText, b ∉ ascii "/?#@" := by
  have hfew : ascii "/?#@" ⊆ ascii "/?#[]@" := by decide
  have haddr {b : UInt8} (hb : isAddrByte b = true) : b ∉ ascii "/?#@" :=
    fun hmem => (Url.plain_of_isAddrByte hb).2.2 (hfew hmem)
  have hport : ∀ b ∈ Url.colonPort w.port, b ∉ ascii "/?#@" :=
    fun b hb => haddr (Url.colonPort_bytes w.port_digits b hb)
  have hbrackets : ∀ b ∈ ascii "[" ++ ascii "]", b ∉ ascii "/?#@" := by decide +kernel
  intro b hb
  rcases w.literal_cases with ⟨t, -, h4, htext⟩ | ⟨t, zone, -, -, hbytes, htext⟩
  · rw [htext] at hb
    rcases List.mem_append.mp hb with hb | hb
    · rcases h4.bytes b hb with hd | rfl
      · exact haddr (isAddrByte_of_digit hd)
      · decide
    · exact hport b hb
  · rw [htext] at hb
    simp only [List.append_assoc, List.mem_append] at hb
    rcases hb with hb | hb | hb | hb | hb
    · exact hbrackets b (List.mem_append_left _ hb)
    · exact fun hmem => hbytes b (List.mem_append_left _ hb) (hfew hmem)
    · exact fun hmem => hbytes b (List.mem_append_right _ hb) (hfew hmem)
    · exact hbrackets b (List.mem_append_right _ hb)
    · exact hport b hb

theorem scheme_of_parse (hparse : Url.parse w.text = some p) :
    (p.scheme = ascii "http" ∨ p.scheme = ascii "https") ∧
      Url.parseHost w.hostText = some p.host := by
  obtain ⟨hne, hletters⟩ := w.scheme_letters
  have hdelimiters : ascii "/?#" ⊆ ascii "/?#@" := by decide
  have hauthority : ∀ b ∈ w.userinfoText ++ w.hostText, b ∉ ascii "/?#" := by
    intro b hb
    rcases List.mem_append.mp hb with hb | hb
    · unfold userinfoText at hb
      split at hb
      · cases hb
      · rename_i s hs
        rcases List.mem_append.mp hb with hb | hb
        · exact w.user_bytes s hs b hb
        · have hat : b = 0x40 := by simpa [ascii] using hb
          rw [hat]
          decide
    · exact fun hmem => w.hostText_bytes b hb (hdelimiters hmem)
  have hat : 0x40 ∉ w.hostText := fun hmem => w.hostText_bytes _ hmem (by decide)
  obtain ⟨hscheme, hhost⟩ := Url.parse_authority hne hletters hauthority w.tail_head hparse
  refine ⟨hscheme ▸ w.toLower_scheme, ?_⟩
  unfold userinfoText at hhost
  split at hhost
  · rwa [List.nil_append, Url.parseAuthority_host hat] at hhost
  · rw [List.append_assoc] at hhost
    exact Url.parseAuthority_userinfo hat hhost

theorem host_cases (hparse : Url.parse w.text = some p) :
    (∃ t, w.literal = .ip4 t ∧ IPv4Text t w.addr ∧ p.host = t ++ Url.colonPort w.port) ∨
      (∃ t, w.literal = .ip6 t none ∧ IPv6Text t w.addr ∧
        p.host = ascii "[" ++ t ++ ascii "]" ++ Url.colonPort w.port) ∨
      ∃ t z z', w.literal = .ip6 t (some z) ∧ IPv6Text t w.addr ∧
        p.host = ascii "[" ++ (t ++ 0x25 :: z') ++ ascii "]" ++ Url.colonPort w.port := by
  have hhost := (scheme_of_parse hparse).2
  rcases w.literal_cases with ⟨t, hliteral, h4, htext⟩ | ⟨t, zone, hliteral, h6, hbytes, htext⟩
  · rw [htext, Url.parseHost_ip4 h4 w.port_digits, Option.some.injEq] at hhost
    exact Or.inl ⟨t, hliteral, h4, hhost.symm⟩
  · rw [htext, Url.parseHost_bracket hbytes w.port_digits] at hhost
    obtain ⟨s, hs, heq⟩ := Option.map_eq_some_iff.mp hhost
    cases zone with
    | none =>
      rw [Option.elim_none, List.append_nil, Url.parseLiteral_ip6 h6, Option.some.injEq] at hs
      subst hs
      exact Or.inr (Or.inl ⟨t, hliteral, h6, heq.symm⟩)
    | some z =>
      obtain ⟨z', rfl⟩ := Url.parseLiteral_zone h6 hs
      exact Or.inr (Or.inr ⟨t, z, z', hliteral, h6, heq.symm⟩)

end LiteralURL

/-- Internal literals in the URLs that `url.Parse` accepts are refused as far as the filter
sees them. -/
theorem internal_refused_iff (w : LiteralURL) (hinternal : Internal w.addr) :
    isValidURL w.text = false ↔ ((Url.parse w.text).isSome → w.Seen) := by
  cases hp : Url.parse w.text with
  | none => simp [isValidURL, hp]
  | some p =>
    have haddr {t : GoString} (ht : parseAddr t = some (w.addr, [])) : allowedHost t = false :=
      allowedHost_addr ht hinternal
    simp only [isValidURL_eq hp (LiteralURL.scheme_of_parse hp).1, Option.isSome_some, true_imp_iff]
    rcases LiteralURL.host_cases hp with ⟨t, hliteral, h4, hhost⟩ | ⟨t, hliteral, h6, hhost⟩ |
      ⟨t, z, z', hliteral, h6, hhost⟩
    · rw [hhost, filteredHost_ip4 h4 w.port_digits, haddr h4.parseAddr]
      simp [LiteralURL.Seen, hliteral]
    · cases hport : w.port with
      | none =>
        rw [hhost, hport, Url.colonPort, List.append_nil,
          allowedHost_of_mem (filteredHost_portless h6) (Or.inl rfl)]
        simp [LiteralURL.Seen, hliteral, hport]
      | some s =>
        rw [hhost, hport, filteredHost_ip6 h6 (w.port_digits s hport), haddr h6.parseAddr]
        simp [LiteralURL.Seen, hliteral, hport]
    · obtain ⟨b, hb, hspecial⟩ := filteredHost_zone (z := z') h6 (Url.colonPort w.port)
      rw [hhost, allowedHost_of_mem hb hspecial]
      simp [LiteralURL.Seen, hliteral]

/-- `http://10.0.0.1:8080/` -/
def portedURL : LiteralURL where
  scheme := ascii "http"
  userinfo := none
  literal := .ip4 (ascii "10.0.0.1")
  addr := v4 10 0 0 1
  port := some (ascii "8080")
  tail := ascii "/"
  web := Or.inl (by decide)
  user_bytes := nofun
  denotes := ⟨rfl, by decide +kernel⟩
  port_digits := by decide +kernel
  tail_head := by decide +kernel

theorem internal_refused_ported : isValidURL portedURL.text = false :=
  (internal_refused_iff portedURL ⟨⟨v4 10 0 0 0, 8⟩, by decide, by decide⟩).mpr fun _ => trivial

/-- `http://[::1]/` -/
def loopbackURL : LiteralURL where
  scheme := ascii "http"
  userinfo := none
  literal := .ip6 (ascii "::1") none
  addr := v6 [0, 0, 0, 0, 0, 0, 0, 1]
  port := none
  tail := ascii "/"
  web := Or.inl (by decide)
  user_bytes := nofun
  denotes := ⟨rfl, by decide +kernel, nofun⟩
  port_digits := nofun
  tail_head := by decide +kernel

/-- The filter lets the loopback address pass. -/
theorem not_internal_refused :
    ¬∀ w : LiteralURL, Internal w.addr → isValidURL w.text = false := by
  intro h
  have hinternal : Internal loopbackURL.addr :=
    ⟨⟨v6 [0, 0, 0, 0, 0, 0, 0, 1], 128⟩, by decide, by decide⟩
  have haccepted : isValidURL loopbackURL.text = true := by decide +kernel
  rw [h loopbackURL hinternal] at haccepted
  cases haccepted

end Patchli.Webhooks
