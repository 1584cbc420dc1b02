import Patchli.Foundation.IPText

/-!
# URLs

`url.Parse` as far as scheme and host. What the other parts of a URL contain only decides
whether the text is one.
-/

namespace Patchli.Url

open Decimal GoString NetIP

structure URL where
  scheme : GoString
  host : GoString

/-! ### Escapes -/

/-- Where a text stands, as far as its escapes depend on it. -/
inductive Mode
  | host
  | zone
  /-- User information, path and fragment. -/
  | other
  deriving DecidableEq

def isLetter (b : UInt8) : Bool := (0x61 ≤ b && b ≤ 0x7A) || (0x41 ≤ b && b ≤ 0x5A)

/-- ASCII bytes that stand for themselves in a host. -/
def isHostByte (b : UInt8) : Bool :=
  isLetter b || isDigit b || (ascii "!$&'()*+,;=:[]<>\"-_.~").contains b

/-- A host escapes bytes outside ASCII only, and `%` before a zone. -/
def Mode.escapes : Mode → UInt8 → Bool
  | .host, b => 0x80 ≤ b || b = 0x25
  | .zone, b => isHostByte b || b = 0x25 || b = 0x20
  | .other, _ => true

def Mode.plain : Mode → UInt8 → Bool
  | .other, _ => true
  | _, b => 0x80 ≤ b || isHostByte b

def unescape (mode : Mode) : GoString → Option GoString
  | [] => some []
  | b :: s =>
    if b = 0x25 then
      match s with
      | hi :: lo :: s =>
        let c := (16 * unhex hi + unhex lo).toUInt8
        if isHex hi && isHex lo && mode.escapes c then (unescape mode s).map (c :: ·) else none
      | _ => none
    else if mode.plain b then (unescape mode s).map (b :: ·)
    else none

/-! ### The authority -/

/-- Nothing, or a colon and digits. -/
def validOptionalPort : GoString → Bool
  | [] => true
  | b :: port => b = 0x3A && port.all isDigit

/-- Cut a literal at its first `%25`. -/
def cutZone : GoString → GoString × GoString
  | [] => ([], [])
  | b :: s =>
    if ascii "%25" <+: b :: s then ([], b :: s)
    else
      let (address, zone) := cutZone s
      (b :: address, zone)

/-- What stands between brackets is an IPv6 address. -/
def parseLiteral (literal : GoString) : Option GoString := do
  let (address, zone) := cutZone literal
  let address ← unescape .host address
  let zone ← unescape .zone zone
  let (addr, _) ← parseAddr (address ++ zone)
  if addr.is6 then some (address ++ zone) else none

/-- The host of an http or https URL. -/
def parseHost (host : GoString) : Option GoString :=
  if host.head? = some 0x5B then
    match cutLast 0x5D host.tail with
    | none => none
    | some (literal, port) =>
      if 0x5B ∈ host.tail ∨ !validOptionalPort port then none
      else (parseLiteral literal).map fun literal => ascii "[" ++ literal ++ ascii "]" ++ port
  else if 0x5B ∈ host ∨ !validOptionalPort (host.dropWhile (· ≠ 0x3A)) then none
  else unescape .host host

def validUserinfo (s : GoString) : Bool :=
  s.all fun b => isLetter b || isDigit b || (ascii "-._:~!$&'()*+,;=%@").contains b

def parseAuthority (authority : GoString) : Option GoString :=
  match cutLast 0x40 authority with
  | none => parseHost authority
  | some (userinfo, host) =>
    if validUserinfo userinfo ∧ (unescape .other userinfo).isSome then parseHost host else none

/-! ### The whole text -/

def isControl (b : UInt8) : Bool := b < 0x20 || b = 0x7F

def isSchemeByte (b : UInt8) : Bool :=
  isLetter b || isDigit b || b = 0x2B || b = 0x2D || b = 0x2E

/-- The scheme, which may be empty, and the rest of the text. -/
def getScheme (rawURL : GoString) : Option (GoString × GoString) :=
  match rawURL.takeWhile isSchemeByte, rawURL.dropWhile isSchemeByte with
  | scheme, c :: rest =>
    if c ≠ 0x3A then some ([], rawURL)
    else if scheme = [] then none
    else if (scheme.head?.map isLetter).getD false then some (scheme, rest)
    else some ([], rawURL)
  | _, [] => some ([], rawURL)

/-- The text behind the scheme, without the query. -/
def parseHierarchy (scheme rest : GoString) : Option URL :=
  if rest.head? ≠ some 0x2F ∧ scheme ≠ [] then some ⟨scheme, []⟩
  else if rest.head? ≠ some 0x2F ∧ 0x3A ∈ rest.takeWhile (· ≠ 0x2F) then none
  else if ascii "//" <+: rest ∧ (scheme ≠ [] ∨ ¬ ascii "///" <+: rest) then do
    let host ← parseAuthority ((rest.drop 2).takeWhile (· ≠ 0x2F))
    let _ ← unescape .other ((rest.drop 2).dropWhile (· ≠ 0x2F))
    return ⟨scheme, host⟩
  else (unescape .other rest).map fun _ => ⟨scheme, []⟩

/-- `url.Parse`. -/
def parse (rawURL : GoString) : Option URL :=
  let (u, fragment) := cut 0x23 rawURL
  if u.any isControl then none
  else do
    let (scheme, rest) ← getScheme u
    let url ← parseHierarchy (toLower scheme) (cut 0x3F rest).1
    let _ ← unescape .other (fragment.getD [])
    return url

/-- `URL.Hostname`. -/
def URL.hostname (u : URL) : GoString :=
  let host :=
    match cutLast 0x3A u.host with
    | some (host, port) => if port.all isDigit then host else u.host
    | none => u.host
  if host.head? = some 0x5B ∧ host.getLast? = some 0x5D then host.tail.dropLast else host

example : (parse (ascii "HTTP://u:p@[fe80::1%25eth0]:80/a?b#c")).map (fun u => (u.scheme, u.host)) =
      some (ascii "http", ascii "[fe80::1%eth0]:80") ∧
    (parse (ascii "http://[::1]:8080")).map URL.hostname = some (ascii "::1") ∧
    (parse (ascii "http://a b")).isNone ∧ (parse (ascii "http://[127.0.0.1]")).isNone ∧
    (parse (ascii "http://::1/")).isNone ∧ (parse (ascii "http://%")).isNone ∧
    (parse (ascii "http://c.example/%zz")).isNone := by
  decide +kernel

/-! ### Hosts -/

section

variable {s t z port : GoString} {a : Addr}

theorem unescape_plain {mode : Mode} (h : ∀ b ∈ s, b ≠ 0x25 ∧ mode.plain b = true) :
    unescape mode s = some s := by
  induction s with
  | nil => rfl
  | cons b s ih =>
    rw [List.forall_mem_cons] at h
    unfold unescape
    rw [if_neg h.1.1, if_pos h.1.2, ih h.2]
    rfl

theorem unescape_percent (z : GoString) :
    unescape .zone (ascii "%25" ++ z) = (unescape .zone z).map (0x25 :: ·) := by
  have hbytes : ascii "%25" = [0x25, 0x32, 0x35] := rfl
  rw [hbytes]
  simp only [List.cons_append, List.nil_append, unescape, if_true]
  exact if_pos (by decide)

theorem cutZone_of_not_mem (ht : 0x25 ∉ t) : cutZone t = (t, []) := by
  induction t with
  | nil => rfl
  | cons b t ih =>
    rw [List.mem_cons, not_or] at ht
    have hno : ¬ ascii "%25" <+: b :: t := by
      rintro ⟨r, hr⟩
      exact ht.1 (List.cons.inj hr).1
    simp [cutZone, hno, ih ht.2]

theorem cutZone_append (ht : 0x25 ∉ t) (z : GoString) :
    cutZone (t ++ (ascii "%25" ++ z)) = (t, ascii "%25" ++ z) := by
  induction t with
  | nil => exact if_pos (List.prefix_append _ _)
  | cons b t ih =>
    rw [List.mem_cons, not_or] at ht
    have hno : ¬ ascii "%25" <+: b :: (t ++ (ascii "%25" ++ z)) := by
      rintro ⟨r, hr⟩
      exact ht.1 (List.cons.inj hr).1
    rw [List.cons_append, cutZone, if_neg hno, ih ht.2]

theorem plain_of_isAddrByte {b : UInt8} (h : isAddrByte b = true) :
    b ≠ 0x25 ∧ Mode.host.plain b = true ∧ b ∉ ascii "/?#[]@" := by
  revert h
  revert b
  apply forall_byte
  decide +kernel

theorem unescape_addr (h : ∀ b ∈ s, isAddrByte b = true) : unescape .host s = some s := by
  apply unescape_plain
  intro b hb
  have hplain := plain_of_isAddrByte (h b hb)
  exact ⟨hplain.1, hplain.2.1⟩

theorem parseLiteral_ip6 (h : IPv6Text t a) : parseLiteral t = some t := by
  have hzone : unescape .zone [] = some [] := rfl
  unfold parseLiteral
  rw [cutZone_of_not_mem h.not_mem_percent]
  simp [unescape_addr h.bytes, hzone, h.parseAddr, h.is6]

theorem parseLiteral_zone (h : IPv6Text t a)
    (hparse : parseLiteral (t ++ (ascii "%25" ++ z)) = some s) : ∃ z', s = t ++ 0x25 :: z' := by
  unfold parseLiteral at hparse
  rw [cutZone_append h.not_mem_percent] at hparse
  simp only [unescape_addr h.bytes, unescape_percent, Option.bind_eq_bind, Option.bind_some,
    Option.bind_eq_some_iff, Option.map_eq_some_iff, Option.ite_none_right_eq_some,
    Option.some.injEq] at hparse
  obtain ⟨_, ⟨z', -, rfl⟩, _, -, -, rfl⟩ := hparse
  exact ⟨z', rfl⟩

/-- The port as it stands behind a host. -/
def colonPort : Option GoString → GoString
  | none => []
  | some port => 0x3A :: port

variable {port : Option GoString}

theorem validOptionalPort_colonPort (hport : ∀ s ∈ port, ∀ b ∈ s, isDigit b = true) :
    validOptionalPort (colonPort port) = true := by
  cases port with
  | none => rfl
  | some s => simpa [colonPort, validOptionalPort] using hport s rfl

theorem colonPort_bytes (hport : ∀ s ∈ port, ∀ b ∈ s, isDigit b = true) :
    ∀ b ∈ colonPort port, isAddrByte b = true := by
  cases port with
  | none => exact nofun
  | some s =>
    rw [colonPort, List.forall_mem_cons]
    exact ⟨rfl, fun b hb => isAddrByte_of_digit (hport s rfl b hb)⟩

theorem parseHost_ip4 (h : IPv4Text t a) (hport : ∀ s ∈ port, ∀ b ∈ s, isDigit b = true) :
    parseHost (t ++ colonPort port) = some (t ++ colonPort port) := by
  have hbytes : ∀ b ∈ t ++ colonPort port, isAddrByte b = true := by
    intro b hb
    rcases List.mem_append.mp hb with hb | hb
    · rcases h.bytes b hb with hd | rfl
      · exact isAddrByte_of_digit hd
      · rfl
    · exact colonPort_bytes hport b hb
  have hbracket : 0x5B ∉ t ++ colonPort port := by
    intro hmem
    exact absurd (hbytes _ hmem) (by decide)
  have hhead : (t ++ colonPort port).head? ≠ some 0x5B := by
    intro hhead
    exact hbracket (List.mem_of_mem_head? hhead)
  have hcolon : ∀ b ∈ t, decide (b ≠ 0x3A) = true := forall_ne h.not_mem_colon
  have hstop : ∀ b ∈ (colonPort port).head?, decide (b ≠ 0x3A) = false := by
    cases port with
    | none => exact nofun
    | some s => simp [colonPort]
  unfold parseHost
  rw [if_neg hhead, (takeWhile_append_stop hcolon hstop).2, validOptionalPort_colonPort hport,
    unescape_addr hbytes]
  simp [hbracket]

/-- A literal in brackets, whatever `parseLiteral` makes of it. -/
theorem parseHost_bracket (hs : ∀ b ∈ s, b ∉ ascii "/?#[]@")
    (hport : ∀ s ∈ port, ∀ b ∈ s, isDigit b = true) :
    parseHost (ascii "[" ++ s ++ ascii "]" ++ colonPort port) =
      (parseLiteral s).map fun s => ascii "[" ++ s ++ ascii "]" ++ colonPort port := by
  have hopen : 0x5B ∉ s := by
    intro hmem
    exact hs _ hmem (by decide)
  have hcolonPort {b : UInt8} (hb : isAddrByte b = false) : b ∉ colonPort port := by
    intro hmem
    rw [colonPort_bytes hport b hmem] at hb
    cases hb
  have htail : (ascii "[" ++ s ++ ascii "]" ++ colonPort port).tail =
      s ++ 0x5D :: colonPort port := by
    simp [ascii]
  have hrest : 0x5B ∉ s ++ 0x5D :: colonPort port := by
    simp [hopen, hcolonPort (b := 0x5B) rfl]
  have hhead : (ascii "[" ++ s ++ ascii "]" ++ colonPort port).head? = some 0x5B := rfl
  unfold parseHost
  rw [if_pos hhead, htail, cutLast_append (hcolonPort rfl)]
  simp only [validOptionalPort_colonPort hport, hrest]
  simp

/-! ### URLs with an authority -/

theorem parseAuthority_userinfo {userinfo host h : GoString} (hhost : 0x40 ∉ host)
    (hparse : parseAuthority (userinfo ++ 0x40 :: host) = some h) : parseHost host = some h := by
  unfold parseAuthority at hparse
  rw [cutLast_append hhost] at hparse
  exact (Option.ite_none_right_eq_some.mp hparse).2

theorem parseAuthority_host {host : GoString} (hhost : 0x40 ∉ host) :
    parseAuthority host = parseHost host := by
  unfold parseAuthority
  rw [cutLast_of_not_mem hhost]

theorem getScheme_append {scheme : GoString} (hne : scheme ≠ [])
    (hletters : ∀ b ∈ scheme, isLetter b = true) (rest : GoString) :
    getScheme (scheme ++ 0x3A :: rest) = some (scheme, rest) := by
  have hbytes : ∀ b ∈ scheme, isSchemeByte b = true := by
    intro b hb
    simp [isSchemeByte, hletters b hb]
  have hcolon : ∀ b ∈ (0x3A :: rest).head?, isSchemeByte b = false := by
    rintro b ⟨⟩
    rfl
  have hstop := takeWhile_append_stop hbytes hcolon
  obtain ⟨b, bs, rfl⟩ := List.exists_cons_of_ne_nil hne
  unfold getScheme
  rw [hstop.1, hstop.2]
  simp [hletters b List.mem_cons_self]

theorem parseHierarchy_authority {scheme authority path : GoString} {u : URL}
    (hscheme : scheme ≠ []) (hauthority : 0x2F ∉ authority)
    (hpath : ∀ b ∈ path.head?, b = 0x2F)
    (hparse : parseHierarchy scheme (ascii "//" ++ (authority ++ path)) = some u) :
    u.scheme = scheme ∧ parseAuthority authority = some u.host := by
  have hdrop : (ascii "//" ++ (authority ++ path)).drop 2 = authority ++ path := rfl
  have hhead : (ascii "//" ++ (authority ++ path)).head? = some 0x2F := rfl
  have hstop : ∀ b ∈ path.head?, decide (b ≠ 0x2F) = false := by
    intro b hb
    simp [hpath b hb]
  unfold parseHierarchy at hparse
  rw [hdrop, hhead, (takeWhile_append_stop (forall_ne hauthority) hstop).1] at hparse
  simp only [ne_eq, not_true_eq_false, false_and, if_false, hscheme, not_false_eq_true, true_or,
    and_true, List.prefix_append, if_true, Option.bind_eq_bind, Option.bind_eq_some_iff] at hparse
  obtain ⟨host, hhost, _, -, hu⟩ := hparse
  cases hu
  exact ⟨rfl, hhost⟩

/-- What `url.Parse` makes of a text with scheme and authority. -/
theorem parse_authority {scheme authority tail : GoString} {u : URL} (hne : scheme ≠ [])
    (hletters : ∀ b ∈ scheme, isLetter b = true) (hauthority : ∀ b ∈ authority, b ∉ ascii "/?#")
    (htail : ∀ b ∈ tail.head?, b ∈ ascii "/?#")
    (hparse : parse (scheme ++ ascii "://" ++ authority ++ tail) = some u) :
    u.scheme = toLower scheme ∧ parseAuthority authority = some u.host := by
  have hfront {c : UInt8} (hc : c ∈ ascii "/?#") : c ∉ authority := fun hmem => hauthority c hmem hc
  have hscheme {c : UInt8} (hc : isLetter c = false) : c ∉ scheme := by
    intro hmem
    rw [hletters c hmem] at hc
    cases hc
  -- the fragment, the scheme and the query are taken off the tail
  have hfragment : (cut 0x23 (scheme ++ ascii "://" ++ authority ++ tail)).1 =
      scheme ++ 0x3A :: (ascii "//" ++ (authority ++ tail.takeWhile (· ≠ 0x23))) := by
    have hno : 0x23 ∉ scheme ++ ascii "://" ++ authority := by
      simp [hscheme (c := 0x23) rfl, hfront (c := 0x23) (by decide), ascii]
    rw [cut_fst, List.takeWhile_append_of_pos (forall_ne hno)]
    simp [ascii]
  have hquery (rest : GoString) : (cut 0x3F (ascii "//" ++ (authority ++ rest))).1 =
      ascii "//" ++ (authority ++ rest.takeWhile (· ≠ 0x3F)) := by
    have hno : 0x3F ∉ ascii "//" ++ authority := by
      simp [hfront (c := 0x3F) (by decide), ascii]
    rw [cut_fst, ← List.append_assoc, List.takeWhile_append_of_pos (forall_ne hno),
      List.append_assoc]
  have hpath : ∀ b ∈ ((tail.takeWhile (· ≠ 0x23)).takeWhile (· ≠ 0x3F)).head?, b = 0x2F := by
    intro b hb
    rw [List.head?_takeWhile, List.head?_takeWhile] at hb
    simp only [Option.mem_def, Option.filter_eq_some_iff] at hb
    obtain ⟨⟨hhead, hfragment⟩, hquery⟩ := hb
    have hdelimiter := htail b hhead
    simp only [ascii] at hdelimiter
    simp at hdelimiter hfragment hquery
    tauto
  unfold parse at hparse
  rcases hcut : cut 0x23 (scheme ++ ascii "://" ++ authority ++ tail) with ⟨front, fragment⟩
  rw [hcut] at hfragment hparse
  dsimp only at hfragment hparse
  subst hfragment
  split at hparse
  · cases hparse
  · rw [getScheme_append hne hletters] at hparse
    simp only [Option.bind_eq_bind, Option.bind_some, Option.bind_eq_some_iff] at hparse
    obtain ⟨url, hurl, _, -, hu⟩ := hparse
    cases hu
    rw [hquery] at hurl
    exact parseHierarchy_authority (toLower_ne_nil hne) (hfront (by decide)) hpath hurl

end

end Patchli.Url
