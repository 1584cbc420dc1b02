import Patchli.Foundation.Decimal

/-!
# IP addresses

Addresses, prefixes and their texts, as the packages `net` and `net/netip` document them.
Zones are left out. Two prefixes are nested or have no address in common.
-/

namespace Patchli.NetIP

/-- A `netip.Addr` other than the zero one. -/
inductive Addr
  | ip4 (x : BitVec 32)
  | ip6 (x : BitVec 128)
  deriving DecidableEq

def v4 (a b c d : ℕ) : Addr := .ip4 (BitVec.ofNat 32 (((a * 256 + b) * 256 + c) * 256 + d))

/-- The address that begins with these groups of 16 bits, the others being zero. -/
def v6 (groups : List ℕ) : Addr :=
  .ip6 (BitVec.ofNat 128
    ((groups ++ List.replicate (8 - groups.length) 0).foldl (fun x g => x * 65536 + g) 0))

def bigEndian (bytes : GoString) : ℕ := bytes.foldl (fun x b => x * 256 + b.toNat) 0

/-- `netip.AddrFromSlice`. -/
def addrFromSlice (slice : GoString) : Option Addr :=
  if slice.length = 4 then some (.ip4 (BitVec.ofNat 32 (bigEndian slice)))
  else if slice.length = 16 then some (.ip6 (BitVec.ofNat 128 (bigEndian slice)))
  else none

/-- An IPv4-mapped IPv6 address becomes the IPv4 address. -/
def Addr.unmap : Addr → Addr
  | .ip6 x => if x >>> 32 = 0xffff#128 then .ip4 (x.setWidth 32) else .ip6 x
  | a => a

def Addr.is6 : Addr → Bool
  | .ip4 _ => false
  | .ip6 _ => true

structure Prefix where
  addr : Addr
  bits : ℕ
  deriving DecidableEq

/-- An IPv4 address is in no IPv6 prefix, nor conversely. -/
def Prefix.contains (p : Prefix) (a : Addr) : Bool :=
  match p.addr, a with
  | .ip4 base, .ip4 x => base >>> (32 - p.bits) = x >>> (32 - p.bits)
  | .ip6 base, .ip6 x => base >>> (128 - p.bits) = x >>> (128 - p.bits)
  | _, _ => false

@[simp] theorem contains_v6_ip4 (groups : List ℕ) (n : ℕ) (x : BitVec 32) :
    Prefix.contains ⟨v6 groups, n⟩ (.ip4 x) = false := rfl

@[simp] theorem contains_v4_ip6 (a b c d n : ℕ) (x : BitVec 128) :
    Prefix.contains ⟨v4 a b c d, n⟩ (.ip6 x) = false := rfl

theorem Prefix.contains_congr {p q : Prefix} {a : Addr} (hbits : q.bits ≤ p.bits)
    (h : p.contains a = true) : q.contains p.addr = q.contains a := by
  obtain ⟨addr, bits⟩ := p
  obtain ⟨base, n⟩ := q
  have hshift {w : ℕ} {y x : BitVec w} (heq : y >>> (w - bits) = x >>> (w - bits)) :
      y >>> (w - n) = x >>> (w - n) := by
    have hsum : w - n = w - bits + (w - n - (w - bits)) := by
      dsimp only at hbits
      omega
    rw [hsum, BitVec.shiftRight_add, BitVec.shiftRight_add, heq]
  cases addr with
  | ip4 y =>
    cases a with
    | ip4 x =>
      have heq := hshift (of_decide_eq_true h)
      cases base with
      | ip4 z => simp only [contains, heq]
      | ip6 z => rfl
    | ip6 x => cases h
  | ip6 y =>
    cases a with
    | ip4 x => cases h
    | ip6 x =>
      have heq := hshift (of_decide_eq_true h)
      cases base with
      | ip4 z => rfl
      | ip6 z => simp only [contains, heq]

namespace Addr

def isLoopback (a : Addr) : Bool :=
  Prefix.contains ⟨v4 127 0 0 0, 8⟩ a || a = v6 [0, 0, 0, 0, 0, 0, 0, 1]

def isMulticast (a : Addr) : Bool :=
  Prefix.contains ⟨v4 224 0 0 0, 4⟩ a || Prefix.contains ⟨v6 [0xff00], 8⟩ a

def isLinkLocalUnicast (a : Addr) : Bool :=
  Prefix.contains ⟨v4 169 254 0 0, 16⟩ a || Prefix.contains ⟨v6 [0xfe80], 10⟩ a

/-- Private and shared addresses count as global. -/
def isGlobalUnicast (a : Addr) : Bool :=
  a ≠ v4 0 0 0 0 && a ≠ v4 255 255 255 255 && a ≠ v6 [] && !a.isLoopback && !a.isMulticast &&
    !a.isLinkLocalUnicast

def isPrivate (a : Addr) : Bool :=
  Prefix.contains ⟨v4 10 0 0 0, 8⟩ a || Prefix.contains ⟨v4 172 16 0 0, 12⟩ a ||
    Prefix.contains ⟨v4 192 168 0 0, 16⟩ a || Prefix.contains ⟨v6 [0xfc00], 7⟩ a

end Addr

/-! ### Texts -/

def joinWith (sep : GoString) : List GoString → GoString
  | [] => []
  | [s] => s
  | s :: ss => s ++ sep ++ joinWith sep ss

/-- Without leading zeros. -/
def hexGroup (x : ℕ) : GoString :=
  (if 0x1000 ≤ x then [GoString.hexDigit (x / 0x1000)] else []) ++
    (if 0x100 ≤ x then [GoString.hexDigit (x / 0x100 % 16)] else []) ++
    (if 0x10 ≤ x then [GoString.hexDigit (x / 0x10 % 16)] else []) ++ [GoString.hexDigit (x % 16)]

/-- Start and length of the first longest run of two zeros or more. -/
def zeroRun (groups : List ℕ) : ℕ × ℕ :=
  (List.range groups.length).foldl (fun best i =>
    let length := ((groups.drop i).takeWhile (· = 0)).length
    if 2 ≤ length ∧ best.2 < length then (i, length) else best) (0, 0)

def Addr.string : Addr → GoString
  | .ip4 x => joinWith (ascii ".")
      ([24, 16, 8, 0].map fun i => Decimal.formatNat ((x.toNat >>> i) % 256))
  | .ip6 x =>
    let groups := [112, 96, 80, 64, 48, 32, 16, 0].map fun i => (x.toNat >>> i) % 65536
    let (start, length) := zeroRun groups
    if length = 0 then joinWith (ascii ":") (groups.map hexGroup)
    else
      joinWith (ascii ":") ((groups.take start).map hexGroup) ++ ascii "::" ++
        joinWith (ascii ":") ((groups.drop (start + length)).map hexGroup)

/-- `net.IP.String`. -/
def ipString (ip : GoString) : GoString :=
  match addrFromSlice ip with
  | some a => a.unmap.string
  | none => if ip = [] then ascii "<nil>" else ascii "?" ++ GoString.hexEncode ip

/-- `net.JoinHostPort`. -/
def joinHostPort (host port : GoString) : GoString :=
  if 0x3A ∈ host then ascii "[" ++ host ++ ascii "]:" ++ port else host ++ ascii ":" ++ port

/-- `net.SplitHostPort`, for a host in brackets or one without colons. -/
def splitHostPort (hostport : GoString) : Option (GoString × GoString) :=
  match hostport.reverse.span (· ≠ 0x3A) with
  | (_, []) => none
  | (port, _ :: host) =>
    let (host, port) := (host.reverse, port.reverse)
    if hostport.head? = some 0x5B then
      match (host.drop 1).span (· ≠ 0x5D) with
      | (inner, [_]) =>
        if 0x5B ∈ inner ∨ 0x5B ∈ port ∨ 0x5D ∈ port then none else some (inner, port)
      | _ => none
    else if 0x3A ∈ host ∨ 0x5B ∈ hostport ∨ 0x5D ∈ hostport then none
    else some (host, port)

end Patchli.NetIP
