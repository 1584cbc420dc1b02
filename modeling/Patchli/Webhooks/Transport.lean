import Patchli.Foundation.NetIP

/-!
# The webhook transport

`transport.go`. A webhook host is resolved once, every address is checked, and only then
an address is dialed.
-/

namespace Patchli.Webhooks

open NetIP

/-- Special-use ranges beyond those that `net/netip` knows. -/
def webhookDeniedNetworks : List Prefix :=
  [⟨v4 0 0 0 0, 8⟩, ⟨v4 100 64 0 0, 10⟩, ⟨v4 192 0 0 0, 24⟩, ⟨v4 192 0 2 0, 24⟩,
    ⟨v4 192 88 99 0, 24⟩, ⟨v4 198 18 0 0, 15⟩, ⟨v4 198 51 100 0, 24⟩, ⟨v4 203 0 113 0, 24⟩,
    ⟨v4 240 0 0 0, 4⟩, ⟨v6 [0x2001], 23⟩, ⟨v6 [0x2001, 0xdb8], 32⟩, ⟨v6 [0x2002], 16⟩,
    ⟨v6 [0x3fff], 20⟩]

/-- The test of an address that is not IPv4-mapped. -/
def publicAddr (addr : Addr) : Bool :=
  if !addr.isGlobalUnicast || addr.isPrivate || addr.isLoopback || addr.isLinkLocalUnicast then
    false
  else if addr.is6 && !Prefix.contains ⟨v6 [0x2000], 3⟩ addr then false
  else webhookDeniedNetworks.all fun p => !p.contains addr

def publicWebhookIP (ip : GoString) : Bool :=
  match addrFromSlice ip with
  | none => false
  | some addr => publicAddr addr.unmap

inductive DialError (ε : Type*)
  /-- `missing port in address` and the like. -/
  | splitHostPort
  /-- `webhook destination has no addresses` -/
  | noAddresses
  /-- `webhook destination is not a public address` -/
  | nonPublicWebhook
  /-- The error of the resolver or of the last dial. -/
  | net (e : ε)

structure Dial where
  network : GoString
  address : GoString
  deriving DecidableEq

def Dial.to (network port ip : GoString) : Dial := ⟨network, joinHostPort (ipString ip) port⟩

section

variable {κ ε : Type*} (dial : ℕ → Except ε κ) (network port : GoString)

/-- Dial one address after the other, `dial k` being the outcome of the `k`-th attempt. -/
def dialEach : ℕ → Option (DialError ε) → List GoString →
    (Option κ × Option (DialError ε)) × List Dial
  | _, err, [] => ((none, err), [])
  | k, _, ip :: ips =>
    match dial k with
    | .ok conn => ((some conn, none), [Dial.to network port ip])
    | .error e =>
      let (result, dials) := dialEach (k + 1) (some (.net e)) ips
      (result, Dial.to network port ip :: dials)

/-- The connection and the error, and what was dialed. -/
def dialWebhookAddresses (addresses : List GoString) :
    (Option κ × Option (DialError ε)) × List Dial :=
  if addresses = [] then ((none, some .noAddresses), [])
  else if addresses.any fun ip => !publicWebhookIP ip then ((none, some .nonPublicWebhook), [])
  else dialEach dial network port 0 none addresses

/-- `lookup` is the resolver. -/
def dialWebhook (lookup : GoString → Except ε (List GoString)) (address : GoString) :
    (Option κ × Option (DialError ε)) × List Dial :=
  match NetIP.splitHostPort address with
  | none => ((none, some .splitHostPort), [])
  | some (host, port) =>
    match lookup host with
    | .error e => ((none, some (.net e)), [])
    | .ok addresses => dialWebhookAddresses dial network port addresses

end

/-! ### Public addresses -/

/-- The special-use IPv4 networks. -/
def specialUse4 : List Prefix :=
  [⟨v4 0 0 0 0, 8⟩, ⟨v4 10 0 0 0, 8⟩, ⟨v4 100 64 0 0, 10⟩, ⟨v4 127 0 0 0, 8⟩,
    ⟨v4 169 254 0 0, 16⟩, ⟨v4 172 16 0 0, 12⟩, ⟨v4 192 0 0 0, 24⟩, ⟨v4 192 0 2 0, 24⟩,
    ⟨v4 192 88 99 0, 24⟩, ⟨v4 192 168 0 0, 16⟩, ⟨v4 198 18 0 0, 15⟩, ⟨v4 198 51 100 0, 24⟩,
    ⟨v4 203 0 113 0, 24⟩, ⟨v4 224 0 0 0, 4⟩, ⟨v4 240 0 0 0, 4⟩]

/-- The special-use networks inside `2000::/3`. -/
def specialUse6 : List Prefix :=
  [⟨v6 [0x2001], 23⟩, ⟨v6 [0x2001, 0xdb8], 32⟩, ⟨v6 [0x2002], 16⟩, ⟨v6 [0x3fff], 20⟩]

def Public : Addr → Prop
  | .ip4 x => ∀ p ∈ specialUse4, p.contains (.ip4 x) = false
  | .ip6 x => Prefix.contains ⟨v6 [0x2000], 3⟩ (.ip6 x) = true ∧
      ∀ p ∈ specialUse6, p.contains (.ip6 x) = false

theorem publicAddr_ip4 (x : BitVec 32) : publicAddr (.ip4 x) = true ↔ Public (.ip4 x) := by
  have hzero : Prefix.contains ⟨v4 0 0 0 0, 8⟩ (.ip4 x) = false → (.ip4 x : Addr) ≠ v4 0 0 0 0 := by
    intro h heq
    rw [heq] at h
    exact absurd h (by decide)
  have hbroadcast : Prefix.contains ⟨v4 240 0 0 0, 4⟩ (.ip4 x) = false →
      (.ip4 x : Addr) ≠ v4 255 255 255 255 := by
    intro h heq
    rw [heq] at h
    exact absurd h (by decide)
  have hfamily (groups : List ℕ) : (.ip4 x : Addr) ≠ v6 groups := nofun
  simp only [publicAddr, Public, specialUse4, webhookDeniedNetworks, Addr.isGlobalUnicast,
    Addr.isPrivate, Addr.isLoopback, Addr.isLinkLocalUnicast, Addr.isMulticast, Addr.is6]
  simp [hfamily]
  tauto

theorem publicAddr_ip6 (x : BitVec 128) : publicAddr (.ip6 x) = true ↔ Public (.ip6 x) := by
  have hfamily (a b c d : ℕ) : (.ip6 x : Addr) ≠ v4 a b c d := nofun
  simp only [publicAddr, Public, specialUse6, webhookDeniedNetworks, Addr.isGlobalUnicast,
    Addr.isPrivate, Addr.isLoopback, Addr.isLinkLocalUnicast, Addr.isMulticast, Addr.is6]
  by_cases hin : Prefix.contains ⟨v6 [0x2000], 3⟩ (.ip6 x) = true
  · -- what `net/netip` calls special lies outside the global unicast space
    have hout (p : Prefix) (hbits : 3 ≤ p.bits)
        (hp : Prefix.contains ⟨v6 [0x2000], 3⟩ p.addr = false) : p.contains (.ip6 x) = false := by
      by_contra hcontains
      rw [Bool.not_eq_false] at hcontains
      rw [← Prefix.contains_congr hbits hcontains, hp] at hin
      cases hin
    have hne (groups : List ℕ) (hg : Prefix.contains ⟨v6 [0x2000], 3⟩ (v6 groups) = false) :
        (.ip6 x : Addr) ≠ v6 groups := by
      intro heq
      rw [heq, hg] at hin
      cases hin
    have hlocal := hout ⟨v6 [0xfe80], 10⟩ (by decide) (by decide)
    have hprivate := hout ⟨v6 [0xfc00], 7⟩ (by decide) (by decide)
    have hmulticast := hout ⟨v6 [0xff00], 8⟩ (by decide) (by decide)
    have hzero := hne [] (by decide)
    have hloopback := hne [0, 0, 0, 0, 0, 0, 0, 1] (by decide)
    simp [hfamily, hin, hlocal, hprivate, hmulticast, hzero, hloopback]
  · simp [hin]

theorem publicWebhookIP_iff (ip : GoString) :
    publicWebhookIP ip = true ↔ ∃ addr, addrFromSlice ip = some addr ∧ Public addr.unmap := by
  have hpublic (a : Addr) : publicAddr a = true ↔ Public a := by
    cases a with
    | ip4 x => exact publicAddr_ip4 x
    | ip6 x => exact publicAddr_ip6 x
  unfold publicWebhookIP
  cases addrFromSlice ip with
  | none => simp
  | some addr => simpa using hpublic addr.unmap

/-! ### Dialing -/

section

variable {κ ε : Type*} {dial : ℕ → Except ε κ} {network port : GoString}

variable (dial network port) in
theorem dialEach_spec (ips : List GoString) (k : ℕ) (err : Option (DialError ε)) :
    (∃ m < ips.length, ∃ conn, dial (k + m) = .ok conn ∧
        (∀ j < m, ∃ e, dial (k + j) = .error e) ∧
        dialEach dial network port k err ips =
          ((some conn, none), (ips.take (m + 1)).map (Dial.to network port))) ∨
      ((∀ j < ips.length, ∃ e, dial (k + j) = .error e) ∧
        ∃ err', dialEach dial network port k err ips =
          ((none, err'), ips.map (Dial.to network port))) := by
  induction ips generalizing k err with
  | nil => exact Or.inr ⟨by simp, err, rfl⟩
  | cons ip ips ih =>
    simp only [dialEach]
    cases hdial : dial k with
    | ok conn => exact Or.inl ⟨0, by simp, conn, hdial, by simp, by simp⟩
    | error e =>
      have hfirst {n : ℕ} (hrest : ∀ j < n, ∃ e, dial (k + 1 + j) = .error e) :
          ∀ j < n + 1, ∃ e, dial (k + j) = .error e := by
        intro j hj
        cases j with
        | zero => exact ⟨e, hdial⟩
        | succ j =>
          obtain ⟨e', he'⟩ := hrest j (by omega)
          exact ⟨e', by rwa [Nat.add_right_comm, Nat.add_assoc] at he'⟩
      rcases ih (k + 1) (some (.net e)) with ⟨m, hm, conn, hconn, hrest, heq⟩ |
        ⟨hrest, err', heq⟩
      · refine Or.inl ⟨m + 1, by simpa using hm, conn, ?_, hfirst hrest, ?_⟩
        · rwa [Nat.add_right_comm, Nat.add_assoc] at hconn
        · simp [heq]
      · exact Or.inr ⟨by simpa using hfirst hrest, err', by simp [heq]⟩

theorem dialWebhookAddresses_spec (dial : ℕ → Except ε κ) (network port : GoString)
    (addresses : List GoString) :
    let r := dialWebhookAddresses dial network port addresses
    (r.2 ≠ [] → ∀ ip ∈ addresses, publicWebhookIP ip = true) ∧
    (∃ m, r.2 = (addresses.take m).map (Dial.to network port) ∧
      (∀ j, j + 1 < r.2.length → ∃ e, dial j = .error e) ∧
      (∀ conn, r.1.1 = some conn ↔ ∃ j, r.2.length = j + 1 ∧ dial j = .ok conn)) ∧
    ((∀ ip ∈ addresses, publicWebhookIP ip = true) → r.1.1 = none →
      r.2 = addresses.map (Dial.to network port)) := by
  intro r
  by_cases hempty : addresses = []
  · have hr : r = ((none, some .noAddresses), []) := if_pos hempty
    rw [hr, hempty]
    exact ⟨by simp, ⟨0, by simp⟩, by simp⟩
  by_cases hany : (addresses.any fun ip => !publicWebhookIP ip) = true
  · have hr : r = ((none, some .nonPublicWebhook), []) := (if_neg hempty).trans (if_pos hany)
    rw [hr]
    refine ⟨by simp, ⟨0, by simp⟩, fun hpublic => ?_⟩
    obtain ⟨ip, hip, hnot⟩ := List.any_eq_true.mp hany
    rw [hpublic ip hip] at hnot
    cases hnot
  · have hr : r = dialEach dial network port 0 none addresses :=
      (if_neg hempty).trans (if_neg hany)
    refine ⟨fun _ => by simpa using hany, ?_⟩
    rcases dialEach_spec dial network port addresses 0 none with
      ⟨m, hm, conn, hconn, hfailed, heq⟩ | ⟨hfailed, err, heq⟩
    · simp only [Nat.zero_add] at hconn hfailed
      have hlength : ((addresses.take (m + 1)).map (Dial.to network port)).length = m + 1 := by
        simp
        omega
      rw [hr, heq]
      dsimp only
      rw [hlength]
      refine ⟨⟨m + 1, rfl, fun j hj => hfailed j (by omega), fun conn' => ?_⟩, nofun⟩
      constructor
      · intro h
        cases h
        exact ⟨m, rfl, hconn⟩
      · rintro ⟨j, hj, hconn'⟩
        obtain rfl : m = j := by omega
        rw [hconn] at hconn'
        cases hconn'
        rfl
    · simp only [Nat.zero_add] at hfailed
      rw [hr, heq]
      dsimp only
      rw [List.length_map]
      refine ⟨⟨addresses.length, by simp, fun j hj => hfailed j (by omega), fun conn => ?_⟩,
        fun _ _ => rfl⟩
      constructor
      · intro h
        cases h
      · rintro ⟨j, hj, hconn⟩
        obtain ⟨e, he⟩ := hfailed j (by omega)
        rw [he] at hconn
        cases hconn

/-- Nothing but public addresses is dialed, in the order of the list and until the first
success; an address is public exactly outside the special-use networks. -/
theorem dials_public_addresses (dial : ℕ → Except ε κ) (network port : GoString)
    (addresses : List GoString) :
    let r := dialWebhookAddresses dial network port addresses
    (r.2 ≠ [] → ∀ ip ∈ addresses, publicWebhookIP ip = true) ∧
    (∃ m, r.2 = (addresses.take m).map (fun ip => ⟨network, joinHostPort (ipString ip) port⟩) ∧
      (∀ j, j + 1 < r.2.length → ∃ e, dial j = .error e) ∧
      (∀ conn, r.1.1 = some conn ↔ ∃ j, r.2.length = j + 1 ∧ dial j = .ok conn)) ∧
    ((∀ ip ∈ addresses, publicWebhookIP ip = true) → r.1.1 = none →
      r.2 = addresses.map fun ip => ⟨network, joinHostPort (ipString ip) port⟩) ∧
    ∀ ip, publicWebhookIP ip = true ↔
      ∃ addr, addrFromSlice ip = some addr ∧ Public addr.unmap := by
  intro r
  obtain ⟨hpublic, horder, hall⟩ := dialWebhookAddresses_spec dial network port addresses
  exact ⟨hpublic, horder, hall, publicWebhookIP_iff⟩

/-- Three public addresses, of which the second answers. -/
private def resolved : List GoString := [[1, 1, 1, 1], [8, 8, 8, 8], [9, 9, 9, 9]]

private def secondAnswers (k : ℕ) : Except Unit Unit := if k = 1 then .ok () else .error ()

theorem dials_public_addresses_second :
    (dialWebhookAddresses secondAnswers (ascii "tcp") (ascii "443") resolved).2 =
        [⟨ascii "tcp", ascii "1.1.1.1:443"⟩, ⟨ascii "tcp", ascii "8.8.8.8:443"⟩] ∧
      ∀ ip ∈ resolved, publicWebhookIP ip = true := by
  have hdials : (dialWebhookAddresses secondAnswers (ascii "tcp") (ascii "443") resolved).2 =
      [⟨ascii "tcp", ascii "1.1.1.1:443"⟩, ⟨ascii "tcp", ascii "8.8.8.8:443"⟩] := by
    decide +kernel
  refine ⟨hdials, (dials_public_addresses secondAnswers (ascii "tcp") (ascii "443") resolved).1 ?_⟩
  rw [hdials]
  exact List.cons_ne_nil _ _

theorem dialWebhook_public {dial : ℕ → Except ε κ} {network address : GoString}
    {lookup : GoString → Except ε (List GoString)} {d : Dial}
    (hd : d ∈ (dialWebhook dial network lookup address).2) :
    ∃ host port addresses, NetIP.splitHostPort address = some (host, port) ∧
      lookup host = .ok addresses ∧
      ∃ ip ∈ addresses, publicWebhookIP ip = true ∧ d = Dial.to network port ip := by
  unfold dialWebhook at hd
  split at hd
  · cases hd
  · rename_i host port hsplit
    split at hd
    · cases hd
    · rename_i addresses hlookup
      obtain ⟨hpublic, ⟨m, hdials, -⟩, -⟩ :=
        dialWebhookAddresses_spec dial network port addresses
      have hmem : d ∈ (addresses.take m).map (Dial.to network port) := hdials ▸ hd
      obtain ⟨ip, hip, rfl⟩ := List.mem_map.mp hmem
      have hip := List.mem_of_mem_take hip
      exact ⟨host, port, addresses, hsplit, hlookup, ip, hip,
        hpublic (List.ne_nil_of_mem hd) ip hip, rfl⟩

example : (dialWebhook (fun _ => (.ok () : Except Unit Unit)) (ascii "tcp")
    (fun _ => .ok [[1, 1, 1, 1]]) (ascii "example.org:443")).2 =
      [⟨ascii "tcp", ascii "1.1.1.1:443"⟩] := by
  decide +kernel

end

end Patchli.Webhooks
