import Patchli.Foundation.Cut
import Patchli.Foundation.NetIP

/-!
# Texts of IP addresses

`netip.ParseAddr` and `net.ParseIP`: dotted decimal, and IPv6 with `::`, an embedded IPv4
address and a zone.
-/

namespace Patchli.NetIP

open Decimal GoString

/-! ### IPv4 -/

/-- A decimal octet without leading zeros. -/
def parseOctet (s : GoString) : Option ℕ :=
  if s.head? = some 0x30 ∧ s ≠ [0x30] then none else (parseNat s).filter fun n => decide (n ≤ 255)

def parseIPv4Fields (s : GoString) : Option (ℕ × ℕ × ℕ × ℕ) :=
  match s.splitOn 0x2E with
  | [a, b, c, d] => do
    let a ← parseOctet a
    let b ← parseOctet b
    let c ← parseOctet c
    let d ← parseOctet d
    return (a, b, c, d)
  | _ => none

def parseIPv4 (s : GoString) : Option Addr :=
  (parseIPv4Fields s).map fun (a, b, c, d) => v4 a b c d

/-! ### IPv6 -/

def isHex (c : UInt8) : Bool :=
  isDigit c || (0x61 ≤ c && c ≤ 0x66) || (0x41 ≤ c && c ≤ 0x46)

def unhex (c : UInt8) : ℕ :=
  if isDigit c then digitValue c else if 0x61 ≤ c then c.toNat - 87 else c.toNat - 55

/-- The fields read so far, and the index of the ellipsis among them. -/
structure Fields where
  fields : List ℕ
  ellipsis : Option ℕ

def Fields.push (f : Fields) (x : ℕ) : Fields := { f with fields := f.fields ++ [x] }

/-- Read at most `n` more fields, until the end of the text. -/
def parseFields : ℕ → Fields → GoString → Option Fields
  | 0, f, s => if s = [] then some f else none
  | n + 1, f, s =>
    let digits := s.takeWhile isHex
    if digits = [] ∨ 4 < digits.length then none
    else
      let f' := f.push (digits.foldl (fun x c => 16 * x + unhex c) 0)
      match s.dropWhile isHex with
      | [] => some f'
      | c :: s' =>
        if c = 0x2E then
          if f.ellipsis = none ∧ f.fields.length ≠ 6 ∨ 6 < f.fields.length then none
          else (parseIPv4Fields s).map fun (a, b, c, d) =>
            (f.push (a * 256 + b)).push (c * 256 + d)
        else if c ≠ 0x3A ∨ s' = [] then none
        else if s'.head? = some 0x3A then
          if f.ellipsis ≠ none then none
          else
            let f' := { f' with ellipsis := some f'.fields.length }
            if s'.tail = [] then some f' else parseFields n f' s'.tail
        else parseFields n f' s'

/-- The ellipsis stands for one field or more. -/
def Fields.expand (f : Fields) : Option Addr :=
  if f.fields.length < 8 then
    f.ellipsis.map fun i => v6 (f.fields.take i ++ List.replicate (8 - f.fields.length) 0 ++
      f.fields.drop i)
  else if f.ellipsis = none then some (v6 f.fields) else none

/-- An address without a zone. -/
def parseIPv6 (s : GoString) : Option Addr :=
  if ascii "::" <+: s then
    if s.drop 2 = [] then some (v6 [])
    else (parseFields 8 ⟨[], some 0⟩ (s.drop 2)).bind Fields.expand
  else (parseFields 8 ⟨[], none⟩ s).bind Fields.expand

/-- The byte that tells which family of addresses a text belongs to. -/
def decisive (c : UInt8) : Bool := c = 0x2E || c = 0x3A || c = 0x25

/-- `netip.ParseAddr`: the address and its zone, which is empty if there is none. -/
def parseAddr (s : GoString) : Option (Addr × GoString) :=
  match s.find? decisive with
  | none => none
  | some c =>
    if c = 0x2E then (parseIPv4 s).map fun a => (a, [])
    else if c = 0x3A then
      match s.span (· ≠ 0x25) with
      | (s, []) => (parseIPv6 s).map fun a => (a, [])
      | (s, _ :: zone) => if zone = [] then none else (parseIPv6 s).map fun a => (a, zone)
    else none

/-- `net.ParseIP`, which takes no zone. The methods of `net.IP` treat an IPv4-mapped address
as the IPv4 address. -/
def parseIP (s : GoString) : Option Addr :=
  (parseAddr s).bind fun (a, zone) => if zone = [] then some a.unmap else none

example : parseIP (ascii "192.168.0.1") = some (v4 192 168 0 1) ∧
    parseIP (ascii "::1") = some (v6 [0, 0, 0, 0, 0, 0, 0, 1]) ∧
    parseIP (ascii "fe80::a:B") = some (v6 [0xfe80, 0, 0, 0, 0, 0, 0xa, 0xb]) ∧
    parseIP (ascii "::ffff:127.0.0.1") = some (v4 127 0 0 1) ∧
    parseIP (ascii "1:2:3:4:5:6:7::") = some (v6 [1, 2, 3, 4, 5, 6, 7, 0]) ∧
    parseIP (ascii "1:2:3:4:5:6:7:8::") = none ∧ parseIP (ascii "127.0.0.01") = none ∧
    parseIP (ascii "fe80::1%eth0") = none ∧ parseIP (ascii "[::1]") = none := by
  decide +kernel

/-! ### The bytes of a text -/

/-- The bytes of an address without a zone. -/
def isAddrByte (b : UInt8) : Bool := isHex b || b = 0x2E || b = 0x3A

theorem isAddrByte_of_digit {b : UInt8} (hb : isDigit b = true) : isAddrByte b = true := by
  simp [isAddrByte, isHex, hb]

theorem parseOctet_digits {s : GoString} {n : ℕ} (h : parseOctet s = some n) :
    ∀ b ∈ s, isDigit b = true := by
  unfold parseOctet at h
  split at h
  · cases h
  · have hnat := (Option.filter_eq_some_iff.mp h).1
    simp only [parseNat, Option.ite_none_right_eq_some] at hnat
    exact List.all_eq_true.mp hnat.1.2

theorem parseIPv4Fields_bytes {s : GoString} {q : ℕ × ℕ × ℕ × ℕ}
    (h : parseIPv4Fields s = some q) : ∀ b ∈ s, isDigit b = true ∨ b = 0x2E := by
  unfold parseIPv4Fields at h
  split at h
  · rename_i a b c d hsplit
    simp only [Option.bind_eq_bind, Option.bind_eq_some_iff] at h
    obtain ⟨_, ha, _, hb, _, hc, _, hd, -⟩ := h
    have hs : s = a ++ 0x2E :: (b ++ 0x2E :: (c ++ 0x2E :: d)) := by
      have hjoin : List.intercalate [0x2E] (s.splitOn 0x2E) = s := List.intercalate_splitOn _
      rw [hsplit] at hjoin
      rw [← hjoin]
      simp [List.intercalate]
    intro x hx
    rw [hs] at hx
    simp only [List.mem_append, List.mem_cons] at hx
    rcases hx with hx | rfl | hx | rfl | hx | rfl | hx
    · exact Or.inl (parseOctet_digits ha x hx)
    · exact Or.inr rfl
    · exact Or.inl (parseOctet_digits hb x hx)
    · exact Or.inr rfl
    · exact Or.inl (parseOctet_digits hc x hx)
    · exact Or.inr rfl
    · exact Or.inl (parseOctet_digits hd x hx)
  · cases h

theorem parseFields_bytes {n : ℕ} {f g : Fields} {s : GoString}
    (h : parseFields n f s = some g) : ∀ b ∈ s, isAddrByte b = true := by
  induction n generalizing f s with
  | zero =>
    unfold parseFields at h
    split at h
    · rename_i hnil
      simp [hnil]
    · cases h
  | succ n ih =>
    have hhex : ∀ b ∈ s.takeWhile isHex, isAddrByte b = true := by
      intro b hb
      have hb' := List.mem_takeWhile_imp hb
      simp [isAddrByte, hb']
    have hrest : ∀ b ∈ s.dropWhile isHex, isAddrByte b = true := by
      simp only [parseFields] at h
      split at h
      · cases h
      · split at h
        · rename_i hnil
          simp [hnil]
        · rename_i c s' hcons
          rw [hcons]
          split at h
          · -- the rest of the text is an embedded IPv4 address
            split at h
            · cases h
            · obtain ⟨q, hq, -⟩ := Option.map_eq_some_iff.mp h
              rw [← hcons]
              intro b hb
              rcases parseIPv4Fields_bytes hq b ((List.dropWhile_suffix _).subset hb) with hd | rfl
              · exact isAddrByte_of_digit hd
              · rfl
          · split at h
            · cases h
            · rename_i hcolon
              simp only [not_or, ne_eq, not_not] at hcolon
              rw [hcolon.1, List.forall_mem_cons]
              refine ⟨rfl, ?_⟩
              split at h
              · rename_i hhead
                obtain ⟨s'', rfl⟩ := List.head?_eq_some_iff.mp hhead
                rw [List.forall_mem_cons]
                refine ⟨rfl, ?_⟩
                split at h
                · cases h
                · split at h
                  · rename_i hnil
                    rw [List.tail_cons] at hnil
                    simp [hnil]
                  · exact ih h
              · exact ih h
    intro b hb
    rw [← List.takeWhile_append_dropWhile (p := isHex) (l := s)] at hb
    rcases List.mem_append.mp hb with hb | hb
    · exact hhex b hb
    · exact hrest b hb

theorem parseIPv6_bytes {s : GoString} {a : Addr} (h : parseIPv6 s = some a) :
    ∀ b ∈ s, isAddrByte b = true := by
  unfold parseIPv6 at h
  split at h
  · rename_i hellipsis
    obtain ⟨r, rfl⟩ := hellipsis
    have hr : ∀ b ∈ r, isAddrByte b = true := by
      split at h
      · rename_i hnil
        have hnil' : r = [] := hnil
        simp [hnil']
      · obtain ⟨f, hf, -⟩ := Option.bind_eq_some_iff.mp h
        exact parseFields_bytes hf
    intro b hb
    rcases List.mem_append.mp hb with hb | hb
    · have hcolon : b = 0x3A := by simpa [ascii] using hb
      rw [hcolon]
      rfl
    · exact hr b hb
  · obtain ⟨f, hf, -⟩ := Option.bind_eq_some_iff.mp h
    exact parseFields_bytes hf

/-! ### Texts of the two families -/

structure IPv4Text (s : GoString) (a : Addr) : Prop where
  first : s.find? decisive = some 0x2E
  parsed : parseIPv4 s = some a

/-- An IPv6 address without a zone. -/
structure IPv6Text (s : GoString) (a : Addr) : Prop where
  first : s.find? decisive = some 0x3A
  parsed : parseIPv6 s = some a

variable {s t zone : GoString} {a : Addr}

theorem IPv4Text.bytes (h : IPv4Text s a) : ∀ b ∈ s, isDigit b = true ∨ b = 0x2E := by
  obtain ⟨q, hq, -⟩ := Option.map_eq_some_iff.mp h.parsed
  exact parseIPv4Fields_bytes hq

theorem IPv4Text.parseAddr (h : IPv4Text s a) : parseAddr s = some (a, []) := by
  simp [NetIP.parseAddr, h.first, h.parsed]

theorem IPv6Text.bytes (h : IPv6Text t a) : ∀ b ∈ t, isAddrByte b = true :=
  parseIPv6_bytes h.parsed

theorem IPv4Text.not_mem_colon (h : IPv4Text s a) : 0x3A ∉ s := by
  intro hmem
  exact absurd (h.bytes _ hmem) (by decide)

theorem IPv4Text.not_mem_special (h : IPv4Text s a) : ∀ b ∈ ascii ":[]", b ∉ s := by
  intro b hb hmem
  simp only [ascii] at hb
  simp at hb
  rcases hb with rfl | rfl | rfl <;> exact absurd (h.bytes _ hmem) (by decide)

theorem IPv4Text.not_is6 (h : IPv4Text s a) : a.is6 = false := by
  obtain ⟨q, -, rfl⟩ := Option.map_eq_some_iff.mp h.parsed
  rfl

theorem IPv6Text.is6 (h : IPv6Text t a) : a.is6 = true := by
  have hexpand {f : Fields} (hf : f.expand = some a) : a.is6 = true := by
    unfold Fields.expand at hf
    split at hf
    · obtain ⟨i, -, rfl⟩ := Option.map_eq_some_iff.mp hf
      rfl
    · obtain ⟨-, hf⟩ := Option.ite_none_right_eq_some.mp hf
      cases hf
      rfl
  have hparsed := h.parsed
  unfold parseIPv6 at hparsed
  split_ifs at hparsed
  · cases hparsed
    rfl
  · obtain ⟨f, -, hf⟩ := Option.bind_eq_some_iff.mp hparsed
    exact hexpand hf
  · obtain ⟨f, -, hf⟩ := Option.bind_eq_some_iff.mp hparsed
    exact hexpand hf

theorem IPv6Text.colon (h : IPv6Text t a) : 0x3A ∈ t := List.mem_of_find?_eq_some h.first

theorem IPv6Text.not_mem_special (h : IPv6Text t a) : ∀ b ∈ ascii "[]", b ∉ t := by
  intro b hb hmem
  simp only [ascii] at hb
  simp at hb
  rcases hb with rfl | rfl <;> exact absurd (h.bytes _ hmem) (by decide)

theorem IPv6Text.not_mem_percent (h : IPv6Text t a) : 0x25 ∉ t := by
  intro hmem
  exact absurd (h.bytes _ hmem) (by decide)

theorem IPv6Text.parseAddr (h : IPv6Text t a) : parseAddr t = some (a, []) := by
  unfold NetIP.parseAddr
  rw [h.first, (span_of_not_mem h.not_mem_percent []).2]
  simp [h.parsed]

/-- The text before a zone still begins like an IPv6 address. -/
theorem find_takeWhile (h : s.find? decisive = some 0x3A) :
    (s.takeWhile (· ≠ 0x25)).find? decisive = some 0x3A := by
  obtain ⟨-, front, rest, rfl, hfront⟩ := List.find?_eq_some_iff_append.mp h
  have hkeep : ∀ c ∈ front, decide (c ≠ 0x25) = true := by
    intro c hc
    have hc' := hfront c hc
    simp only [decisive, Bool.not_eq_true', Bool.or_eq_false_iff, decide_eq_false_iff_not] at hc'
    exact decide_eq_true hc'.2
  rw [List.takeWhile_append_of_pos hkeep, List.takeWhile_cons_of_pos (by decide)]
  exact List.find?_eq_some_iff_append.mpr ⟨rfl, front, _, rfl, hfront⟩

theorem parseAddr_cases (h : parseAddr s = some (a, zone)) :
    IPv4Text s a ∧ zone = [] ∨
      ∃ t, IPv6Text t a ∧ (s = t ∧ zone = [] ∨ s = t ++ 0x25 :: zone ∧ zone ≠ []) := by
  unfold parseAddr at h
  split at h
  · cases h
  · rename_i c hfirst
    split_ifs at h with hpoint hcolon
    · rw [hpoint] at hfirst
      simp only [Option.map_eq_some_iff, Prod.mk.injEq] at h
      obtain ⟨a', hparsed, rfl, rfl⟩ := h
      exact Or.inl ⟨⟨hfirst, hparsed⟩, rfl⟩
    · rw [hcolon] at hfirst
      have hfront := find_takeWhile hfirst
      have hjoin := List.takeWhile_append_dropWhile (p := fun b => decide (b ≠ 0x25)) (l := s)
      rw [List.span_eq_takeWhile_dropWhile] at h
      generalize s.takeWhile (fun b => decide (b ≠ 0x25)) = t at h hfront hjoin
      right
      split at h
      · rename_i t' heq
        obtain ⟨rfl, hrest⟩ := Prod.mk.inj heq
        simp only [Option.map_eq_some_iff, Prod.mk.injEq] at h
        obtain ⟨a', hparsed, rfl, rfl⟩ := h
        rw [hrest, List.append_nil] at hjoin
        exact ⟨t, ⟨hfront, hparsed⟩, Or.inl ⟨hjoin.symm, rfl⟩⟩
      · rename_i t' b zone' heq
        obtain ⟨rfl, hrest⟩ := Prod.mk.inj heq
        split at h
        · cases h
        · rename_i hzone
          simp only [Option.map_eq_some_iff, Prod.mk.injEq] at h
          obtain ⟨a', hparsed, rfl, rfl⟩ := h
          have hb : b = 0x25 := by
            have hhead := List.head?_dropWhile_not (fun b => decide (b ≠ 0x25)) s
            rw [hrest] at hhead
            simpa using hhead
          rw [hrest, hb] at hjoin
          exact ⟨t, ⟨hfront, hparsed⟩, Or.inr ⟨hjoin.symm, hzone⟩⟩

theorem ip4Text_of_parseAddr (h : parseAddr s = some (a, [])) (ha : a.is6 = false) :
    IPv4Text s a := by
  rcases parseAddr_cases h with ⟨h4, -⟩ | ⟨t, h6, -⟩
  · exact h4
  · rw [h6.is6] at ha
    cases ha

theorem ip6Text_of_parseAddr (h : parseAddr s = some (a, [])) (ha : a.is6 = true) :
    IPv6Text s a := by
  rcases parseAddr_cases h with ⟨h4, -⟩ | ⟨t, h6, ⟨rfl, -⟩ | ⟨-, hne⟩⟩
  · rw [h4.not_is6] at ha
    cases ha
  · exact h6
  · exact absurd rfl hne

theorem colon_mem_iff (h : parseAddr s = some (a, zone)) : 0x3A ∈ s ↔ a.is6 = true := by
  rcases parseAddr_cases h with ⟨h4, -⟩ | ⟨t, h6, ⟨rfl, -⟩ | ⟨rfl, -⟩⟩
  · simp [h4.not_mem_colon, h4.not_is6]
  · simp [h6.colon, h6.is6]
  · simp [h6.colon, h6.is6]

theorem head_of_parseAddr (h : parseAddr s = some (a, zone)) :
    ∃ b, s.head? = some b ∧ isAddrByte b = true := by
  have hhead {t : GoString} (hne : t ≠ []) (hbytes : ∀ b ∈ t, isAddrByte b = true)
      (rest : GoString) : ∃ b, (t ++ rest).head? = some b ∧ isAddrByte b = true := by
    obtain ⟨b, t, rfl⟩ := List.exists_cons_of_ne_nil hne
    exact ⟨b, rfl, hbytes b List.mem_cons_self⟩
  rcases parseAddr_cases h with ⟨h4, -⟩ | ⟨t, h6, hs⟩
  · have hne : s ≠ [] := by
      rintro rfl
      cases h4.first
    have hbytes : ∀ b ∈ s, isAddrByte b = true := by
      intro b hb
      rcases h4.bytes b hb with hd | rfl
      · exact isAddrByte_of_digit hd
      · rfl
    simpa using hhead hne hbytes []
  · have hne : t ≠ [] := List.ne_nil_of_mem h6.colon
    rcases hs with ⟨rfl, -⟩ | ⟨rfl, -⟩
    · simpa using hhead hne h6.bytes []
    · exact hhead hne h6.bytes _

theorem parseIP_bytes (h : parseIP s = some a) : ∀ b ∈ s, isAddrByte b = true := by
  obtain ⟨⟨a', zone⟩, hparse, hzone⟩ := Option.bind_eq_some_iff.mp h
  have hnil : zone = [] := (Option.ite_none_right_eq_some.mp hzone).1
  rcases parseAddr_cases hparse with ⟨h4, -⟩ | ⟨t, h6, ⟨rfl, -⟩ | ⟨-, hne⟩⟩
  · intro b hb
    rcases h4.bytes b hb with hd | rfl
    · exact isAddrByte_of_digit hd
    · rfl
  · exact h6.bytes
  · exact absurd hnil hne

/-! ### Hosts and ports -/

section

variable {host port inner : GoString}

theorem splitHostPort_eq (s : GoString) : splitHostPort s =
    (cutLast 0x3A s).bind fun (host, port) =>
      if s.head? = some 0x5B then
        match (host.drop 1).span (· ≠ 0x5D) with
        | (inner, [_]) =>
          if 0x5B ∈ inner ∨ 0x5B ∈ port ∨ 0x5D ∈ port then none else some (inner, port)
        | _ => none
      else if 0x3A ∈ host ∨ 0x5B ∈ s ∨ 0x5D ∈ s then none
      else some (host, port) := by
  unfold splitHostPort cutLast
  generalize List.span (fun b : UInt8 => decide (b ≠ 0x3A)) s.reverse = cut
  rcases cut with ⟨port, _ | ⟨c, host⟩⟩
  · rfl
  · rfl

theorem splitHostPort_of_not_mem (hs : 0x3A ∉ s) : splitHostPort s = none := by
  rw [splitHostPort_eq, cutLast_of_not_mem hs]
  rfl

theorem splitHostPort_plain (hhost : ∀ b ∈ ascii ":[]", b ∉ host)
    (hport : ∀ b ∈ ascii ":[]", b ∉ port) :
    splitHostPort (host ++ 0x3A :: port) = some (host, port) := by
  have hopen : 0x5B ∉ host ++ 0x3A :: port := by
    simp [hhost 0x5B (by decide), hport 0x5B (by decide)]
  have hclose : 0x5D ∉ host ++ 0x3A :: port := by
    simp [hhost 0x5D (by decide), hport 0x5D (by decide)]
  have hhead : (host ++ 0x3A :: port).head? ≠ some 0x5B := by
    intro hhead
    exact hopen (List.mem_of_mem_head? hhead)
  rw [splitHostPort_eq, cutLast_append (hport 0x3A (by decide)), Option.bind_some]
  dsimp only
  rw [if_neg hhead, if_neg]
  rintro (hmem | hmem | hmem)
  · exact hhost 0x3A (by decide) hmem
  · exact hopen hmem
  · exact hclose hmem

/-- `net.SplitHostPort` takes a literal out of its brackets. -/
theorem splitHostPort_bracket (hhost : ∀ b ∈ ascii "[]", b ∉ host)
    (hport : ∀ b ∈ ascii ":[]", b ∉ port) :
    splitHostPort (ascii "[" ++ host ++ ascii "]" ++ 0x3A :: port) = some (host, port) := by
  have hspan := (span_of_not_mem (hhost 0x5D (by decide)) []).1
  have hhead : (ascii "[" ++ host ++ ascii "]" ++ 0x3A :: port).head? = some 0x5B := rfl
  have hdrop : (ascii "[" ++ host ++ ascii "]").drop 1 = host ++ [0x5D] := rfl
  rw [splitHostPort_eq, cutLast_append (hport 0x3A (by decide)), Option.bind_some]
  dsimp only
  rw [if_pos hhead, hdrop, hspan]
  dsimp only
  rw [if_neg]
  rintro (hmem | hmem | hmem)
  · exact hhost 0x5B (by decide) hmem
  · exact hport 0x5B (by decide) hmem
  · exact hport 0x5D (by decide) hmem

theorem eq_of_splitHostPort_bracket (h : splitHostPort (0x5B :: s) = some (inner, port)) :
    s = inner ++ 0x5D :: 0x3A :: port := by
  rw [splitHostPort_eq] at h
  obtain ⟨⟨before, after⟩, hcut, h⟩ := Option.bind_eq_some_iff.mp h
  obtain ⟨hs, -⟩ := eq_of_cutLast hcut
  dsimp only at h
  rw [List.head?_cons, if_pos rfl] at h
  split at h
  · rename_i t b hspan
    obtain ⟨hdrop, -, hhead⟩ := eq_of_span hspan
    have hresult := (Option.ite_none_left_eq_some.mp h).2
    cases hresult
    cases before with
    | nil => cases hs
    | cons c before =>
      rw [(List.cons.inj hs).2]
      rw [List.drop_one, List.tail_cons, hhead b rfl] at hdrop
      simp [hdrop]
  · cases h

end

end Patchli.NetIP
