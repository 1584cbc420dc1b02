import Patchli.Foundation.GoString

/-!
# Base64

`base64.StdEncoding`. Decoding skips line breaks; strict decoding also wants the
unused bits of the last character to be zero.
-/

namespace Patchli.Base64

/-- The character of six bits. -/
def char (n : ℕ) : UInt8 :=
  if n < 26 then (0x41 + n).toUInt8
  else if n < 52 then (0x61 + (n - 26)).toUInt8
  else if n < 62 then (0x30 + (n - 52)).toUInt8
  else if n = 62 then 0x2B
  else 0x2F

def sextet (c : UInt8) : Option ℕ :=
  if 0x41 ≤ c ∧ c ≤ 0x5A then some (c.toNat - 0x41)
  else if 0x61 ≤ c ∧ c ≤ 0x7A then some (c.toNat - 0x61 + 26)
  else if 0x30 ≤ c ∧ c ≤ 0x39 then some (c.toNat - 0x30 + 52)
  else if c = 0x2B then some 62
  else if c = 0x2F then some 63
  else none

def pad : UInt8 := 0x3D

/-- `EncodeToString`. -/
def encode : GoString → GoString
  | [] => []
  | [a] => [char (a.toNat / 4), char (a.toNat % 4 * 16), pad, pad]
  | [a, b] =>
    [char (a.toNat / 4), char (a.toNat % 4 * 16 + b.toNat / 16), char (b.toNat % 16 * 4), pad]
  | a :: b :: c :: r =>
    char (a.toNat / 4) :: char (a.toNat % 4 * 16 + b.toNat / 16) ::
      char (b.toNat % 16 * 4 + c.toNat / 64) :: char (c.toNat % 64) :: encode r

/-- The bytes of groups of four characters. -/
def decodeQuanta (strict : Bool) : GoString → Option GoString
  | [] => some []
  | c₀ :: c₁ :: c₂ :: c₃ :: r => do
    let v₀ ← sextet c₀
    let v₁ ← sextet c₁
    let a := (v₀ * 4 + v₁ / 16).toUInt8
    if c₂ = pad then
      if c₃ = pad ∧ r = [] ∧ (strict → v₁ % 16 = 0) then some [a] else none
    else
      let v₂ ← sextet c₂
      let b := (v₁ % 16 * 16 + v₂ / 4).toUInt8
      if c₃ = pad then
        if r = [] ∧ (strict → v₂ % 4 = 0) then some [a, b] else none
      else
        let v₃ ← sextet c₃
        (decodeQuanta strict r).map fun bs => a :: b :: (v₂ % 4 * 64 + v₃).toUInt8 :: bs
  | _ => none

def isLineBreak (c : UInt8) : Bool := c = 0x0A || c = 0x0D

/-- `DecodeString`. -/
def decode (strict : Bool) (s : GoString) : Option GoString :=
  decodeQuanta strict (s.filter fun c => !isLineBreak c)

theorem char_spec : ∀ n < 64, sextet (char n) = some n ∧ char n ≠ pad ∧
    isLineBreak (char n) = false ∧ char n < 0x80 := by
  decide

theorem toUInt8_toNat {n : ℕ} {a : UInt8} (h : n = a.toNat) : n.toUInt8 = a := by
  rw [h]
  exact UInt8.ofNat_toNat

theorem encode_chars (s : GoString) :
    ∀ c ∈ encode s, isLineBreak c = false ∧ c < 0x80 := by
  have hchar {n : ℕ} (hn : n < 64) : isLineBreak (char n) = false ∧ char n < 0x80 :=
    (char_spec n hn).2.2
  have hpad : isLineBreak pad = false ∧ pad < 0x80 := by decide
  fun_induction encode s with
  | case1 => exact nofun
  | case2 a =>
    have ha := a.toNat_lt
    simp only [List.forall_mem_cons]
    exact ⟨hchar (by omega), hchar (by omega), hpad, hpad, nofun⟩
  | case3 a b =>
    have ha := a.toNat_lt
    have hb := b.toNat_lt
    simp only [List.forall_mem_cons]
    exact ⟨hchar (by omega), hchar (by omega), hchar (by omega), hpad, nofun⟩
  | case4 a b c r ih =>
    have ha := a.toNat_lt
    have hb := b.toNat_lt
    have hc := c.toNat_lt
    simp only [List.forall_mem_cons]
    exact ⟨hchar (by omega), hchar (by omega), hchar (by omega), hchar (by omega), ih⟩

theorem decodeQuanta_encode (strict : Bool) (s : GoString) :
    decodeQuanta strict (encode s) = some s := by
  have hsextet {n : ℕ} (hn : n < 64) : sextet (char n) = some n := (char_spec n hn).1
  have hne {n : ℕ} (hn : n < 64) : char n ≠ pad := (char_spec n hn).2.1
  fun_induction encode s with
  | case1 => rfl
  | case2 a =>
    have ha := a.toNat_lt
    simp only [decodeQuanta, hsextet (n := a.toNat / 4) (by omega),
      hsextet (n := a.toNat % 4 * 16) (by omega), Option.bind_eq_bind, Option.bind_some, if_true]
    rw [if_pos ⟨trivial, trivial, fun _ => by omega⟩, toUInt8_toNat (a := a) (by omega)]
  | case3 a b =>
    have ha := a.toNat_lt
    have hb := b.toNat_lt
    simp only [decodeQuanta, hsextet (n := a.toNat / 4) (by omega),
      hsextet (n := a.toNat % 4 * 16 + b.toNat / 16) (by omega),
      hsextet (n := b.toNat % 16 * 4) (by omega), hne (n := b.toNat % 16 * 4) (by omega),
      Option.bind_eq_bind, Option.bind_some, if_true, if_false]
    rw [if_pos ⟨trivial, fun _ => by omega⟩, toUInt8_toNat (a := a) (by omega),
      toUInt8_toNat (a := b) (by omega)]
  | case4 a b c r ih =>
    have ha := a.toNat_lt
    have hb := b.toNat_lt
    have hc := c.toNat_lt
    simp only [decodeQuanta, hsextet (n := a.toNat / 4) (by omega),
      hsextet (n := a.toNat % 4 * 16 + b.toNat / 16) (by omega),
      hsextet (n := b.toNat % 16 * 4 + c.toNat / 64) (by omega),
      hsextet (n := c.toNat % 64) (by omega),
      hne (n := b.toNat % 16 * 4 + c.toNat / 64) (by omega),
      hne (n := c.toNat % 64) (by omega), Option.bind_eq_bind, Option.bind_some, if_false, ih,
      Option.map_some]
    rw [toUInt8_toNat (a := a) (by omega), toUInt8_toNat (a := b) (by omega),
      toUInt8_toNat (a := c) (by omega)]

theorem decode_encode (strict : Bool) (s : GoString) : decode strict (encode s) = some s := by
  unfold decode
  rw [List.filter_eq_self.mpr, decodeQuanta_encode]
  intro c hc
  simp [(encode_chars s c hc).1]

theorem encode_ne_nil {s : GoString} (hs : s ≠ []) : encode s ≠ [] := by
  intro h
  have hdecode := decode_encode true s
  rw [h] at hdecode
  exact hs (Option.some.inj hdecode).symm

end Patchli.Base64
