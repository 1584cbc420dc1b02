import Patchli.Foundation.Cut

/-!
# Go strings as texts

The characters of a Go string in UTF-8. No byte of another character looks like ASCII.
-/

namespace Patchli.Chars

open GoString

def encode (s : List Char) : GoString := s.flatMap String.utf8EncodeChar

def decode (s : GoString) : Option (List Char) := s.toByteArray.utf8Decode?.map Array.toList

theorem decode_encode (s : List Char) : decode (encode s) = some s := by
  have h : (encode s).toByteArray.utf8Decode? = some s.toArray := List.utf8Decode?_utf8Encode
  rw [decode, h]
  rfl

theorem encode_append (s t : List Char) : encode (s ++ t) = encode s ++ encode t :=
  List.flatMap_append

theorem encode_char {c : Char} (hc : c.toNat < 0x80) :
    String.utf8EncodeChar c = [c.toNat.toUInt8] := by
  have hle : c.val.toNat ≤ 0x7F := Nat.le_of_lt_succ hc
  unfold String.utf8EncodeChar
  exact if_pos hle

theorem encode_cons (c : Char) (s : List Char) :
    encode (c :: s) = String.utf8EncodeChar c ++ encode s := List.flatMap_cons

def isAscii (s : List Char) : Bool := s.all fun c => c.toNat < 0x80

theorem encode_map {s : List Char} (hs : isAscii s = true) :
    encode s = s.map fun c => c.toNat.toUInt8 := by
  induction s with
  | nil => rfl
  | cons c s ih =>
    simp only [isAscii, List.all_cons, Bool.and_eq_true, decide_eq_true_eq] at hs
    rw [encode_cons, encode_char hs.1, ih hs.2]
    rfl

theorem encode_ascii {s : String} (hs : isAscii s.toList = true) : encode s.toList = ascii s :=
  encode_map hs

theorem high_of_not_ascii {c : Char} (hc : ¬c.toNat < 0x80) :
    ∀ b ∈ String.utf8EncodeChar c, 0x80 ≤ b.toNat := by
  have hhigh {n : ℕ} (hn : 0x80 ≤ n) (hlt : n < 0x100) : 0x80 ≤ (UInt8.ofNat n).toNat := by
    rw [UInt8.toNat_ofNat', Nat.mod_eq_of_lt hlt]
    exact hn
  have hnot : ¬c.val.toNat ≤ 0x7F := fun h => hc (Nat.lt_succ_of_le h)
  unfold String.utf8EncodeChar
  dsimp only
  rw [if_neg hnot]
  split_ifs
  · simp only [List.forall_mem_cons]
    exact ⟨hhigh (by omega) (by omega), hhigh (by omega) (by omega), nofun⟩
  · simp only [List.forall_mem_cons]
    exact ⟨hhigh (by omega) (by omega), hhigh (by omega) (by omega), hhigh (by omega) (by omega),
      nofun⟩
  · simp only [List.forall_mem_cons]
    exact ⟨hhigh (by omega) (by omega), hhigh (by omega) (by omega), hhigh (by omega) (by omega),
      hhigh (by omega) (by omega), nofun⟩

theorem toUInt8_inj {m n : ℕ} (hm : m < 0x80) (hn : n < 0x80) (h : m.toUInt8 = n.toUInt8) :
    m = n := by
  have hnat := congrArg UInt8.toNat h
  simp only [Nat.toUInt8, UInt8.toNat_ofNat'] at hnat
  omega

theorem replaceByte_append (b : UInt8) (new s t : GoString) :
    replaceByte b new (s ++ t) = replaceByte b new s ++ replaceByte b new t := List.flatMap_append

theorem replaceByte_of_not_mem {b : UInt8} {s : GoString} (hb : b ∉ s) (new : GoString) :
    replaceByte b new s = s := by
  induction s with
  | nil => rfl
  | cons c s ih =>
    rw [List.mem_cons, not_or] at hb
    simp only [replaceByte, List.flatMap_cons, if_neg (Ne.symm hb.1)]
    exact congrArg (c :: ·) (ih hb.2)

theorem replaceByte_encode {c₀ : Char} (h₀ : c₀.toNat < 0x80) (new s : List Char) :
    replaceByte c₀.toNat.toUInt8 (encode new) (encode s) =
      encode (s.flatMap fun c => if c = c₀ then new else [c]) := by
  have hchar (c : Char) : replaceByte c₀.toNat.toUInt8 (encode new) (String.utf8EncodeChar c) =
      encode (if c = c₀ then new else [c]) := by
    by_cases hascii : c.toNat < 0x80
    · by_cases hc : c = c₀
      · simp [hc, encode_char h₀, replaceByte]
      · have hne : c.toNat.toUInt8 ≠ c₀.toNat.toUInt8 := by
          intro heq
          exact hc (Char.toNat_inj.mp (toUInt8_inj hascii h₀ heq))
        simp [hc, hne, encode_char hascii, replaceByte, encode]
    · have hmem : c₀.toNat.toUInt8 ∉ String.utf8EncodeChar c := by
        intro hmem
        have hhigh := high_of_not_ascii hascii _ hmem
        simp only [Nat.toUInt8, UInt8.toNat_ofNat'] at hhigh
        omega
      have hc : c ≠ c₀ := by
        rintro rfl
        exact hascii h₀
      simp [replaceByte_of_not_mem hmem, hc, encode]
  induction s with
  | nil => rfl
  | cons c s ih => rw [encode_cons, replaceByte_append, hchar, ih, List.flatMap_cons, encode_append]

end Patchli.Chars
