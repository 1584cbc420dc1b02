import Patchli.Foundation.Decimal
import Patchli.Foundation.Padded
import Patchli.Foundation.Text

/-!
# Agent versions

`parseVersion` and `isNewerVersion` of `main.go`. Accepted versions are ordered as their
numeric components are, a missing one counting as zero.
-/

namespace Patchli.Agent

open Decimal Text

/-! ### Texts -/

/-- `strconv.Atoi`. -/
def atoi (s : GoString) : Option ℤ :=
  let n := match s with
    | 0x2B :: ds => (parseNat ds).map fun n : ℕ => (n : ℤ)
    | _ => parseInt s
  n.filter fun i => -2 ^ 63 ≤ i ∧ i < 2 ^ 63

/-! ### Versions -/

/-- The numeric components of a version such as `v1.2.3`. -/
def parseVersion (v : GoString) : Option (List ℤ) :=
  let v := trimPrefix (trimSpace v) (ascii "v")
  let v := v.takeWhile fun b => b ≠ 0x2D ∧ b ≠ 0x2B
  if v = [] then none
  else (v.splitOn 0x2E).mapM fun p => (atoi p).filter fun n => 0 ≤ n

/-- The candidate is strictly newer. A development build accepts any valid version. -/
def isNewerVersion (candidate current : GoString) : Bool :=
  match parseVersion candidate with
  | none => false
  | some c =>
    match parseVersion current with
    | none => true
    | some cur => Padded.less cur c

example : isNewerVersion (ascii "v1.10.0") (ascii "1.9.9") = true ∧
    isNewerVersion (ascii "1.2") (ascii "1.2.0") = false ∧
    isNewerVersion (ascii "1.2.3-rc1") (ascii "1.2.2") = true ∧
    isNewerVersion (ascii "1.0.0") (ascii "dev") = true ∧
    isNewerVersion (ascii "garbage") (ascii "1.0.0") = false := by
  decide +kernel

/-- The components are equal after padding with zeros. -/
def SameVersion (u v : GoString) : Prop :=
  ∃ c d, parseVersion u = some c ∧ parseVersion v = some d ∧
    Padded.padTo (max c.length d.length) c = Padded.padTo (max c.length d.length) d

variable {u v w : GoString} {c d : List ℤ}

theorem isNewerVersion_iff (hu : parseVersion u = some c) (hv : parseVersion v = some d) :
    isNewerVersion v u = true ↔ Padded.pad c < Padded.pad d := by
  simp only [isNewerVersion, hu, hv]
  exact Padded.less_iff

theorem sameVersion_iff (hu : parseVersion u = some c) (hv : parseVersion v = some d) :
    SameVersion u v ↔ Padded.pad c = Padded.pad d := by
  rw [Padded.pad_eq_iff]
  constructor
  · rintro ⟨c', d', hu', hv', heq⟩
    obtain rfl := Option.some.inj (hu.symm.trans hu')
    obtain rfl := Option.some.inj (hv.symm.trans hv')
    exact heq
  · intro heq
    exact ⟨c, d, hu, hv, heq⟩

theorem parseVersion_of_newer (h : isNewerVersion v u = true) : ∃ d, parseVersion v = some d := by
  unfold isNewerVersion at h
  split at h
  · cases h
  · exact ⟨_, ‹_›⟩

theorem newer_trans (huv : isNewerVersion v u = true) (hvw : isNewerVersion w v = true) :
    isNewerVersion w u = true := by
  obtain ⟨d, hv⟩ := parseVersion_of_newer huv
  obtain ⟨e, hw⟩ := parseVersion_of_newer hvw
  cases hu : parseVersion u with
  | none => simp [isNewerVersion, hu, hw]
  | some c =>
    rw [isNewerVersion_iff hu hv] at huv
    rw [isNewerVersion_iff hv hw] at hvw
    exact (isNewerVersion_iff hu hw).mpr (huv.trans hvw)

theorem not_sameVersion_of_newer (h : isNewerVersion v u = true) : ¬ SameVersion u v := by
  rintro ⟨c, d, hu, hv, heq⟩
  have hsame : SameVersion u v := ⟨c, d, hu, hv, heq⟩
  rw [sameVersion_iff hu hv] at hsame
  rw [isNewerVersion_iff hu hv, hsame] at h
  exact lt_irrefl _ h

theorem sameVersion_trans (huv : SameVersion u v) (hvw : SameVersion v w) : SameVersion u w := by
  obtain ⟨c, d, hu, hv, -⟩ := id huv
  obtain ⟨d', e, hv', hw, -⟩ := id hvw
  obtain rfl := Option.some.inj (hv.symm.trans hv')
  rw [sameVersion_iff hu hv] at huv
  rw [sameVersion_iff hv hw] at hvw
  exact (sameVersion_iff hu hw).mpr (huv.trans hvw)

theorem incomparable_iff (hu : parseVersion u = some c) (hv : parseVersion v = some d) :
    isNewerVersion u v = false ∧ isNewerVersion v u = false ↔ SameVersion u v := by
  rw [sameVersion_iff hu hv, ← Padded.not_less_iff_pad_eq, and_comm]
  simp only [isNewerVersion, hu, hv]

end Patchli.Agent
