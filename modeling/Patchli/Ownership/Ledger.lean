import Mathlib.Tactic

/-!
# Ledgers of node identities

What enrollment is for, apart from tables and statements: every node has a claim,
which says until when its identity is taken, and a list of refresh tokens with
their expiries. Events carry the clock `b` they compare expiries with. In a
`World` that clock may lag behind the time at which the event takes effect.
-/

namespace Patchli.Ownership

variable {ν τ T : Type*}

structure Ledger (τ T : Type*) where
  tokens : List (τ × T)
  claim : Option T

inductive Event (τ T : Type*)
  | enrolled (new : τ) (expires : T)
  | rotated (old new : τ) (expires : T)
  /-- A token was presented that is not redeemable. -/
  | reused (old : τ)
  | revoked

def Event.redeemed : Event τ T → Option τ
  | .rotated old _ _ => some old
  | _ => none

def Event.presented : Event τ T → Option τ
  | .rotated old _ _ | .reused old => some old
  | _ => none

def Event.stored : Event τ T → Option τ
  | .enrolled new _ | .rotated _ new _ => some new
  | _ => none

variable [LinearOrder T] [DecidableEq τ]

def Ledger.Redeemable (l : Ledger τ T) (b : T) (old : τ) : Prop :=
  ∃ e, (old, e) ∈ l.tokens ∧ b < e

/-- The tokens left when `old` is redeemed at clock `b`. -/
def Ledger.without (l : Ledger τ T) (b : T) (old : τ) : List (τ × T) :=
  l.tokens.filter fun p => !(decide (p.1 = old) && decide (b < p.2))

theorem Ledger.mem_without {l : Ledger τ T} {b : T} {old : τ} {p : τ × T} :
    p ∈ l.without b old ↔ p ∈ l.tokens ∧ ¬ (p.1 = old ∧ b < p.2) := by
  simp only [Ledger.without, List.mem_filter, Bool.not_eq_true', Bool.and_eq_false_iff,
    decide_eq_false_iff_not, not_and_or]

inductive Move (b : T) : Event τ T → Ledger τ T → Ledger τ T → Prop
  | enrolled {l : Ledger τ T} {new : τ} {e : T} : (∀ c, l.claim = some c → c ≤ b) →
      Move b (.enrolled new e) l ⟨l.tokens ++ [(new, e)], some e⟩
  | rotated {l : Ledger τ T} {old new : τ} {e : T} : l.Redeemable b old →
      Move b (.rotated old new e) l
        ⟨l.without b old ++ [(new, e)], some (l.claim.elim e fun c => max c e)⟩
  | reused {l : Ledger τ T} {old : τ} : ¬ l.Redeemable b old →
      Move b (.reused old) l ⟨[], l.claim⟩
  | revoked {l : Ledger τ T} : Move b .revoked l ⟨[], none⟩

theorem Move.lapsed {b : T} {new : τ} {e : T} {l l' : Ledger τ T}
    (h : Move b (.enrolled new e) l l') : ∀ c, l.claim = some c → c ≤ b := by
  cases h with
  | enrolled hclaim => exact hclaim

theorem Move.redeemable {b : T} {old new : τ} {e : T} {l l' : Ledger τ T}
    (h : Move b (.rotated old new e) l l') : l.Redeemable b old := by
  cases h with
  | rotated hold => exact hold

theorem Move.unredeemable {b : T} {old : τ} {l l' : Ledger τ T} (h : Move b (.reused old) l l') :
    ¬ l.Redeemable b old := by
  cases h with
  | reused hold => exact hold

structure Entry (ν τ T : Type*) where
  node : ν
  event : Event τ T
  begun : T
  committed : T

/-- All ledgers, the current time, and the history of events. -/
structure World (ν τ T : Type*) where
  now : T
  ledger : ν → Ledger τ T
  log : List (Entry ν τ T)

variable [DecidableEq ν]

inductive Step : World ν τ T → World ν τ T → Prop
  | tick {w : World ν τ T} {t : T} : w.now ≤ t → Step w { w with now := t }
  | move {w : World ν τ T} {n : ν} {ev : Event τ T} {b : T} {l : Ledger τ T} :
      b ≤ w.now → Move b ev (w.ledger n) l →
      Step w { w with
        ledger := Function.update w.ledger n l
        log := w.log ++ [⟨n, ev, b, w.now⟩] }

theorem step_cases {w x : World ν τ T} (hs : Step w x) :
    (w.now ≤ x.now ∧ x.ledger = w.ledger ∧ x.log = w.log) ∨
      ∃ n ev b, b ≤ w.now ∧ x.now = w.now ∧ Move b ev (w.ledger n) (x.ledger n) ∧
        (∀ m, m ≠ n → x.ledger m = w.ledger m) ∧ x.log = w.log ++ [⟨n, ev, b, w.now⟩] := by
  cases hs with
  | tick hle => exact Or.inl ⟨hle, rfl, rfl⟩
  | @move n ev b l hb hmove =>
    refine Or.inr ⟨n, ev, b, hb, rfl, ?_, ?_, rfl⟩
    · simpa using hmove
    · intro m hm
      simp [hm]

theorem step_appended {w x : World ν τ T} {y : Entry ν τ T} (hs : Step w x)
    (hlog : x.log = w.log ++ [y]) :
    y.begun ≤ w.now ∧ Move y.begun y.event (w.ledger y.node) (x.ledger y.node) := by
  rcases step_cases hs with ⟨-, -, hsame⟩ | ⟨n, ev, b, hb, -, hmove, -, hmore⟩
  · rw [hlog] at hsame
    simp at hsame
  · obtain rfl : y = ⟨n, ev, b, w.now⟩ := by simpa [hlog] using hmore
    exact ⟨hb, hmove⟩

/-- Reachability, by steps in either layer's order. -/
abbrev Reaches : World ν τ T → World ν τ T → Prop := Relation.ReflTransGen Step

theorem Reaches.invariant {I : World ν τ T → Prop} (hstep : ∀ w x, I w → Step w x → I x)
    {w x : World ν τ T} (hw : I w) (h : Reaches w x) : I x := by
  induction h with
  | refl => exact hw
  | tail _ hs ih => exact hstep _ _ ih hs

end Patchli.Ownership
