import Patchli.Ownership.Ledger

/-!
# Claims, expiry and stale clocks

The claim of a node outlasts its unexpired tokens, whichever clocks the events
use. So a token is stored beside another one that has not expired only when an
event redeems a token on a clock older than its expiry.
-/

namespace Patchli.Ownership

variable {ν τ T : Type*} [LinearOrder T]

/-- The claim lasts at least as long as the token. -/
def Ledger.Covers (l : Ledger τ T) (e : T) : Prop := ∃ c, l.claim = some c ∧ e ≤ c

/-- Every token that has not expired at `t` is covered. -/
def Ledger.Claimed (l : Ledger τ T) (t : T) : Prop :=
  ∀ p ∈ l.tokens, t < p.2 → l.Covers p.2

theorem Ledger.Claimed.mono {l : Ledger τ T} {s t : T} (h : l.Claimed s) (hst : s ≤ t) :
    l.Claimed t :=
  fun p hp ht => h p hp (hst.trans_lt ht)

theorem Ledger.Claimed.expired {l : Ledger τ T} {b t : T} (h : l.Claimed t) (hbt : b ≤ t)
    (hclaim : ∀ c, l.claim = some c → c ≤ b) : ∀ p ∈ l.tokens, p.2 ≤ t := by
  intro p hp
  by_contra hlt
  obtain ⟨c, hc, hpc⟩ := h p hp (not_le.mp hlt)
  exact hlt (hpc.trans ((hclaim c hc).trans hbt))

def Event.row : Event τ T → Option (τ × T)
  | .enrolled new e | .rotated _ new e => some (new, e)
  | .reused _ | .revoked => none

/-- The tokens that have not expired at `t`. -/
def Ledger.live (l : Ledger τ T) (t : T) : List (τ × T) :=
  l.tokens.filter fun p => decide (t < p.2)

theorem Ledger.mem_live {l : Ledger τ T} {t : T} {p : τ × T} :
    p ∈ l.live t ↔ p ∈ l.tokens ∧ t < p.2 := by
  simp [Ledger.live]

theorem Ledger.live_length_mono {l : Ledger τ T} {s t : T} (hst : s ≤ t) :
    (l.live t).length ≤ (l.live s).length := by
  have hsub : (l.live t).Sublist (l.live s) := by
    refine List.monotone_filter_right _ fun p hp => ?_
    simp only [decide_eq_true_eq] at hp ⊢
    exact hst.trans_lt hp
  exact hsub.length_le

/-- An enrollment with an expiry already past on its own clock shortens the claim. -/
def Event.Timely (b : T) : Event τ T → Prop
  | .enrolled _ e => b ≤ e
  | _ => True

section Moves

variable [DecidableEq τ] {b t : T} {ev : Event τ T} {l l' : Ledger τ T}

/-- Events keep tokens covered: those unexpired at `t` whatever the clock of the
event, as long as it is not ahead of `t`, and all of them if enrollments are timely. -/
theorem Move.claimed (h : Move b ev l l') (hev : b ≤ t ∨ ev.Timely b) (hl : l.Claimed t) :
    l'.Claimed t := by
  cases h with
  | enrolled hclaim =>
    intro p hp ht
    rcases List.mem_append.mp hp with hp | hp
    · obtain ⟨c, hc, hpc⟩ := hl p hp ht
      have hpb : p.2 ≤ b := hpc.trans (hclaim c hc)
      rcases hev with hbt | hbe
      · exact absurd (hpb.trans hbt) (not_le.mpr ht)
      · exact ⟨_, rfl, hpb.trans hbe⟩
    · obtain rfl := List.mem_singleton.mp hp
      exact ⟨_, rfl, le_rfl⟩
  | rotated =>
    intro p hp ht
    rcases List.mem_append.mp hp with hp | hp
    · obtain ⟨c, hc, hpc⟩ := hl p (Ledger.mem_without.mp hp).1 ht
      exact ⟨_, rfl, by simpa [hc] using Or.inl hpc⟩
    · obtain rfl := List.mem_singleton.mp hp
      refine ⟨_, rfl, ?_⟩
      cases l.claim <;> simp
  | reused | revoked => exact fun p hp => nomatch hp

theorem Move.row_covered (h : Move b ev l l') {p : τ × T} (hp : ev.row = some p) :
    p ∈ l'.tokens ∧ l'.Covers p.2 := by
  cases h with
  | enrolled =>
    cases hp
    exact ⟨by simp, _, rfl, le_rfl⟩
  | rotated =>
    cases hp
    refine ⟨by simp, _, rfl, ?_⟩
    cases l.claim <;> simp
  | reused | revoked => cases hp

omit [DecidableEq τ] in
theorem Ledger.live_concat (ps : List (τ × T)) (p : τ × T) (c : Option T)
    (hps : ∀ q ∈ ps, q.2 ≤ t) : ((⟨ps ++ [p], c⟩ : Ledger τ T).live t).length ≤ 1 := by
  have hnil : ps.filter (fun q => decide (t < q.2)) = [] :=
    List.filter_eq_nil_iff.mpr fun q hq => by simpa using hps q hq
  rw [Ledger.live, List.filter_append, hnil, List.nil_append]
  exact List.length_filter_le _ _

/-- The one event that can store a token beside an unexpired one is a rotation
that redeems some other token. -/
theorem Move.live_le_one (h : Move b ev l l') (hbt : b ≤ t) (hl : l.Claimed t)
    (hev : ∀ old new e, ev = .rotated old new e → ∀ p ∈ l.live t, p.1 = old) :
    (l'.live t).length ≤ 1 := by
  cases h with
  | enrolled hclaim => exact Ledger.live_concat _ _ _ (hl.expired hbt hclaim)
  | rotated =>
    refine Ledger.live_concat _ _ _ fun p hp => ?_
    obtain ⟨hp, hkept⟩ := Ledger.mem_without.mp hp
    by_contra hlt
    exact hkept ⟨hev _ _ _ rfl p (Ledger.mem_live.mpr ⟨hp, not_le.mp hlt⟩),
      hbt.trans_lt (not_le.mp hlt)⟩
  | reused | revoked => exact Nat.zero_le 1

end Moves

section Worlds

variable [DecidableEq τ] [DecidableEq ν]

theorem claimed_step {w x : World ν τ T}
    (h : ∀ n, (w.ledger n).Claimed w.now)
    (hs : Step w x) : ∀ n, (x.ledger n).Claimed x.now := by
  rcases step_cases hs with ⟨hle, hledger, -⟩ | ⟨n, ev, b, hb, hnow, hmove, hframe, -⟩
  · intro n
    rw [hledger]
    exact (h n).mono hle
  · intro m
    rw [hnow]
    by_cases hm : m = n
    · subst hm
      exact hmove.claimed (Or.inl hb) (h m)
    · rw [hframe m hm]
      exact h m

/-- If every enrollment of a node was timely, its tokens that expire after `t` are covered
for good. -/
theorem claimed_of_timely_step {t : T} {w x : World ν τ T} {m : ν}
    (h : (∀ y ∈ w.log, y.node = m → y.event.Timely y.begun) → (w.ledger m).Claimed t)
    (hs : Step w x) (hx : ∀ y ∈ x.log, y.node = m → y.event.Timely y.begun) :
    (x.ledger m).Claimed t := by
  rcases step_cases hs with ⟨-, hledger, hlog⟩ | ⟨n, ev, b, -, -, hmove, hframe, hlog⟩
  · rw [hledger]
    exact h (hlog ▸ hx)
  · rw [hlog] at hx
    have hw := h fun y hy => hx y (List.mem_append_left _ hy)
    by_cases hm : m = n
    · subst hm
      exact hmove.claimed (Or.inr (hx ⟨m, ev, b, w.now⟩ (by simp) rfl)) hw
    · rw [hframe m hm]
      exact hw

end Worlds

end Patchli.Ownership
