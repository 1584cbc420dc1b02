import Patchli.Ownership.Expiry
import Patchli.Ownership.Tokens

/-!
# Ledgers as replayed histories

The ledger of a node is what the events of the node make of the ledger it started
with. A stored token therefore stays until it is redeemed or the ledger is emptied, and
what an emptied ledger holds was stored afterwards.
-/

namespace Patchli.Ownership

variable {ν τ T : Type*} [LinearOrder T] [DecidableEq τ]

/-- The ledger that an event leaves. -/
def Ledger.apply (l : Ledger τ T) (b : T) : Event τ T → Ledger τ T
  | .enrolled new e => ⟨l.tokens ++ [(new, e)], some e⟩
  | .rotated old new e =>
    ⟨l.without b old ++ [(new, e)], some (l.claim.elim e fun c => max c e)⟩
  | .reused _ => ⟨[], l.claim⟩
  | .revoked => ⟨[], none⟩

/-- Events after which the node holds no token. -/
def Event.Empties : Event τ T → Prop
  | .reused _ | .revoked => True
  | .enrolled _ _ | .rotated _ _ _ => False

instance : DecidablePred (Event.Empties : Event τ T → Prop) := fun ev =>
  match ev with
  | .reused _ | .revoked => isTrue trivial
  | .enrolled _ _ | .rotated _ _ _ => isFalse id

def Ledger.replay (l : Ledger τ T) (ys : List (Entry ν τ T)) : Ledger τ T :=
  ys.foldl (fun l y => l.apply y.begun y.event) l

section Events

variable {b : T} {ev : Event τ T} {l l' : Ledger τ T} {x : τ} {p : τ × T}

theorem Move.eq_apply (h : Move b ev l l') : l' = l.apply b ev := by
  cases h <;> rfl

theorem Ledger.apply_empties (l : Ledger τ T) (b : T) (h : ev.Empties) :
    (l.apply b ev).tokens = [] := by
  cases ev with
  | reused | revoked => rfl
  | enrolled | rotated => exact h.elim

theorem Ledger.mem_apply (h : p ∈ (l.apply b ev).tokens) : p ∈ l.tokens ∨ ev.row = some p := by
  cases ev with
  | enrolled new e =>
    simpa [Ledger.apply, Event.row, eq_comm] using h
  | rotated old new e =>
    simp only [Ledger.apply, List.mem_append, Ledger.mem_without, List.mem_singleton] at h
    exact h.imp And.left fun h => congrArg some h.symm
  | reused | revoked => cases h

theorem Ledger.apply_keeps (hp : p ∈ l.tokens) (hempties : ¬ ev.Empties)
    (hredeemed : ev.redeemed ≠ some p.1) : p ∈ (l.apply b ev).tokens := by
  cases ev with
  | enrolled => exact List.mem_append_left _ hp
  | rotated old new e =>
    refine List.mem_append_left _ (Ledger.mem_without.mpr ⟨hp, ?_⟩)
    rintro ⟨rfl, -⟩
    exact hredeemed rfl
  | reused | revoked => exact absurd trivial hempties

theorem Ledger.row_mem_apply (l : Ledger τ T) (b : T) (h : ev.row = some p) :
    p ∈ (l.apply b ev).tokens := by
  cases ev <;> cases h <;> exact List.mem_append_right _ (List.mem_singleton_self _)

end Events

section Histories

variable {l : Ledger τ T} {y : Entry ν τ T} {ys zs : List (Entry ν τ T)} {x : τ} {p : τ × T}

theorem Ledger.replay_append (l : Ledger τ T) (ys zs : List (Entry ν τ T)) :
    l.replay (ys ++ zs) = (l.replay ys).replay zs := List.foldl_append

theorem Ledger.replay_cons (l : Ledger τ T) (y : Entry ν τ T) (ys : List (Entry ν τ T)) :
    l.replay (y :: ys) = (l.apply y.begun y.event).replay ys := rfl

/-- What a ledger holds it held at first, or an event stored it, and nothing emptied the
ledger since. -/
theorem Ledger.mem_replay (h : p ∈ (l.replay ys).tokens) :
    (p ∈ l.tokens ∧ ∀ y ∈ ys, ¬ y.event.Empties) ∨
      ∃ l₁ y l₂, ys = l₁ ++ y :: l₂ ∧ y.event.row = some p ∧ ∀ z ∈ l₂, ¬ z.event.Empties := by
  induction ys generalizing l with
  | nil => exact Or.inl ⟨h, nofun⟩
  | cons y ys ih =>
    rcases ih h with ⟨hp, hquiet⟩ | ⟨l₁, z, l₂, rfl, hrow, hquiet⟩
    · have hy : ¬ y.event.Empties := by
        intro hempties
        rw [Ledger.apply_empties _ _ hempties] at hp
        cases hp
      rcases Ledger.mem_apply hp with hp | hrow
      · exact Or.inl ⟨hp, List.forall_mem_cons.mpr ⟨hy, hquiet⟩⟩
      · exact Or.inr ⟨[], y, ys, rfl, hrow, hquiet⟩
    · exact Or.inr ⟨y :: l₁, z, l₂, rfl, hrow, hquiet⟩

theorem Ledger.replay_keeps (hp : p ∈ l.tokens)
    (hquiet : ∀ y ∈ ys, ¬ y.event.Empties ∧ y.event.redeemed ≠ some p.1) :
    p ∈ (l.replay ys).tokens := by
  induction ys generalizing l with
  | nil => exact hp
  | cons y ys ih =>
    obtain ⟨hempties, hredeemed⟩ := hquiet y List.mem_cons_self
    exact ih (Ledger.apply_keeps hp hempties hredeemed)
      fun z hz => hquiet z (List.mem_cons_of_mem _ hz)

end Histories

/-! ### Worlds -/

variable [DecidableEq ν] {w x : World ν τ T} {n : ν} {p : τ × T} {l₁ l₂ : List (Entry ν τ T)}
  {y : Entry ν τ T}

/-- The entries of one node. -/
def World.history (w : World ν τ T) (n : ν) : List (Entry ν τ T) := w.log.filter fun y => y.node = n

theorem Reaches.ledger_eq (h : Reaches w x) (hw : w.log = []) (n : ν) :
    x.ledger n = (w.ledger n).replay (x.history n) := by
  induction h with
  | refl => simp [World.history, hw, Ledger.replay]
  | @tail u x _ hs ih =>
    rcases step_cases hs with ⟨-, hledger, hlog⟩ | ⟨m, ev, b, -, -, hmove, hframe, hlog⟩
    · rw [hledger, ih, World.history, World.history, hlog]
    · rw [World.history, hlog, List.filter_append, Ledger.replay_append]
      change x.ledger n = Ledger.replay (Ledger.replay _ (u.history n)) _
      rw [← ih]
      by_cases hm : m = n
      · subst hm
        simp [Ledger.replay, hmove.eq_apply]
      · simp [Ledger.replay, hm, hframe n (Ne.symm hm)]

omit [LinearOrder T] [DecidableEq τ] in
theorem World.history_eq (hlog : x.log = l₁ ++ y :: l₂) (hn : y.node = n) :
    x.history n = l₁.filter (fun z => z.node = n) ++ y :: l₂.filter fun z => z.node = n := by
  simp [World.history, hlog, hn]

/-- The node has got the token, which has not expired, and nothing emptied the node's
ledger since. -/
def World.Current (w x : World ν τ T) (n : ν) (b : T) (t : τ) : Prop :=
  (∃ e, (t, e) ∈ (w.ledger n).tokens ∧ b < e ∧ ∀ z ∈ x.log, z.node = n → ¬ z.event.Empties) ∨
    ∃ l₁ y l₂ e, x.log = l₁ ++ y :: l₂ ∧ y.node = n ∧ y.event.row = some (t, e) ∧ b < e ∧
      ∀ z ∈ l₂, z.node = n → ¬ z.event.Empties

/-- The entries of a node redeem no token but others. -/
def World.Unredeemed (x : World ν τ T) (n : ν) (t : τ) : Prop :=
  ∀ z ∈ x.log, z.node = n → z.event.redeemed ≠ some t

theorem Reaches.redeemable (h : Reaches w x) (hw : w.log = []) {b : T} {t : τ}
    (hcurrent : World.Current w x n b t) (hunredeemed : x.Unredeemed n t) :
    (x.ledger n).Redeemable b t := by
  rw [h.ledger_eq hw]
  rcases hcurrent with ⟨e, hp, hlt, hquiet⟩ | ⟨l₁, y, l₂, e, hlog, hn, hrow, hlt, hquiet⟩
  · refine ⟨e, Ledger.replay_keeps hp fun z hz => ?_, hlt⟩
    obtain ⟨hz, hzn⟩ := List.mem_filter.mp hz
    have hzn : z.node = n := by simpa using hzn
    exact ⟨hquiet z hz hzn, hunredeemed z hz hzn⟩
  · rw [World.history_eq hlog hn, Ledger.replay_append, Ledger.replay_cons]
    refine ⟨e, Ledger.replay_keeps (Ledger.row_mem_apply _ _ hrow) fun z hz => ?_, hlt⟩
    obtain ⟨hz, hzn⟩ := List.mem_filter.mp hz
    have hzn : z.node = n := by simpa using hzn
    exact ⟨hquiet z hz hzn, hunredeemed z (by simp [hlog, hz]) hzn⟩

theorem Reaches.current (h : Reaches w x) (hw : w.log = []) {b : T} {t : τ}
    (hredeemable : (x.ledger n).Redeemable b t) : World.Current w x n b t := by
  obtain ⟨e, hp, hlt⟩ := hredeemable
  rw [h.ledger_eq hw] at hp
  have hquiet {l : List (Entry ν τ T)}
      (hl : ∀ z ∈ l.filter fun y => y.node = n, ¬ z.event.Empties) :
      ∀ z ∈ l, z.node = n → ¬ z.event.Empties :=
    fun z hz hzn => hl z (List.mem_filter.mpr ⟨hz, by simpa using hzn⟩)
  rcases Ledger.mem_replay hp with ⟨hp, hl⟩ | ⟨k₁, y, k₂, hk, hrow, hl⟩
  · exact Or.inl ⟨e, hp, hlt, hquiet hl⟩
  · obtain ⟨l₁, l₂, hlog, rfl, hl₂⟩ := List.filter_eq_append_iff.mp hk
    obtain ⟨l₃, l₄, rfl, -, hy, rfl⟩ := List.filter_eq_cons_iff.mp hl₂
    exact Or.inr ⟨l₁ ++ l₃, y, l₄, e, by simpa using hlog, by simpa using hy, hrow, hlt, hquiet hl⟩

theorem Reaches.stored_since (h : Reaches w x) (hw : w.log = []) (hlog : x.log = l₁ ++ y :: l₂)
    (hn : y.node = n) (hempties : y.event.Empties) (hp : p ∈ (x.ledger n).tokens) :
    ∃ z ∈ l₂, z.node = n ∧ z.event.row = some p := by
  rw [h.ledger_eq hw, World.history_eq hlog hn, Ledger.replay_append, Ledger.replay_cons] at hp
  rcases Ledger.mem_replay hp with ⟨hp, -⟩ | ⟨k₁, z, k₂, hk, hrow, -⟩
  · rw [Ledger.apply_empties _ _ hempties] at hp
    cases hp
  · have hz : z ∈ l₂.filter fun z => z.node = n := by simp [hk]
    obtain ⟨hz, hn⟩ := List.mem_filter.mp hz
    exact ⟨z, hz, by simpa using hn, hrow⟩

/-- The world just before an entry was made. -/
theorem Reaches.before (h : Reaches w x) (hw : w.log = []) (hlog : x.log = l₁ ++ y :: l₂) :
    ∃ u l, Reaches w u ∧ u.log = l₁ ∧ Move y.begun y.event (u.ledger y.node) l := by
  induction h generalizing l₂ with
  | refl => simp [hw] at hlog
  | @tail u x hu hs ih =>
    rcases step_cases hs with ⟨-, -, hsame⟩ | ⟨m, ev, b, hb, -, hmove, -, hmore⟩
    · exact ih (hsame ▸ hlog)
    · rw [hmore] at hlog
      rcases l₂.eq_nil_or_concat with rfl | ⟨l₂, z, rfl⟩
      · obtain ⟨hlog', hy⟩ := List.append_inj' hlog rfl
        obtain rfl := List.singleton_inj.mp hy
        exact ⟨u, _, hu, hlog', hmove⟩
      · rw [List.concat_eq_append, ← List.cons_append, ← List.append_assoc] at hlog
        exact ih (List.append_inj' hlog rfl).1

/-! ### Tokens of an emptied ledger -/

/-- The token was issued to the node, at first or by an entry. -/
def IssuedTo (w : World ν τ T) (log : List (Entry ν τ T)) (n : ν) (t : τ) : Prop :=
  t ∈ (w.ledger n).names ∨ ∃ z ∈ log, z.node = n ∧ z.event.stored = some t

omit [LinearOrder T] [DecidableEq τ] in
theorem Event.stored_of_row {ev : Event τ T} (h : ev.row = some p) : ev.stored = some p.1 := by
  cases ev <;> cases h <;> rfl

omit [LinearOrder T] [DecidableEq τ] [DecidableEq ν] in
theorem World.Fresh.pairwise {initial : τ → Prop} (h : x.Fresh initial) :
    x.log.Pairwise fun y z => ∀ t, y.event.stored = some t → z.event.stored ≠ some t := by
  refine (List.pairwise_filterMap.mp h.1).imp fun hne t hy hz => ?_
  exact hne t hy t hz rfl

omit [LinearOrder T] [DecidableEq τ] [DecidableEq ν] in
theorem issuedTo_unique (hfresh : x.Fresh fun t => ∃ n, t ∈ (w.ledger n).names)
    (howner : ∀ n m t, t ∈ (w.ledger n).names → t ∈ (w.ledger m).names → n = m) {n m : ν} {t : τ}
    (hn : IssuedTo w x.log n t) (hm : IssuedTo w x.log m t) : n = m := by
  have hstored {z : Entry ν τ T} (hz : z ∈ x.log) (ht : z.event.stored = some t) :
      ¬ ∃ n, t ∈ (w.ledger n).names :=
    hfresh.2 t (List.mem_filterMap.mpr ⟨z, hz, ht⟩)
  rcases hn with hn | ⟨y, hy, rfl, hyt⟩ <;> rcases hm with hm | ⟨z, hz, rfl, hzt⟩
  · exact howner n m t hn hm
  · exact absurd ⟨n, hn⟩ (hstored hz hzt)
  · exact absurd ⟨m, hm⟩ (hstored hy hyt)
  · by_contra hne
    have hyz : y ≠ z := fun he => hne (he ▸ rfl)
    have hsymm : Std.Symm fun y z : Entry ν τ T =>
        ∀ t, y.event.stored = some t → z.event.stored ≠ some t :=
      ⟨fun a b hab s hb ha => hab s ha hb⟩
    exact hfresh.pairwise.forall hy hz hyz t hyt hzt

theorem Reaches.issuedTo (h : Reaches w x) (hw : w.log = []) (hp : p ∈ (x.ledger n).tokens) :
    IssuedTo w x.log n p.1 := by
  rw [h.ledger_eq hw] at hp
  rcases Ledger.mem_replay hp with ⟨hp, -⟩ | ⟨k₁, z, k₂, hk, hrow, -⟩
  · exact Or.inl (List.mem_map_of_mem hp)
  · have hz : z ∈ x.history n := by simp [hk]
    obtain ⟨hz, hn⟩ := List.mem_filter.mp hz
    exact Or.inr ⟨z, hz, by simpa using hn, Event.stored_of_row hrow⟩

/-- When the ledger of a node is emptied, no token issued to the node until then is
redeemed any more. -/
theorem Reaches.not_redeemed_after (h : Reaches w x) (hw : w.log = [])
    (hfresh : x.Fresh fun t => ∃ n, t ∈ (w.ledger n).names)
    (howner : ∀ n m t, t ∈ (w.ledger n).names → t ∈ (w.ledger m).names → n = m)
    (hlog : x.log = l₁ ++ y :: l₂) (hempties : y.event.Empties) {t : τ}
    (ht : IssuedTo w l₁ y.node t) : ∀ v ∈ l₂, v.event.redeemed ≠ some t := by
  intro v hv hredeemed
  obtain ⟨m₁, m₂, rfl⟩ := List.append_of_mem hv
  have hsplit : x.log = (l₁ ++ y :: m₁) ++ v :: m₂ := by simp [hlog]
  obtain ⟨u, l, hu, hulog, hmove⟩ := h.before hw hsplit
  obtain ⟨p, hp, rfl⟩ := List.mem_map.mp (hmove.redeemed_mem hredeemed)
  have hmono {log : List (Entry ν τ T)} (hsub : log ⊆ x.log) {n : ν}
      (hissued : IssuedTo w log n p.1) : IssuedTo w x.log n p.1 :=
    hissued.imp_right fun ⟨z, hz, hrest⟩ => ⟨z, hsub hz, hrest⟩
  have hnode : v.node = y.node := by
    refine issuedTo_unique hfresh howner (hmono ?_ (hu.issuedTo hw hp)) (hmono ?_ ht)
    · rw [hulog, hlog]
      intro z hz
      simp only [List.mem_append, List.mem_cons] at hz ⊢
      tauto
    · rw [hlog]
      exact List.subset_append_left _ _
  rw [hnode] at hp
  obtain ⟨z, hz, -, hrow⟩ := hu.stored_since hw hulog rfl hempties hp
  have hstored := Event.stored_of_row hrow
  have hmem : z ∈ x.log := by simp [hlog, hz]
  rcases ht with ht | ⟨z', hz', -, ht⟩
  · exact hfresh.2 p.1 (List.mem_filterMap.mpr ⟨z, hmem, hstored⟩) ⟨_, ht⟩
  · have hpairwise := hfresh.pairwise
    rw [hlog, List.pairwise_append] at hpairwise
    exact hpairwise.2.2 z' hz' z (by simp [hz]) p.1 ht hstored

end Patchli.Ownership
