import Patchli.Ownership.Ledger

/-!
# Single use of tokens and revocation on reuse

When every stored token is new, a redeemed token is stored nowhere and never
comes back. Presenting it again empties the ledger, and only an enrollment puts
a token into an empty ledger.
-/

namespace Patchli.Ownership

variable {ν τ T : Type*}

def Ledger.names (l : Ledger τ T) : List τ := l.tokens.map Prod.fst

def World.stored (w : World ν τ T) : List τ := w.log.filterMap fun x => x.event.stored

def World.redeemed (w : World ν τ T) : List τ := w.log.filterMap fun x => x.event.redeemed

/-- No token was stored that had been stored before. -/
def World.Fresh (initial : τ → Prop) (w : World ν τ T) : Prop :=
  w.stored.Nodup ∧ ∀ x ∈ w.stored, ¬ initial x

/-- Tokens stored at some time. -/
def World.Issued (initial : τ → Prop) (w : World ν τ T) (x : τ) : Prop :=
  initial x ∨ x ∈ w.stored

theorem stored_of_log {w x : World ν τ T} {y : Entry ν τ T}
    (hlog : x.log = w.log ++ [y]) :
    x.stored = w.stored ++ y.event.stored.toList := by
  rw [World.stored, hlog, List.filterMap_append]
  cases h : y.event.stored <;> simp [World.stored, h]

theorem redeemed_of_log {w x : World ν τ T} {y : Entry ν τ T}
    (hlog : x.log = w.log ++ [y]) :
    x.redeemed = w.redeemed ++ y.event.redeemed.toList := by
  rw [World.redeemed, hlog, List.filterMap_append]
  cases h : y.event.redeemed <;> simp [World.redeemed, h]

theorem World.Fresh.not_issued {initial : τ → Prop} {w x : World ν τ T} {y : Entry ν τ T}
    {t : τ} (h : x.Fresh initial) (hlog : x.log = w.log ++ [y]) (ht : y.event.stored = some t) :
    ¬ w.Issued initial t := by
  rw [World.Fresh, stored_of_log hlog, ht, List.nodup_append] at h
  rintro (hinitial | hstored)
  · exact h.2 t (by simp) hinitial
  · exact h.1.2.2 t hstored t (by simp) rfl

section Moves

variable [LinearOrder T] [DecidableEq τ] {b : T} {ev : Event τ T} {l l' : Ledger τ T} {x : τ}

omit [DecidableEq τ] in
theorem Ledger.Redeemable.mem_names (h : l.Redeemable b x) : x ∈ l.names := by
  obtain ⟨e, hmem, -⟩ := h
  exact List.mem_map.mpr ⟨_, hmem, rfl⟩

theorem Ledger.without_sublist (l : Ledger τ T) (b : T) (x : τ) :
    ((l.without b x).map Prod.fst).Sublist l.names :=
  List.filter_sublist.map _

theorem Ledger.Redeemable.not_mem_without (h : l.Redeemable b x) (hl : l.names.Nodup) :
    x ∉ (l.without b x).map Prod.fst := by
  obtain ⟨e, hmem, hlt⟩ := h
  intro hx
  obtain ⟨p, hp, rfl⟩ := List.mem_map.mp hx
  obtain ⟨hp, hkept⟩ := Ledger.mem_without.mp hp
  have hrow : p = (p.1, e) := List.inj_on_of_nodup_map hl hp hmem rfl
  have hpe : p.2 = e := congrArg Prod.snd hrow
  exact hkept ⟨rfl, hpe ▸ hlt⟩

theorem Move.mem_names (h : Move b ev l l') (hx : x ∈ l'.names) :
    x ∈ l.names ∨ ev.stored = some x := by
  cases h with
  | enrolled =>
    simp only [Ledger.names, List.map_append, List.map_cons, List.map_nil, List.mem_append,
      List.mem_singleton] at hx
    exact hx.imp id fun hx => congrArg some hx.symm
  | rotated =>
    simp only [Ledger.names, List.map_append, List.map_cons, List.map_nil, List.mem_append,
      List.mem_singleton] at hx
    exact hx.imp (fun hx => (l.without_sublist b _).subset hx) fun hx => congrArg some hx.symm
  | reused | revoked => cases hx

theorem Move.nodup_names (h : Move b ev l l') (hl : l.names.Nodup)
    (hnew : ∀ y, ev.stored = some y → y ∉ l.names) : l'.names.Nodup := by
  have happend {ys : List (τ × T)} {new : τ} {e : T} (hys : (ys.map Prod.fst).Nodup)
      (hnew : new ∉ ys.map Prod.fst) : ((ys ++ [(new, e)]).map Prod.fst).Nodup := by
    rw [List.map_append, List.map_singleton]
    exact hys.append (List.nodup_singleton _) (List.disjoint_singleton.mpr hnew)
  cases h with
  | enrolled => exact happend hl (hnew _ rfl)
  | rotated =>
    exact happend (hl.sublist (l.without_sublist b _))
      fun hx => hnew _ rfl ((l.without_sublist b _).subset hx)
  | reused | revoked => exact List.nodup_nil

theorem Move.redeemed_mem (h : Move b ev l l') (hx : ev.redeemed = some x) : x ∈ l.names := by
  cases h with
  | rotated hold =>
    cases hx
    exact hold.mem_names
  | enrolled | reused | revoked => cases hx

theorem Move.redeemed_gone (h : Move b ev l l') (hl : l.names.Nodup)
    (hx : ev.redeemed = some x) (hnew : ev.stored ≠ some x) : x ∉ l'.names := by
  cases h with
  | rotated hold =>
    cases hx
    intro hmem
    simp only [Ledger.names, List.map_append, List.map_cons, List.map_nil, List.mem_append,
      List.mem_singleton] at hmem
    rcases hmem with hmem | rfl
    · exact hold.not_mem_without hl hmem
    · exact hnew rfl
  | enrolled | reused | revoked => cases hx

theorem Move.presented_unknown (h : Move b ev l l') (hx : ev.presented = some x)
    (hunknown : x ∉ l.names) : ev.redeemed = none ∧ l'.tokens = [] := by
  cases h with
  | rotated hold =>
    cases hx
    exact absurd hold.mem_names hunknown
  | reused => exact ⟨rfl, rfl⟩
  | enrolled | revoked => cases hx

theorem Move.of_empty (h : Move b ev l l') (hl : l.tokens = [])
    (hev : ∀ new e, ev ≠ .enrolled new e) : ev.redeemed = none ∧ l'.tokens = [] := by
  cases h with
  | enrolled => exact absurd rfl (hev _ _)
  | rotated hold =>
    obtain ⟨e, hmem, -⟩ := hold
    rw [hl] at hmem
    cases hmem
  | reused | revoked => exact ⟨rfl, rfl⟩

end Moves

/-! ### Redeemed tokens stay redeemed -/

structure SingleUse (initial : τ → Prop) (w : World ν τ T) : Prop where
  nodup : ∀ n, (w.ledger n).names.Nodup
  owner : ∀ n m x, x ∈ (w.ledger n).names → x ∈ (w.ledger m).names → n = m
  issued : ∀ n x, x ∈ (w.ledger n).names → w.Issued initial x
  spent_issued : ∀ x ∈ w.redeemed, w.Issued initial x
  spent : ∀ x ∈ w.redeemed, ∀ n, x ∉ (w.ledger n).names
  once : w.redeemed.Nodup

section Worlds

variable [LinearOrder T] [DecidableEq τ] [DecidableEq ν] {initial : τ → Prop} {w x : World ν τ T}

theorem Step.fresh (hs : Step w x) (h : x.Fresh initial) : w.Fresh initial := by
  rcases step_cases hs with ⟨-, -, hlog⟩ | ⟨n, ev, b, -, -, -, -, hlog⟩
  · simpa only [World.Fresh, World.stored, hlog] using h
  · rw [World.Fresh, stored_of_log hlog, List.nodup_append] at h
    exact ⟨h.1.1, fun y hy => h.2 y (List.mem_append_left _ hy)⟩

theorem SingleUse.same (hw : SingleUse initial w) (hledger : x.ledger = w.ledger)
    (hlog : x.log = w.log) : SingleUse initial x := by
  have hstored : x.stored = w.stored := by rw [World.stored, hlog, World.stored]
  have hredeemed : x.redeemed = w.redeemed := by rw [World.redeemed, hlog, World.redeemed]
  constructor
  · simpa only [hledger] using hw.nodup
  · simpa only [hledger] using hw.owner
  · simpa only [hledger, World.Issued, hstored] using hw.issued
  · simpa only [hredeemed, World.Issued, hstored] using hw.spent_issued
  · simpa only [hredeemed, hledger] using hw.spent
  · simpa only [hredeemed] using hw.once

theorem SingleUse.move {n : ν} {ev : Event τ T} {b : T} (hw : SingleUse initial w)
    (hfresh : x.Fresh initial) (hmove : Move b ev (w.ledger n) (x.ledger n))
    (hframe : ∀ m, m ≠ n → x.ledger m = w.ledger m)
    (hlog : x.log = w.log ++ [⟨n, ev, b, w.now⟩]) : SingleUse initial x := by
  have hnew {t : τ} (ht : ev.stored = some t) : ¬ w.Issued initial t :=
    hfresh.not_issued hlog ht
  have hissued {t : τ} (ht : w.Issued initial t ∨ ev.stored = some t) : x.Issued initial t := by
    rw [World.Issued, stored_of_log hlog]
    rcases ht with (ht | ht) | ht
    · exact Or.inl ht
    · exact Or.inr (List.mem_append_left _ ht)
    · exact Or.inr (List.mem_append_right _ (by simp [ht]))
  have hnames {m : ν} {t : τ} (ht : t ∈ (x.ledger m).names) :
      t ∈ (w.ledger m).names ∨ m = n ∧ ev.stored = some t := by
    by_cases hm : m = n
    · subst hm
      exact (hmove.mem_names ht).imp_right fun hst => ⟨rfl, hst⟩
    · exact Or.inl (by rwa [hframe m hm] at ht)
  have hredeemed {t : τ} (ht : t ∈ x.redeemed) : t ∈ w.redeemed ∨ ev.redeemed = some t := by
    rw [redeemed_of_log hlog] at ht
    simpa [eq_comm] using ht
  constructor
  case nodup =>
    intro m
    by_cases hm : m = n
    · subst hm
      exact hmove.nodup_names (hw.nodup m) fun t ht hmem => hnew ht (hw.issued m t hmem)
    · rw [hframe m hm]
      exact hw.nodup m
  case owner =>
    intro m k t hm hk
    rcases hnames hm with hm | ⟨rfl, hst⟩ <;> rcases hnames hk with hk | ⟨rfl, hst'⟩
    · exact hw.owner m k t hm hk
    · exact absurd (hw.issued m t hm) (hnew hst')
    · exact absurd (hw.issued k t hk) (hnew hst)
    · rfl
  case issued =>
    intro m t ht
    exact hissued ((hnames ht).imp (hw.issued m t) And.right)
  case spent_issued =>
    intro t ht
    refine hissued (Or.inl ?_)
    rcases hredeemed ht with ht | ht
    · exact hw.spent_issued t ht
    · exact hw.issued n t (hmove.redeemed_mem ht)
  case spent =>
    intro t ht m hmem
    rcases hredeemed ht with ht | ht
    · rcases hnames hmem with hmem | ⟨-, hst⟩
      · exact hw.spent t ht m hmem
      · exact hnew hst (hw.spent_issued t ht)
    · have hold := hw.issued n t (hmove.redeemed_mem ht)
      by_cases hm : m = n
      · subst hm
        exact hmove.redeemed_gone (hw.nodup m) ht (fun hst => hnew hst hold) hmem
      · rw [hframe m hm] at hmem
        exact hm (hw.owner m n t hmem (hmove.redeemed_mem ht))
  case once =>
    rw [redeemed_of_log hlog]
    refine hw.once.append ?_ ?_
    · cases ev.redeemed <;> simp
    · intro t ht htev
      simp only [Option.mem_toList] at htev
      exact hw.spent t ht n (hmove.redeemed_mem htev)

theorem singleUse_step (hw : SingleUse initial w) (hs : Step w x) (hfresh : x.Fresh initial) :
    SingleUse initial x := by
  rcases step_cases hs with ⟨-, hledger, hlog⟩ | ⟨n, ev, b, -, -, hmove, hframe, hlog⟩
  · exact hw.same hledger hlog
  · exact hw.move hfresh hmove hframe hlog

/-! ### Reuse empties the ledger until the next enrollment -/

/-- After a redeemed token was presented again, nothing is redeemed and no token
is stored until an enrollment. -/
def World.Revoked (w : World ν τ T) : Prop :=
  ∀ n t l₁ c l₂ l₃, w.log = l₁ ++ c :: (l₂ ++ l₃) → c.node = n → c.event.presented = some t →
    (∃ y ∈ l₁, y.node = n ∧ y.event.redeemed = some t) →
    (∀ y ∈ l₂, y.node = n → ∀ new e, y.event ≠ .enrolled new e) →
    c.event.redeemed = none ∧ (∀ y ∈ l₂, y.node = n → y.event.redeemed = none) ∧
      (l₃ = [] → (w.ledger n).tokens = [])

theorem revoked_step (hrevoked : w.Revoked) (hw : SingleUse initial w) (hs : Step w x) :
    x.Revoked := by
  rcases step_cases hs with ⟨-, hledger, hlog⟩ | ⟨k, ev, b, -, -, hmove, hframe, hlog⟩
  · rw [World.Revoked, hledger, hlog]
    exact hrevoked
  intro n t l₁ c l₂ l₃ hsplit hc hpresented hprior hquiet
  rw [hlog] at hsplit
  -- where the new entry falls: after `l₂`, at the end of it, or it is `c`
  rcases l₃.eq_nil_or_concat with rfl | ⟨l₃, y, rfl⟩
  · rw [List.append_nil] at hsplit
    rcases l₂.eq_nil_or_concat with rfl | ⟨l₂, y, rfl⟩
    · obtain ⟨rfl, hy⟩ := List.append_inj' hsplit rfl
      obtain rfl : _ = c := List.singleton_inj.mp hy
      subst hc
      obtain ⟨z, hz, -, hredeemed⟩ := hprior
      have hspent : t ∈ w.redeemed := List.mem_filterMap.mpr ⟨z, hz, hredeemed⟩
      obtain ⟨hnone, hempty⟩ := hmove.presented_unknown hpresented (hw.spent t hspent k)
      refine ⟨hnone, ?_, fun _ => hempty⟩
      intro y hy
      cases hy
    · rw [List.concat_eq_append, ← List.cons_append, ← List.append_assoc] at hsplit
      obtain ⟨hw', hy⟩ := List.append_inj' hsplit rfl
      obtain rfl : _ = y := List.singleton_inj.mp hy
      simp only [List.concat_eq_append, List.mem_append, List.mem_singleton] at hquiet ⊢
      obtain ⟨hnone, hl₂, hempty⟩ := hrevoked n t l₁ c l₂ [] (by simpa using hw') hc hpresented
        hprior fun y hy => hquiet y (Or.inl hy)
      by_cases hk : k = n
      · subst hk
        obtain ⟨hlast, hempty⟩ := hmove.of_empty (hempty rfl) (hquiet _ (Or.inr rfl) rfl)
        refine ⟨hnone, ?_, fun _ => hempty⟩
        rintro y (hy | rfl) hyn
        · exact hl₂ y hy hyn
        · exact hlast
      · refine ⟨hnone, ?_, fun _ => ?_⟩
        · rintro y (hy | rfl) hyn
          · exact hl₂ y hy hyn
          · exact absurd hyn hk
        · rw [hframe n (Ne.symm hk)]
          exact hempty rfl
  · rw [List.concat_eq_append, ← List.append_assoc, ← List.cons_append, ← List.append_assoc]
      at hsplit
    obtain ⟨hw', -⟩ := List.append_inj' hsplit rfl
    obtain ⟨hnone, hl₂, -⟩ := hrevoked n t l₁ c l₂ l₃ hw' hc hpresented hprior hquiet
    exact ⟨hnone, hl₂, fun h => absurd h (by simp)⟩

end Worlds

end Patchli.Ownership
