import Mathlib.Tactic

/-!
# Partial labelled machines and their runs

A machine moves by a partial step function: `step s a` is the state after action
`a`, or `none` when `a` is not enabled. `run` folds a schedule, so any schedule
can be evaluated. The rules below carry an invariant from one step to a run,
and through schedules whose every step meets a side condition.
-/

namespace Patchli.Machine

variable {σ α : Type*} (step : σ → α → Option σ)

/-- Execute a schedule; a disabled action stops it. -/
def run : σ → List α → Option σ
  | s, [] => some s
  | s, a :: as => (step s a).bind fun t => run t as

@[simp] theorem run_nil (s : σ) : run step s [] = some s := rfl

theorem run_cons {s u : σ} {a : α} {as : List α} :
    run step s (a :: as) = some u ↔ ∃ t, step s a = some t ∧ run step t as = some u := by
  simp [run, Option.bind_eq_some_iff]

theorem run_append {s u : σ} {as bs : List α} :
    run step s (as ++ bs) = some u ↔ ∃ t, run step s as = some t ∧ run step t bs = some u := by
  induction as generalizing s with
  | nil => simp
  | cons a as ih =>
    simp only [List.cons_append, run_cons, ih]
    constructor
    · rintro ⟨t, ht, v, hv, hu⟩
      exact ⟨v, ⟨t, ht, hv⟩, hu⟩
    · rintro ⟨v, ⟨t, ht, hv⟩, hu⟩
      exact ⟨t, ht, v, hv, hu⟩

/-- What every enabled step preserves holds at the end of a run. -/
theorem run_invariant {I : σ → Prop} (hstep : ∀ s a t, I s → step s a = some t → I t)
    {s t : σ} {as : List α} (hs : I s) (hrun : run step s as = some t) : I t := by
  induction as generalizing s with
  | nil =>
    cases hrun
    exact hs
  | cons a as ih =>
    obtain ⟨u, hu, hrun⟩ := (run_cons step).mp hrun
    exact ih (hstep s a u hs hu) hrun

/-- Every step of the schedule meets `C` in the state it is taken from. -/
def Meets (C : σ → α → Prop) : σ → List α → Prop
  | _, [] => True
  | s, a :: as => C s a ∧ ∀ t, step s a = some t → Meets C t as

instance decidableMeets {C : σ → α → Prop} [∀ s a, Decidable (C s a)] :
    ∀ s as, Decidable (Meets step C s as)
  | _, [] => isTrue trivial
  | s, a :: as =>
    match h : step s a with
    | none => decidable_of_iff (C s a) (by simp [Meets, h])
    | some t =>
      have : Decidable (Meets step C t as) := decidableMeets t as
      decidable_of_iff (C s a ∧ Meets step C t as) (by simp [Meets, h])

theorem meets_of_forall {C : σ → α → Prop} {as : List α} (h : ∀ a ∈ as, ∀ s, C s a) {s : σ} :
    Meets step C s as := by
  induction as generalizing s with
  | nil => trivial
  | cons a as ih =>
    exact ⟨h a (List.mem_cons_self ..) s, fun t _ => ih fun b hb => h b (List.mem_cons_of_mem _ hb)⟩

theorem Meets.mono {C C' : σ → α → Prop} (h : ∀ s a, C s a → C' s a) {s : σ} {as : List α}
    (hC : Meets step C s as) : Meets step C' s as := by
  induction as generalizing s with
  | nil => trivial
  | cons a as ih => exact ⟨h s a hC.1, fun t ht => ih (hC.2 t ht)⟩

theorem Meets.and {C C' : σ → α → Prop} {s : σ} {as : List α} (hC : Meets step C s as)
    (hC' : Meets step C' s as) : Meets step (fun s a => C s a ∧ C' s a) s as := by
  induction as generalizing s with
  | nil => trivial
  | cons a as ih => exact ⟨⟨hC.1, hC'.1⟩, fun t ht => ih (hC.2 t ht) (hC'.2 t ht)⟩

/-- Conditions that an invariant makes equivalent are met by the same schedules. -/
theorem meets_congr {C C' : σ → α → Prop} {I : σ → Prop}
    (hstep : ∀ s a t, I s → step s a = some t → I t) (h : ∀ s a, I s → (C s a ↔ C' s a)) {s : σ}
    {as : List α} (hs : I s) : Meets step C s as ↔ Meets step C' s as := by
  induction as generalizing s with
  | nil => exact Iff.rfl
  | cons a as ih =>
    exact and_congr (h s a hs) (forall₂_congr fun t ht => ih (hstep s a t hs ht))

theorem meets_append {C : σ → α → Prop} {s t : σ} {as bs : List α}
    (hrun : run step s as = some t) (hC : Meets step C s (as ++ bs)) :
    Meets step C s as ∧ Meets step C t bs := by
  induction as generalizing s with
  | nil =>
    cases hrun
    exact ⟨trivial, hC⟩
  | cons a as ih =>
    obtain ⟨u, hu, hrun⟩ := (run_cons step).mp hrun
    obtain ⟨hCa, hrest⟩ := hC
    have h := ih hrun (hrest u hu)
    refine ⟨⟨hCa, ?_⟩, h.2⟩
    intro v hv
    cases hu.symm.trans hv
    exact h.1

/-- The invariant rule for schedules whose steps all meet a side condition. -/
theorem run_invariant_of_meets {C : σ → α → Prop} {I : σ → Prop}
    (hstep : ∀ s a t, I s → C s a → step s a = some t → I t)
    {s t : σ} {as : List α} (hs : I s) (hC : Meets step C s as)
    (hrun : run step s as = some t) : I t := by
  induction as generalizing s with
  | nil =>
    cases hrun
    exact hs
  | cons a as ih =>
    obtain ⟨u, hu, hrun⟩ := (run_cons step).mp hrun
    exact ih (hstep s a u hs hC.1 hu) (hC.2 u hu) hrun

/-- An abstraction of the states that answers every step by the same action answers
every run by the same schedule. -/
theorem run_abstraction {τ : Type*} {step' : τ → α → Option τ} {I : σ → Prop} (f : σ → τ)
    (hstep : ∀ s a t, I s → step s a = some t → I t ∧ step' (f s) a = some (f t))
    {s t : σ} {as : List α} (hs : I s) (hrun : run step s as = some t) :
    I t ∧ run step' (f s) as = some (f t) := by
  induction as generalizing s with
  | nil =>
    cases hrun
    exact ⟨hs, rfl⟩
  | cons a as ih =>
    obtain ⟨u, hu, hrun⟩ := (run_cons step).mp hrun
    obtain ⟨hI, hf⟩ := hstep s a u hs hu
    obtain ⟨ht, hrest⟩ := ih hI hrun
    exact ⟨ht, (run_cons step').mpr ⟨f u, hf, hrest⟩⟩

/-- When some step lowers a measure until the goal is met, a schedule meets it. -/
theorem exists_run_of_progress {I goal : σ → Prop} (μ : σ → ℕ)
    (hprogress : ∀ s, I s → ¬ goal s → ∃ a t, step s a = some t ∧ I t ∧ μ t < μ s)
    {s : σ} (hs : I s) : ∃ as t, run step s as = some t ∧ goal t := by
  induction hk : μ s using Nat.strong_induction_on generalizing s with
  | _ k ih =>
    subst hk
    by_cases hgoal : goal s
    · exact ⟨[], s, rfl, hgoal⟩
    · obtain ⟨a, t, hstep, ht, hlt⟩ := hprogress s hs hgoal
      obtain ⟨as, u, hrun, hu⟩ := ih (μ t) hlt ht rfl
      exact ⟨a :: as, u, (run_cons step).mpr ⟨t, hstep, hrun⟩, hu⟩

end Patchli.Machine

/-! ### Outputs

A machine with outputs reads a list from the left. Each step gives the next state and some
outputs, or fails. What is read in two parts is output in two parts. -/

namespace Patchli.Transducer

variable {σ α β : Type*} (step : σ → α → Option (σ × List β))

def feed : σ → List α → Option (σ × List β)
  | s, [] => some (s, [])
  | s, a :: as => do
    let (s, out) ← step s a
    let (s, out') ← feed s as
    return (s, out ++ out')

/-- Put outputs in front. -/
def prepend (out : List β) (p : σ × List β) : σ × List β := (p.1, out ++ p.2)

variable {step} {s t : σ} {a : α} {as bs : List α} {out : List β}

theorem feed_cons (h : step s a = some (t, out)) (as : List α) :
    feed step s (a :: as) = (feed step t as).map (prepend out) := by
  simp only [feed, h, Option.bind_eq_bind, Option.bind_some]
  cases feed step t as <;> rfl

theorem feed_silent (h : step s a = some (t, [])) (as : List α) :
    feed step s (a :: as) = feed step t as := by
  rw [feed_cons h]
  cases feed step t as <;> rfl

theorem feed_failed (h : step s a = none) (as : List α) : feed step s (a :: as) = none := by
  simp [feed, h]

theorem feed_append (h : feed step s as = some (t, out)) (bs : List α) :
    feed step s (as ++ bs) = (feed step t bs).map (prepend out) := by
  induction as generalizing s out with
  | nil =>
    cases h
    rw [List.nil_append]
    cases feed step t bs <;> rfl
  | cons a as ih =>
    simp only [feed, Option.bind_eq_bind, Option.bind_eq_some_iff, Option.pure_def,
      Option.some.injEq, Prod.mk.injEq] at h
    obtain ⟨⟨u, first⟩, hstep, ⟨v, rest⟩, hrest, rfl, rfl⟩ := h
    rw [List.cons_append, feed_cons hstep, ih hrest]
    cases feed step v bs with
    | none => rfl
    | some p => simp [prepend]

end Patchli.Transducer

/-! ### Quantities added up over threads

A step of one thread changes one term of a sum. So a quantity that the step only
moves between the thread and the shared state keeps its total. -/

namespace Patchli.Threads

variable {ι θ M : Type*} [Fintype ι] [DecidableEq ι]

theorem sum_update [AddCommMonoid M] (f : θ → M) (w : ι → θ) (i : ι) (x : θ) :
    f (w i) + ∑ j, f (Function.update w i x j) = f x + ∑ j, f (w j) := by
  have hcomp : (fun j => f (Function.update w i x j)) = Function.update (f ∘ w) i (f x) :=
    Function.comp_update f w i x
  rw [hcomp, Finset.sum_update_of_mem (Finset.mem_univ i),
    ← Finset.add_sum_erase Finset.univ (fun j => f (w j)) (Finset.mem_univ i),
    ← Finset.erase_eq]
  exact add_left_comm (f (w i)) (f x) _

/-- What thread `i` gives up or takes, the shared state takes or gives up. -/
theorem total_update [AddCancelCommMonoid M] (f : θ → M) (w : ι → θ) {i : ι} {x : θ} {g g' : M}
    (h : g + f (w i) = g' + f x) :
    g + ∑ j, f (w j) = g' + ∑ j, f (Function.update w i x j) := by
  apply add_left_cancel (a := f x)
  calc
    f x + (g + ∑ j, f (w j)) = g + (f x + ∑ j, f (w j)) := add_left_comm _ _ _
    _ = g + (f (w i) + ∑ j, f (Function.update w i x j)) := by rw [sum_update]
    _ = g' + f x + ∑ j, f (Function.update w i x j) := by rw [← add_assoc, h]
    _ = f x + (g' + ∑ j, f (Function.update w i x j)) := by rw [add_comm g', add_assoc]

/-- A step that lowers the term of one thread by more than it adds elsewhere lowers
the total. -/
theorem total_lt (f : θ → ℕ) (w : ι → θ) {i : ι} {x : θ} {g g' : ℕ}
    (h : g' + f x < g + f (w i)) :
    g' + ∑ j, f (Function.update w i x j) < g + ∑ j, f (w j) := by
  have hsum := sum_update f w i x
  omega

end Patchli.Threads
