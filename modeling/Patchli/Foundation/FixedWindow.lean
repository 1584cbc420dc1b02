import Mathlib.Tactic

/-!
# Fixed windows

A request is admitted while its window has room. A window starts with the first request
after the last one has ended, so windows are anchored at requests and not at a clock.
An interval of a window's length meets at most two of them.
-/

namespace Patchli.FixedWindow

structure Window where
  start : ℤ
  count : ℕ
  deriving DecidableEq

section

variable (limit : ℕ) (length : ℤ)

/-- Whether a request is admitted, and its window afterwards. -/
def step (w : Option Window) (now : ℤ) : Bool × Window :=
  match w with
  | none => (true, ⟨now, 1⟩)
  | some w =>
    if length ≤ now - w.start then (true, ⟨now, 1⟩)
    else if limit ≤ w.count then (false, w)
    else (true, ⟨w.start, w.count + 1⟩)

def verdicts : Option Window → List ℤ → List Bool
  | _, [] => []
  | w, now :: times =>
    let (admitted, w) := step limit length w now
    admitted :: verdicts (some w) times

def after (w : Option Window) (times : List ℤ) : Option Window :=
  times.foldl (fun w now => some (step limit length w now).2) w

/-- The number of requests that are admitted from `lo` until before `hi`. -/
def admittedIn (lo hi : ℤ) (w : Option Window) (times : List ℤ) : ℕ :=
  (times.zip (verdicts limit length w times)).countP fun p => p.2 ∧ lo ≤ p.1 ∧ p.1 < hi

end

variable {limit : ℕ} {length lo hi t now : ℤ} {w : Window} {times : List ℤ}

theorem admittedIn_cons (o : Option Window) : admittedIn limit length lo hi o (now :: times) =
    admittedIn limit length lo hi (some (step limit length o now).2) times +
      if (step limit length o now).1 ∧ lo ≤ now ∧ now < hi then 1 else 0 := by
  simp [admittedIn, verdicts, List.countP_cons]

/-- What a request does to a window: it starts the next one, finds it full, or takes a
place in it. -/
theorem step_cases (limit : ℕ) (length : ℤ) (w : Window) (now : ℤ) :
    w.start + length ≤ now ∧ step limit length (some w) now = (true, ⟨now, 1⟩) ∨
    now < w.start + length ∧ limit ≤ w.count ∧ step limit length (some w) now = (false, w) ∨
    now < w.start + length ∧ w.count < limit ∧
      step limit length (some w) now = (true, ⟨w.start, w.count + 1⟩) := by
  unfold step
  dsimp only
  split_ifs with hlapsed hfull
  · exact Or.inl ⟨by omega, rfl⟩
  · exact Or.inr (Or.inl ⟨by omega, hfull, rfl⟩)
  · exact Or.inr (Or.inr ⟨by omega, by omega, rfl⟩)

theorem admittedIn_append (o : Option Window) (earlier later : List ℤ) :
    admittedIn limit length lo hi o (earlier ++ later) =
      admittedIn limit length lo hi o earlier +
        admittedIn limit length lo hi (after limit length o earlier) later := by
  induction earlier generalizing o with
  | nil => simp [admittedIn, after]
  | cons x earlier ih =>
    rw [List.cons_append, admittedIn_cons, admittedIn_cons, ih]
    simp only [after, List.foldl_cons]
    omega

theorem after_running (hrunning : now < w.start + length) (htimes : ∀ x ∈ times, x ≤ now) :
    ∃ w', after limit length (some w) times = some w' ∧ w'.start = w.start := by
  induction times generalizing w with
  | nil => exact ⟨w, rfl, rfl⟩
  | cons x times ih =>
    have hx : x ≤ now := htimes x (List.mem_cons_self ..)
    have hrest : ∀ y ∈ times, y ≤ now := fun y hy => htimes y (List.mem_cons_of_mem _ hy)
    rcases step_cases limit length w x with ⟨hended, -⟩ | ⟨-, -, hstep⟩ | ⟨-, -, hstep⟩
    · omega
    · simp only [after, List.foldl_cons, hstep]
      exact ih hrunning hrest
    · simp only [after, List.foldl_cons, hstep]
      exact ih (w := ⟨w.start, w.count + 1⟩) hrunning hrest

theorem running_of_step (hlength : 0 < length) (o : Option Window)
    (hstep : (step limit length o now).1 = true) :
    now < (step limit length o now).2.start + length := by
  cases o with
  | none => exact lt_add_of_pos_right now hlength
  | some w =>
    rcases step_cases limit length w now with ⟨-, heq⟩ | ⟨-, -, heq⟩ | ⟨hrunning, -, heq⟩
    · rw [heq]
      exact lt_add_of_pos_right now hlength
    · rw [heq] at hstep
      cases hstep
    · rwa [heq]

theorem admittedIn_before {o : Option Window} (hlength : 0 < length)
    (hstarts : ∀ w ∈ after limit length o times, w.start + length ≤ now)
    (htimes : ∀ x ∈ times, x ≤ now) : admittedIn limit length now hi o times = 0 := by
  induction times generalizing o with
  | nil => rfl
  | cons x times ih =>
    have hx : x ≤ now := htimes x (List.mem_cons_self ..)
    have hrest : ∀ y ∈ times, y ≤ now := fun y hy => htimes y (List.mem_cons_of_mem _ hy)
    rw [admittedIn_cons, ih hstarts hrest, zero_add, if_neg]
    rintro ⟨hstep, hge, -⟩
    obtain rfl : x = now := le_antisymm hx hge
    have hrunning := running_of_step hlength o hstep
    obtain ⟨w, hafter, hstart⟩ := after_running hrunning hrest
    have hended : w.start + length ≤ x := hstarts w hafter
    omega

theorem admittedIn_of_le (o : Option Window) (htimes : ∀ x ∈ times, hi ≤ x) :
    admittedIn limit length lo hi o times = 0 := by
  rw [admittedIn, List.countP_eq_zero]
  rintro ⟨x, b⟩ hx
  have hle := htimes x (List.of_mem_zip hx).1
  simp only [decide_eq_true_eq]
  omega

theorem admittedIn_window (hhi : hi ≤ w.start + length)
    (hsorted : times.Pairwise (· ≤ ·)) :
    admittedIn limit length lo hi (some w) times ≤ limit - w.count := by
  induction times generalizing w with
  | nil => simp [admittedIn]
  | cons now times ih =>
    obtain ⟨hlater, hsorted⟩ := List.pairwise_cons.mp hsorted
    rcases step_cases limit length w now with ⟨hnow, -⟩ | ⟨-, hfull, hstep⟩ | ⟨-, hroom, hstep⟩
    · -- the window has ended, and the interval with it
      rw [admittedIn_of_le]
      · exact Nat.zero_le _
      · intro x hx
        rcases List.mem_cons.mp hx with rfl | hx
        · omega
        · have hle := hlater x hx
          omega
    · have hrest := ih hhi hsorted
      rw [admittedIn_cons, hstep]
      simpa using hrest
    · have hrest : admittedIn limit length lo hi (some ⟨w.start, w.count + 1⟩) times ≤
          limit - (w.count + 1) := ih hhi hsorted
      rw [admittedIn_cons, hstep]
      dsimp only at hrest ⊢
      split <;> omega

/-- From the request that starts a window at most the limit is admitted until the window
ends. -/
theorem admittedIn_open {o : Option Window} (hlimit : 1 ≤ limit)
    (hopen : step limit length o now = (true, ⟨now, 1⟩)) (hhi : hi ≤ now + length)
    (hsorted : times.Pairwise (· ≤ ·)) :
    admittedIn limit length lo hi o (now :: times) ≤ limit := by
  have hrest : admittedIn limit length lo hi (some ⟨now, 1⟩) times ≤ limit - 1 :=
    admittedIn_window hhi hsorted
  rw [admittedIn_cons, hopen]
  dsimp only
  split <;> omega

theorem admittedIn_started {o : Option Window} {earlier later : List ℤ} (hlimit : 1 ≤ limit)
    (hlength : 0 < length)
    (hstarts : ∀ w ∈ after limit length o earlier, w.start + length ≤ now)
    (hsorted : (earlier ++ now :: later).Pairwise (· ≤ ·)) :
    admittedIn limit length now (now + length) o (earlier ++ now :: later) ≤ limit := by
  obtain ⟨-, hlater, hcross⟩ := List.pairwise_append.mp hsorted
  have hbefore : ∀ x ∈ earlier, x ≤ now := fun x hx => hcross x hx now (List.mem_cons_self ..)
  rw [admittedIn_append, admittedIn_before hlength hstarts hbefore, zero_add]
  refine admittedIn_open hlimit ?_ le_rfl (List.pairwise_cons.mp hlater).2
  cases ho : after limit length o earlier with
  | none => rfl
  | some w =>
    have hended : w.start + length ≤ now := hstarts w ho
    simp [step, show length ≤ now - w.start by omega]

/-- An interval of a window's length that begins before the current window ends takes its
free places and at most those of the next one. -/
theorem admittedIn_two_windows (hlimit : 1 ≤ limit) (ht : t < w.start + length)
    (hsorted : times.Pairwise (· ≤ ·)) :
    admittedIn limit length t (t + length) (some w) times ≤ limit - w.count + limit := by
  induction times generalizing w with
  | nil => simp [admittedIn]
  | cons now times ih =>
    obtain ⟨-, hsorted⟩ := List.pairwise_cons.mp hsorted
    rcases step_cases limit length w now with ⟨hnow, hstep⟩ | ⟨-, hfull, hstep⟩ |
      ⟨-, hroom, hstep⟩
    · have hbound : t + length ≤ now + length := by omega
      have hnext : admittedIn limit length t (t + length) (some w) (now :: times) ≤ limit :=
        admittedIn_open hlimit hstep hbound hsorted
      omega
    · have hrest := ih ht hsorted
      rw [admittedIn_cons, hstep]
      simpa using hrest
    · have hrest : admittedIn limit length t (t + length) (some ⟨w.start, w.count + 1⟩) times ≤
          limit - (w.count + 1) + limit := ih ht hsorted
      rw [admittedIn_cons, hstep]
      dsimp only
      split <;> omega

/-- In any interval of a window's length fewer than twice the limit are admitted. -/
theorem admittedIn_interval {o : Option Window} (hlimit : 1 ≤ limit) (ho : ∀ w ∈ o, 1 ≤ w.count)
    (hsorted : times.Pairwise (· ≤ ·)) :
    admittedIn limit length t (t + length) o times ≤ 2 * limit - 1 := by
  induction times generalizing o with
  | nil => simp [admittedIn]
  | cons now times ih =>
    obtain ⟨-, hrest⟩ := List.pairwise_cons.mp hsorted
    have hopening (hopen : step limit length o now = (true, ⟨now, 1⟩)) :
        admittedIn limit length t (t + length) o (now :: times) ≤ 2 * limit - 1 := by
      by_cases hin : t ≤ now
      · have hbound : t + length ≤ now + length := by omega
        have hone : admittedIn limit length t (t + length) o (now :: times) ≤ limit :=
          admittedIn_open hlimit hopen hbound hrest
        omega
      · have hnext := ih (o := some ⟨now, 1⟩) (by simp) hrest
        rw [admittedIn_cons, hopen]
        simpa [hin] using hnext
    cases o with
    | none => exact hopening rfl
    | some w =>
      have hcount : 1 ≤ w.count := ho w rfl
      rcases lt_or_ge t (w.start + length) with ht | ht
      · have hboth := admittedIn_two_windows hlimit ht hsorted
        omega
      -- the interval begins after the current window
      rcases step_cases limit length w now with ⟨-, hstep⟩ | ⟨-, -, hstep⟩ | ⟨hnow, -, hstep⟩
      · exact hopening hstep
      · have hnext := ih ho hrest
        rw [admittedIn_cons, hstep]
        simpa using hnext
      · have hnext := ih (o := some ⟨w.start, w.count + 1⟩) (by simp) hrest
        have hout : ¬ t ≤ now := by omega
        rw [admittedIn_cons, hstep]
        simpa [hout] using hnext

end Patchli.FixedWindow
