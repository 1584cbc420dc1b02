import Patchli.Orchestration.Steps

/-!
# When commands are sent

`processJob` tests the pause flag and the maintenance window once each and may
wait for long before it sends. So a pause holds back the commands of a group only
if no worker has passed the test, and a command is inside its window only if the
clock has not left the window since the test.
-/

namespace Patchli.Orchestration

open WorkerPool

variable {n : ℕ}

/-! ### Paused groups -/

/-- Between the test of the pause flag and the return of `SendCommand`. -/
def Point.dispatching : Point → Bool
  | .checkWindow | .lookupSemaphore | .enterSemaphore | .sendCommand => true
  | _ => false

/-- The worker has passed the pause test for a job of group `g` and not sent yet. -/
def Worker.dispatches (w : Worker) (g : ℤ) : Bool :=
  match w.phase with
  | .processJob p a => p.dispatching && decide (a.job.groupID = g)
  | _ => false

/-- A group is paused only while no worker is dispatching a job of it. -/
def PausesIdle (s : State n) : Action n → Prop
  | .event (.pauseGroup g) => ∀ i, (s.workers i).dispatches g = false
  | _ => True

instance (s : State n) : ∀ x, Decidable (PausesIdle s x)
  | .event (.pauseGroup g) =>
    inferInstanceAs (Decidable (∀ i, (s.workers i).dispatches g = false))
  | .event (.advance _) | .event (.submit _) | .event (.resumeGroup _) | .event .stopResume
  | .event .stopClose | .event (.delay _ _) | .event (.registry _) | .worker _ _ => isTrue trivial

/-- No worker dispatches a job of a paused group. -/
def Quiet (s : State n) : Prop :=
  ∀ g, s.pool.pausedGroups g = true → ∀ i, (s.workers i).dispatches g = false

theorem moves_dispatches {s t : WorkerPool} {w w' : Worker} {g : ℤ} (h : Moves s w w' t)
    (hg : s.pausedGroups g = true) (hw : w.dispatches g = false) : w'.dispatches g = false := by
  cases h with
  | @unpaused d a hunpaused =>
    have hne : a.job.groupID ≠ g := by
      rintro rfl
      rw [hg] at hunpaused
      cases hunpaused
    simp [Worker.dispatches, hne]
  | inWindow | lookedUp | entered => simpa [Worker.dispatches, Point.dispatching] using hw
  | _ => rfl

theorem Worker.dispatches_wake (w : Worker) (g : ℤ) : w.wake.dispatches g = w.dispatches g :=
  Worker.wake_congr (f := fun w => w.dispatches g) (fun _ _ => rfl) w

theorem occurs_pausedGroups {s t : WorkerPool} {e : Event} {g : ℤ} (h : Occurs s e t)
    (hg : t.pausedGroups g = true) : s.pausedGroups g = true ∨ e = .pauseGroup g := by
  cases h with
  | @pauseGroup g' =>
    by_cases hgg : g = g'
    · exact Or.inr (hgg ▸ rfl)
    · exact Or.inl (by simpa [hgg] using hg)
  | @resumeGroup g' =>
    by_cases hgg : g = g'
    · simp [hgg] at hg
    · exact Or.inl (by simpa [hgg] using hg)
  | stopResume => cases hg
  | _ => exact Or.inl hg

theorem quiet_step {s u : State n} {x : Action n} (h : Steps s x u) (hidle : PausesIdle s x)
    (hs : Quiet s) : Quiet u := by
  intro g hg i
  cases h with
  | event hoccurs =>
    rcases occurs_pausedGroups hoccurs hg with hg | rfl
    · exact hs g hg i
    · exact hidle i
  | broadcast hoccurs hb =>
    rw [Worker.dispatches_wake]
    rcases occurs_pausedGroups hoccurs hg with hg | rfl
    · exact hs g hg i
    · exact hidle i
  | @worker k act w pool hmoves =>
    rw [(moves_frame hmoves).pausedGroups] at hg
    by_cases hik : i = k
    · subst hik
      simpa using moves_dispatches hmoves hg (hs g hg i)
    · simpa [hik] using hs g hg i

theorem run_quiet {now : Time} {as : List (Action n)} {s : State n}
    (hidle : Machine.Meets step PausesIdle (State.initial n now) as)
    (hrun : Machine.run step (State.initial n now) as = some s) : Quiet s := by
  refine Machine.run_invariant_of_meets step (I := Quiet)
    (fun _ _ _ hs hC hstep => quiet_step (step_steps hstep) hC hs) ?_ hidle hrun
  intro g hg
  cases hg

theorem paused_run {g : ℤ} {bs : List (Action n)} {s u : State n}
    (hresume : .event (.resumeGroup g) ∉ bs) (hstop : .event .stopResume ∉ bs)
    (hs : s.pool.pausedGroups g = true) (hrun : Machine.run step s bs = some u) :
    u.pool.pausedGroups g = true := by
  induction bs generalizing s with
  | nil =>
    cases hrun
    exact hs
  | cons x bs ih =>
    obtain ⟨t, hstep, hrun⟩ := (Machine.run_cons step).mp hrun
    simp only [List.mem_cons, not_or] at hresume hstop
    have hoccurs {e : Event} {pool : WorkerPool} (hx : x = .event e) (h : Occurs s.pool e pool) :
        pool.pausedGroups g = true := by
      subst hx
      cases h with
      | @pauseGroup g' => by_cases hgg : g = g' <;> simp [hgg, hs]
      | @resumeGroup g' =>
        have hgg : g ≠ g' := by
          rintro rfl
          exact hresume.1 rfl
        simpa [hgg] using hs
      | stopResume => exact absurd rfl hstop.1
      | _ => exact hs
    refine ih hresume.2 hstop.2 ?_ hrun
    cases step_steps hstep with
    | event h => exact hoccurs rfl h
    | broadcast h => exact hoccurs rfl h
    | worker hmoves => exact (congrFun (moves_frame hmoves).pausedGroups g).trans hs

/-- If groups are paused only while no worker dispatches a job of theirs, then
after `PauseGroup(g)` and before the next `ResumeGroup(g)` no command is sent for
a job of group `g`. -/
theorem paused_group_gets_no_command {now : Time} {g : ℤ} {as bs : List (Action n)}
    {s u : State n} {x : Action n} {a : Accepted}
    (hidle : Machine.Meets step PausesIdle (State.initial n now)
      (as ++ .event (.pauseGroup g) :: bs))
    (hrun : Machine.run step (State.initial n now) (as ++ .event (.pauseGroup g) :: bs) = some s)
    (hresume : .event (.resumeGroup g) ∉ bs) (hstop : .event .stopResume ∉ bs)
    (hstep : step s x = some u) (hsend : u.pool.sends = s.pool.sends ++ [a]) :
    a.job.groupID ≠ g := by
  obtain ⟨t, -, hrest⟩ := (Machine.run_append step).mp hrun
  obtain ⟨v, hpause, hrest⟩ := (Machine.run_cons step).mp hrest
  have hv : v.pool.pausedGroups g = true := by
    cases hpause
    simp
  have hpaused := paused_run hresume hstop hv hrest
  obtain ⟨i, hi⟩ := send_step (step_steps hstep) hsend
  rintro rfl
  have hquiet := run_quiet hidle hrun _ hpaused i
  simp [Worker.dispatches, hi, Point.dispatching] at hquiet

private def job (groupID : ℤ) (window : Option MaintenanceWindow) : Job :=
  plainJob (ascii "j") (ascii "aa") groupID window

/-- Group 1 is paused before a worker tests it, and then a job of group 2 is sent. -/
private def pausedEarly : List (Action 2) :=
  [.event (.submit (job 1 none)), .event (.submit (job 2 none)), .worker 0 .receive,
    .worker 1 .receive]

private def thenOther : List (Action 2) :=
  [next 1, next 1, next 1, next 1, next 1]

theorem paused_group_gets_no_command_early :
    ∃ s u, Machine.run step (State.initial 2 0)
        (pausedEarly ++ .event (.pauseGroup 1) :: thenOther) = some s ∧
      step s (next 1) = some u ∧ u.pool.sends = s.pool.sends ++ [⟨1, job 2 none⟩] ∧
      (job 2 none).groupID ≠ 1 := by
  have hidle : Machine.Meets step PausesIdle (State.initial 2 0)
      (pausedEarly ++ .event (.pauseGroup 1) :: thenOther) := by
    decide
  have hrun : (Machine.run step (State.initial 2 0)
      (pausedEarly ++ .event (.pauseGroup 1) :: thenOther)).any (fun s =>
        (step s (next 1)).any fun u =>
          decide (u.pool.sends = s.pool.sends ++ [⟨1, job 2 none⟩])) = true := by
    decide
  simp only [Option.any_eq_true, decide_eq_true_eq] at hrun
  obtain ⟨s, hs, u, hu, hsend⟩ := hrun
  exact ⟨s, u, hs, hu, hsend, paused_group_gets_no_command hidle hs
    (by simp [thenOther, next]) (by simp [thenOther, next]) hu hsend⟩

/-- Group 1 is paused when a worker has just passed the pause test for it. -/
private def pausedLate : List (Action 1) :=
  [.event (.submit (job 1 none)), .worker 0 .receive, next 0, next 0]

private def thenSame : List (Action 1) := [next 0, next 0, next 0]

theorem not_paused_group_gets_no_command :
    ¬ ∀ (n : ℕ) (now : Time) (g : ℤ) (as bs : List (Action n)) (s u : State n) (x : Action n)
      (a : Accepted),
      Machine.run step (State.initial n now) (as ++ .event (.pauseGroup g) :: bs) = some s →
      .event (.resumeGroup g) ∉ bs → .event .stopResume ∉ as ++ bs → step s x = some u →
      u.pool.sends = s.pool.sends ++ [a] → a.job.groupID ≠ g := by
  intro h
  have hrun : (Machine.run step (State.initial 1 0)
      (pausedLate ++ .event (.pauseGroup 1) :: thenSame)).any (fun s =>
        (step s (next 0)).any fun u =>
          decide (u.pool.sends = s.pool.sends ++ [⟨0, job 1 none⟩])) = true := by
    decide
  simp only [Option.any_eq_true, decide_eq_true_eq] at hrun
  obtain ⟨s, hs, u, hu, hsend⟩ := hrun
  exact h 1 0 1 pausedLate thenSame s u (next 0) _ hs (by simp [thenSame, next])
    (by simp [pausedLate, thenSame, next]) hu hsend rfl

/-! ### Maintenance windows -/

/-- The job of a worker that has passed the window test and not sent yet. -/
def Worker.cleared (w : Worker) : Option Accepted :=
  match w.phase with
  | .processJob .lookupSemaphore a | .processJob .enterSemaphore a
  | .processJob .sendCommand a => some a
  | _ => none

/-- The clock does not pass the last quarter hour of the window of a job that a
worker has cleared and not sent yet. -/
def ClockInWindow (s : State n) : Action n → Prop
  | .event (.advance now) => ∀ i, ∀ a ∈ (s.workers i).cleared, ∀ w ∈ a.job.maintenanceWindow,
      now ≤ w.endTime - 15 * minute
  | _ => True

instance (s : State n) : ∀ x, Decidable (ClockInWindow s x)
  | .event (.advance now) => inferInstanceAs (Decidable (∀ i, ∀ a ∈ (s.workers i).cleared,
      ∀ w ∈ a.job.maintenanceWindow, now ≤ w.endTime - 15 * minute))
  | .event (.submit _) | .event (.pauseGroup _) | .event (.resumeGroup _) | .event .stopResume
  | .event .stopClose | .event (.delay _ _) | .event (.registry _) | .worker _ _ => isTrue trivial

theorem moves_cleared {s t : WorkerPool} {w w' : Worker} {a : Accepted} (h : Moves s w w' t)
    (ha : w'.cleared = some a) : w.cleared = some a ∨ ∀ v, a.job.maintenanceWindow = some v →
      v.startTime ≤ s.now ∧ s.now ≤ v.endTime - 15 * minute := by
  cases h with
  | inWindow hwindow =>
    obtain rfl : _ = a := Option.some.inj ha
    exact Or.inr hwindow
  | lookedUp | entered => exact Or.inl ha
  | _ => cases ha

theorem Worker.cleared_wake (w : Worker) : w.wake.cleared = w.cleared :=
  Worker.wake_congr (fun _ _ => rfl) w

/-- Every cleared job has `P` at the current time. -/
def Cleared (P : Time → MaintenanceWindow → Prop) (s : State n) : Prop :=
  ∀ i a w, (s.workers i).cleared = some a → a.job.maintenanceWindow = some w → P s.pool.now w

/-- What the window test implies holds of cleared jobs, as long as the clock
preserves it. -/
theorem cleared_step {P : Time → MaintenanceWindow → Prop} {s u : State n} {x : Action n}
    (h : Steps s x u)
    (htest : ∀ w : MaintenanceWindow, w.startTime ≤ s.pool.now →
      s.pool.now ≤ w.endTime - 15 * minute → P s.pool.now w)
    (hadvance : ∀ now, x = .event (.advance now) → s.pool.now ≤ now →
      ∀ i a w, (s.workers i).cleared = some a → a.job.maintenanceWindow = some w →
        P s.pool.now w → P now w)
    (hs : Cleared P s) : Cleared P u := by
  have hevent {e : Event} {pool : WorkerPool} (hx : x = .event e) (hoccurs : Occurs s.pool e pool)
      {i : Fin n} {a : Accepted} {w : MaintenanceWindow} (hi : (s.workers i).cleared = some a)
      (hw : a.job.maintenanceWindow = some w) : P pool.now w := by
    cases hoccurs with
    | advance hle => exact hadvance _ hx hle i a w hi hw (hs i a w hi hw)
    | _ => exact hs i a w hi hw
  intro i a w hi hw
  cases h with
  | event hoccurs => exact hevent rfl hoccurs hi hw
  | broadcast hoccurs =>
    rw [Worker.cleared_wake] at hi
    exact hevent rfl hoccurs hi hw
  | @worker k act v pool hmoves =>
    have hgoal : P s.pool.now w := by
      by_cases hik : i = k
      · subst hik
        simp only [Function.update_self] at hi
        rcases moves_cleared hmoves hi with hold | hwindow
        · exact hs i a w hold hw
        · exact htest w (hwindow w hw).1 (hwindow w hw).2
      · exact hs i a w (by simpa [hik] using hi) hw
    change P pool.now w
    rw [(moves_frame hmoves).now]
    exact hgoal

/-- A command for a job with a window is sent after the window opened, and, if the
clock never left the window between test and sending, a quarter hour before it
closes. -/
theorem commands_sent_in_window {now : Time} {as : List (Action n)} {s u : State n}
    {x : Action n} {a : Accepted} {w : MaintenanceWindow}
    (hrun : Machine.run step (State.initial n now) as = some s) (hstep : step s x = some u)
    (hsend : u.pool.sends = s.pool.sends ++ [a]) (hw : a.job.maintenanceWindow = some w) :
    w.startTime ≤ s.pool.now ∧
      (Machine.Meets step ClockInWindow (State.initial n now) as →
        s.pool.now ≤ w.endTime - 15 * minute) := by
  obtain ⟨i, hi⟩ := send_step (step_steps hstep) hsend
  have hcleared : (s.workers i).cleared = some a := by simp [Worker.cleared, hi]
  have hinitial (P : Time → MaintenanceWindow → Prop) : Cleared P (State.initial n now) := by
    intro j b v hj
    cases hj
  refine ⟨?_, fun hclock => ?_⟩
  · refine Machine.run_invariant step (I := Cleared fun t v => v.startTime ≤ t)
      (fun s y t hs hstep => cleared_step (step_steps hstep) (fun v hv _ => hv) ?_ hs)
      (hinitial _) hrun i a w hcleared hw
    intro now' _ hle j b v _ _ hv
    exact hv.trans hle
  · refine Machine.run_invariant_of_meets step (I := Cleared fun t v => t ≤ v.endTime - 15 * minute)
      (fun s y t hs hC hstep => cleared_step (step_steps hstep) (fun v _ hv => hv) ?_ hs)
      (hinitial _) hclock hrun i a w hcleared hw
    intro now' hy _ j b v hj hv _
    subst hy
    exact hC j b hj v hv

/-- A job whose window is hour 1 to hour 2 is tested at hour 1 and sent at `t`. -/
private def sentAt (t : Time) : List (Action 1) :=
  [.event (.advance hour), .event (.submit (job 1 (some ⟨hour, 2 * hour⟩))), .worker 0 .receive,
    next 0, next 0, next 0, next 0, next 0, .event (.advance t)]

theorem commands_sent_in_window_at_end :
    ∃ s u, Machine.run step (State.initial 1 0) (sentAt (105 * minute)) = some s ∧
      step s (next 0) = some u ∧
      u.pool.sends = s.pool.sends ++ [⟨0, job 1 (some ⟨hour, 2 * hour⟩)⟩] ∧
      hour ≤ s.pool.now ∧ s.pool.now ≤ 2 * hour - 15 * minute := by
  have hclock : Machine.Meets step ClockInWindow (State.initial 1 0) (sentAt (105 * minute)) := by
    decide
  have hrun : (Machine.run step (State.initial 1 0) (sentAt (105 * minute))).any (fun s =>
      (step s (next 0)).any fun u => decide (u.pool.sends =
        s.pool.sends ++ [⟨0, job 1 (some ⟨hour, 2 * hour⟩)⟩])) = true := by
    decide
  simp only [Option.any_eq_true, decide_eq_true_eq] at hrun
  obtain ⟨s, hs, u, hu, hsend⟩ := hrun
  obtain ⟨hstart, hend⟩ := commands_sent_in_window hs hu hsend rfl
  exact ⟨s, u, hs, hu, hsend, hstart, hend hclock⟩

theorem not_commands_sent_in_window :
    ¬ ∀ (n : ℕ) (now : Time) (as : List (Action n)) (s u : State n) (x : Action n) (a : Accepted)
      (w : MaintenanceWindow),
      Machine.run step (State.initial n now) as = some s → step s x = some u →
      u.pool.sends = s.pool.sends ++ [a] → a.job.maintenanceWindow = some w →
      w.startTime ≤ s.pool.now ∧ s.pool.now ≤ w.endTime - 15 * minute := by
  intro h
  have hrun : (Machine.run step (State.initial 1 0) (sentAt (3 * hour))).any (fun s =>
      decide (s.pool.now = 3 * hour) && (step s (next 0)).any fun u => decide (u.pool.sends =
        s.pool.sends ++ [⟨0, job 1 (some ⟨hour, 2 * hour⟩)⟩])) = true := by
    decide
  simp only [Option.any_eq_true, Bool.and_eq_true, decide_eq_true_eq] at hrun
  obtain ⟨s, hs, hnow, u, hu, hsend⟩ := hrun
  have hend := (h 1 0 _ s u _ _ _ hs hu hsend rfl).2
  rw [hnow] at hend
  exact absurd hend (by decide)

end Patchli.Orchestration
