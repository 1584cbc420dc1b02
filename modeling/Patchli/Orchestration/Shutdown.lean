import Patchli.Orchestration.Semaphores

/-!
# Graceful shutdown

After `Stop` the workers drain the queue and leave. Nothing holds them back but a
paused group, and nothing is left behind but what is queued once all of them have
left.
-/

namespace Patchli.Orchestration

open WorkerPool

variable {n : ℕ}

/-- `Wait` would return. -/
def AllExited (s : State n) : Prop := ∀ i, (s.workers i).phase = .exited

instance (s : State n) : Decidable (AllExited s) :=
  inferInstanceAs (Decidable (∀ i, (s.workers i).phase = .exited))

/-- The job of a worker that has not passed the pause test. -/
def Worker.awaiting (w : Worker) : Option Accepted :=
  match w.phase with
  | .processJob .acquireJob a | .processJob .checkPause a | .processJob .wait a => some a
  | _ => none

/-- Jobs enter the queue only while some worker is there to take them, and once
`Stop` has resumed the groups, no group is paused that has a job before its pause
test. -/
def ShutsDownSafely (s : State n) : Action n → Prop
  | .event (.submit job) =>
    ¬ AllExited s ∧ (s.pool.stop ≠ .running → s.pool.pausedGroups job.groupID = false)
  | .event (.delay k .submit) =>
    ¬ AllExited s ∧ (s.pool.stop ≠ .running →
      ∀ x ∈ s.pool.delays[k]?, s.pool.pausedGroups x.item.job.groupID = false)
  | .event (.pauseGroup g) => s.pool.stop ≠ .running →
    (∀ a ∈ s.pool.jobQueue, a.job.groupID ≠ g) ∧
      ∀ i, ∀ a ∈ (s.workers i).awaiting, a.job.groupID ≠ g
  | _ => True

instance (s : State n) : ∀ x, Decidable (ShutsDownSafely s x)
  | .event (.submit job) => inferInstanceAs (Decidable (¬ AllExited s ∧
      (s.pool.stop ≠ .running → s.pool.pausedGroups job.groupID = false)))
  | .event (.delay k .submit) => inferInstanceAs (Decidable (¬ AllExited s ∧
      (s.pool.stop ≠ .running →
        ∀ x ∈ s.pool.delays[k]?, s.pool.pausedGroups x.item.job.groupID = false)))
  | .event (.pauseGroup g) => inferInstanceAs (Decidable (s.pool.stop ≠ .running →
      (∀ a ∈ s.pool.jobQueue, a.job.groupID ≠ g) ∧
        ∀ i, ∀ a ∈ (s.workers i).awaiting, a.job.groupID ≠ g))
  | .event (.advance _) | .event (.resumeGroup _) | .event .stopResume | .event .stopClose
  | .event (.registry _) | .event (.delay _ .start) | .event (.delay _ .fire)
  | .event (.delay _ .cancel) | .event (.delay _ .timeout) | .worker _ _ => isTrue trivial

/-! ### The queue is empty when everybody has left -/

theorem Worker.wake_exited {w : Worker} : w.wake.phase = .exited ↔ w.phase = .exited :=
  iff_of_eq (Worker.wake_congr (f := fun w => w.phase = .exited) (fun _ _ => by simp) w)

theorem drained_step {s u : State n} {x : Action n} (h : Steps s x u)
    (hsafe : ShutsDownSafely s x) (hs : AllExited s → s.pool.jobQueue = []) :
    AllExited u → u.pool.jobQueue = [] := by
  have hevent {e : Event} {pool : WorkerPool} (hx : x = .event e) (hoccurs : Occurs s.pool e pool)
      (hall : AllExited s) : pool.jobQueue = [] := by
    subst hx
    cases hoccurs with
    | submit | resubmitted => exact absurd hall hsafe.1
    | _ => exact hs hall
  intro hall
  cases h with
  | event hoccurs => exact hevent rfl hoccurs hall
  | broadcast hoccurs => exact hevent rfl hoccurs fun i => Worker.wake_exited.mp (hall i)
  | @worker k act w pool hmoves =>
    have hw : w.phase = .exited := by simpa using hall k
    generalize s.workers k = v at hmoves
    cases hmoves with
    | exit hempty => exact hempty
    | _ => cases hw

/-! ### No worker waits for a resume -/

/-- Whoever is in `pauseCond.Wait` waits for a paused group. -/
def Parked (s : State n) : Prop :=
  ∀ i a, (s.workers i).phase = .processJob .wait a → s.pool.pausedGroups a.job.groupID = true

/-- Once the groups were resumed, no job before its pause test is of a paused group. -/
def Unobstructed (s : State n) : Prop := s.pool.stop ≠ .running →
  (∀ a ∈ s.pool.jobQueue, s.pool.pausedGroups a.job.groupID = false) ∧
    ∀ i, ∀ a ∈ (s.workers i).awaiting, s.pool.pausedGroups a.job.groupID = false

theorem Worker.wake_ne_wait (w : Worker) (a : Accepted) : w.wake.phase ≠ .processJob .wait a := by
  obtain ⟨d, ph⟩ := w
  unfold Worker.wake
  split
  · exact fun h => nomatch h
  · rename_i hne
    exact hne a

theorem parked_step {s u : State n} {x : Action n} (h : Steps s x u) (hs : Parked s) :
    Parked u := by
  intro i a hi
  cases h with
  | event hoccurs hquiet =>
    have hold := hs i a hi
    cases hoccurs with
    | @pauseGroup g => by_cases hg : a.job.groupID = g <;> simp [hg, hold]
    | resumeGroup | stopResume => cases hquiet
    | _ => exact hold
  | broadcast => exact absurd hi (Worker.wake_ne_wait _ a)
  | @worker k act w pool hmoves =>
    by_cases hik : i = k
    · subst hik
      simp only [Function.update_self] at hi
      generalize s.workers i = v at hmoves
      cases hmoves with
      | paused hpaused =>
        cases hi
        exact hpaused
      | _ => cases hi
    · simp only [Function.update_of_ne hik] at hi
      exact (congrFun (moves_frame hmoves).pausedGroups _).trans (hs i a hi)

theorem Worker.awaiting_wake (w : Worker) : w.wake.awaiting = w.awaiting :=
  Worker.wake_congr (fun _ _ => rfl) w

theorem moves_awaiting {s t : WorkerPool} {w w' : Worker} {a : Accepted} (h : Moves s w w' t)
    (ha : a ∈ w'.awaiting) : a ∈ w.awaiting ∨ a ∈ s.jobQueue := by
  cases h with
  | receive hqueue =>
    cases ha
    exact Or.inr (hqueue ▸ List.mem_cons_self)
  | acquired | paused => exact Or.inl ha
  | _ => cases ha

theorem unobstructed_worker {s : State n} {k : Fin n} {w : Worker} {pool : WorkerPool}
    (hmoves : Moves s.pool (s.workers k) w pool) (hs : Unobstructed s) :
    Unobstructed ⟨pool, Function.update s.workers k w⟩ := by
  have hframe := moves_frame hmoves
  intro hstopped
  simp only [hframe.stop, hframe.pausedGroups] at hstopped ⊢
  obtain ⟨hold, hawait⟩ := hs hstopped
  refine ⟨fun a ha => hold a (hframe.jobQueue a ha), ?_⟩
  intro i a ha
  by_cases hik : i = k
  · subst hik
    rw [Function.update_self] at ha
    rcases moves_awaiting hmoves ha with ha | ha
    · exact hawait i a ha
    · exact hold a ha
  · rw [Function.update_of_ne hik] at ha
    exact hawait i a ha

theorem unobstructed_step {s u : State n} {x : Action n} (h : Steps s x u)
    (hsafe : ShutsDownSafely s x) (hs : Unobstructed s) : Unobstructed u := by
  have hevent {e : Event} {pool : WorkerPool} (hx : x = .event e)
      (hoccurs : Occurs s.pool e pool) : Unobstructed ⟨pool, s.workers⟩ := by
    subst hx
    intro hstop
    cases hoccurs with
    | submit =>
      obtain ⟨hqueue, hawait⟩ := hs hstop
      refine ⟨fun a ha => ?_, hawait⟩
      rcases List.mem_append.mp ha with ha | ha
      · exact hqueue a ha
      · obtain rfl := List.mem_singleton.mp ha
        exact hsafe.2 hstop
    | resubmitted _ hx =>
      obtain ⟨hqueue, hawait⟩ := hs hstop
      refine ⟨fun a ha => ?_, hawait⟩
      rcases List.mem_append.mp ha with ha | ha
      · exact hqueue a ha
      · obtain rfl := List.mem_singleton.mp ha
        exact hsafe.2 hstop _ hx
    | pauseGroup =>
      obtain ⟨hqueue, hawait⟩ := hs hstop
      obtain ⟨hqueue', hawait'⟩ := hsafe hstop
      refine ⟨fun a ha => ?_, fun i a ha => ?_⟩
      · simpa [hqueue' a ha] using hqueue a ha
      · simpa [hawait' i a ha] using hawait i a ha
    | @resumeGroup g =>
      obtain ⟨hqueue, hawait⟩ := hs hstop
      refine ⟨fun a ha => ?_, fun i a ha => ?_⟩
      · by_cases hg : a.job.groupID = g <;> simp [hg, hqueue a ha]
      · by_cases hg : a.job.groupID = g <;> simp [hg, hawait i a ha]
    | stopResume => exact ⟨fun _ _ => rfl, fun _ _ _ => rfl⟩
    | stopClose hresumed => exact hs (by rw [hresumed]; decide)
    | _ => exact hs hstop
  cases h with
  | event hoccurs => exact hevent rfl hoccurs
  | broadcast hoccurs =>
    intro hstop
    simpa only [Worker.awaiting_wake] using hevent rfl hoccurs hstop
  | worker hmoves => exact unobstructed_worker hmoves hs

/-! ### The workers can always leave -/

/-- How far `processJob` is from its return. -/
def Point.rank : Point → ℕ
  | .acquireJob => 9
  | .checkPause => 8
  | .wait => 7
  | .checkWindow => 6
  | .lookupSemaphore => 5
  | .enterSemaphore => 4
  | .sendCommand => 3
  | .leaveSemaphore => 2
  | .releaseJob => 1

def Worker.rank (w : Worker) : ℕ :=
  match w.phase with
  | .exited => 0
  | .select => if w.draining then 1 else 2
  | .processJob p _ => (if w.draining then 1 else 2) + p.rank

/-- The operations that the workers have left, at most. -/
def State.work (s : State n) : ℕ := 12 * s.pool.jobQueue.length + ∑ i, (s.workers i).rank

theorem moves_rank {s t : WorkerPool} {w w' : Worker} (h : Moves s w w' t) :
    12 * t.jobQueue.length + w'.rank < 12 * s.jobQueue.length + w.rank := by
  cases h with
  | @receive d a q hqueue =>
    cases d <;> simp [Worker.rank, Point.rank, hqueue] <;> omega
  | observeStop | exit => simp [Worker.rank]
  | _ => simp [Worker.rank, Point.rank, finish, setSemaphore]

/-- The machine in which only the workers move. -/
def workerStep (s : State n) (x : Fin n × WorkerAct) : Option (State n) :=
  step s (.worker x.1 x.2)

theorem workerStep_moves {s u : State n} {x : Fin n × WorkerAct} (h : workerStep s x = some u) :
    ∃ w, Moves s.pool (s.workers x.1) w u.pool ∧
      u.workers = Function.update s.workers x.1 w := by
  cases step_steps (a := .worker x.1 x.2) h with
  | worker hmoves => exact ⟨_, hmoves, rfl⟩

theorem work_lt {s u : State n} {x : Fin n × WorkerAct} (h : workerStep s x = some u) :
    u.work < s.work := by
  obtain ⟨w, hmoves, hworkers⟩ := workerStep_moves h
  unfold State.work
  rw [hworkers]
  exact Threads.total_lt Worker.rank s.workers (moves_rank hmoves)

theorem workerStep_isSome {s : State n} {i : Fin n} {x : WorkerAct}
    (h : ((s.workers i).act s.pool x).isSome) : ∃ u, workerStep s (i, x) = some u := by
  obtain ⟨r, hr⟩ := Option.isSome_iff_exists.mp h
  refine ⟨⟨r.2, Function.update s.workers i r.1⟩, ?_⟩
  simp [workerStep, step, hr]

theorem processJob_isSome {s : WorkerPool} {io : Fleet.AgentManager.SendIO} {p : Point}
    {a : Accepted} (hwait : p ≠ .wait)
    (hsem : p = .enterSemaphore → ∃ k < semaphoreCapacity,
      s.groupSemaphores a.job.groupID = some k)
    (hleave : p = .leaveSemaphore → ∃ k, s.groupSemaphores a.job.groupID = some (k + 1)) :
    (s.processJob io a p).isSome := by
  cases p with
  | wait => exact absurd rfl hwait
  | enterSemaphore =>
    obtain ⟨k, hk, hg⟩ := hsem rfl
    simp [processJob, hg, hk]
  | leaveSemaphore =>
    obtain ⟨k, hg⟩ := hleave rfl
    simp [processJob, hg]
  | acquireJob =>
    simp only [processJob]
    split <;> rfl
  | checkPause =>
    simp only [processJob]
    split <;> rfl
  | checkWindow =>
    simp only [processJob]
    split
    · rfl
    · split
      · rfl
      · split
        · rfl
        · split <;> rfl
  | lookupSemaphore =>
    simp only [processJob]
    split <;> rfl
  | sendCommand =>
    simp only [processJob]
    split <;> rfl
  | releaseJob => rfl

theorem act_process {w : Worker} {s : WorkerPool} {io : Fleet.AgentManager.SendIO} {p : Point}
    {a : Accepted} (hw : w.phase = .processJob p a) :
    (w.act s (.process io)).isSome = (s.processJob io a p).isSome := by
  obtain ⟨d, ph⟩ := w
  obtain rfl : ph = _ := hw
  simp [Worker.act]

theorem Worker.slots_le {w : Worker} {p : Point} {a : Accepted}
    (hw : w.phase = .processJob p a) (hp : p.holdsSlot = true) : w.slots a.job.groupID = 1 := by
  simp [Worker.slots, hw, hp]

theorem exists_slot {w : Worker} {g : ℤ} (h : 0 < w.slots g) :
    ∃ p a, w.phase = .processJob p a ∧ p.holdsSlot = true ∧ a.job.groupID = g := by
  unfold Worker.slots at h
  split at h
  · rename_i p a hw
    split at h
    · rename_i hslot
      exact ⟨p, a, hw, hslot⟩
    · omega
  · omega

def ExecutionMoves (s : State n) : Prop :=
  ∃ i io u, workerStep s (i, .process io) = some u

theorem executionMoves {s : State n} {i : Fin n} {p : Point} {a : Accepted}
    (hi : (s.workers i).phase = .processJob p a)
    (h : (s.pool.processJob unsignedIO a p).isSome) : ExecutionMoves s :=
  ⟨i, unsignedIO, workerStep_isSome ((act_process hi).trans h)⟩

theorem slot_holder_moves {s : State n} (hs : Paired s) {i : Fin n} {p : Point} {a : Accepted}
    (hi : (s.workers i).phase = .processJob p a) (hp : p.holdsSlot = true) :
    ExecutionMoves s := by
  have hpos : 0 < s.pool.tokens a.job.groupID := by
    rw [hs.tokens]
    have hslot := Worker.slots_le hi hp
    have hle := Finset.single_le_sum (f := fun j => (s.workers j).slots a.job.groupID)
      (fun j _ => Nat.zero_le _) (Finset.mem_univ i)
    simp only [hslot] at hle
    omega
  apply executionMoves hi
  apply processJob_isSome
  · rintro rfl
    cases hp
  · rintro rfl
    cases hp
  · intro _
    unfold tokens at hpos
    cases hg : s.pool.groupSemaphores a.job.groupID with
    | none => simp [hg] at hpos
    | some k =>
      rw [hg, Option.getD_some] at hpos
      exact ⟨k - 1, by rw [Nat.sub_add_cancel hpos]⟩

/-- An execution that is not in `pauseCond.Wait` does not block for good. -/
theorem execution_moves {s : State n} (hs : Paired s) {i : Fin n} {p : Point} {a : Accepted}
    (hi : (s.workers i).phase = .processJob p a) (hp : p ≠ .wait) : ExecutionMoves s := by
  by_cases hslot : p.holdsSlot = true
  · exact slot_holder_moves hs hi hslot
  · by_cases hfull : p = .enterSemaphore ∧ semaphoreCapacity ≤ s.pool.tokens a.job.groupID
    · -- the group's channel is full, so somebody holds a slot of it
      have hsum : ∑ j, (s.workers j).slots a.job.groupID ≠ 0 := by
        rw [← hs.tokens]
        have hcap := hfull.2
        unfold semaphoreCapacity at hcap
        omega
      obtain ⟨j, -, hj⟩ := Finset.exists_ne_zero_of_sum_ne_zero hsum
      obtain ⟨q, b, hq, hqslot, -⟩ := exists_slot (Nat.pos_of_ne_zero hj)
      exact slot_holder_moves hs hq hqslot
    · apply executionMoves hi
      apply processJob_isSome hp
      · rintro rfl
        obtain ⟨k, hk⟩ := Option.ne_none_iff_exists'.mp (hs.made i _ a hi rfl)
        refine ⟨k, ?_, hk⟩
        simpa [tokens, hk] using hfull
      · rintro rfl
        exact absurd rfl hslot

/-- After `Stop`, as long as some worker has not left, some worker can move. -/
theorem exists_workerStep {s : State n} (hstop : s.pool.stop = .closed) (hpaired : Paired s)
    (hparked : Parked s) (hfree : Unobstructed s) (hall : ¬ AllExited s) :
    ∃ y u, workerStep s y = some u := by
  obtain ⟨i, hi⟩ := not_forall.mp hall
  have hselect {x : WorkerAct} (h : ((s.workers i).act s.pool x).isSome) :
      ∃ y u, workerStep s y = some u := ⟨(i, x), workerStep_isSome h⟩
  cases hph : (s.workers i).phase with
  | exited => exact absurd hph hi
  | select =>
    cases hd : (s.workers i).draining with
    | false =>
      apply hselect (x := .observeStop)
      simp [Worker.act, hph, hd, hstop]
    | true =>
      cases hqueue : s.pool.jobQueue with
      | nil =>
        apply hselect (x := .exit)
        simp [Worker.act, hph, hd, hqueue]
      | cons a q =>
        apply hselect (x := .receive)
        simp [Worker.act, hph, hqueue]
  | processJob p a =>
    obtain ⟨j, io, u, hu⟩ := execution_moves hpaired hph (by
      rintro rfl
      have hpaused := hparked i a hph
      rw [(hfree (by rw [hstop]; decide)).2 i a (by simp [Worker.awaiting, hph])] at hpaused
      cases hpaused)
    exact ⟨_, u, hu⟩

theorem workers_can_exit {s : State n} (hstop : s.pool.stop = .closed) (hpaired : Paired s)
    (hparked : Parked s) (hfree : Unobstructed s) :
    ∃ xs u, Machine.run workerStep s xs = some u ∧ AllExited u := by
  refine Machine.exists_run_of_progress workerStep
    (I := fun s => s.pool.stop = .closed ∧ Paired s ∧ Parked s ∧ Unobstructed s)
    State.work ?_ ⟨hstop, hpaired, hparked, hfree⟩
  rintro s ⟨hstop, hpaired, hparked, hfree⟩ hall
  obtain ⟨y, u, hstep⟩ := exists_workerStep hstop hpaired hparked hfree hall
  refine ⟨y, u, hstep, ⟨?_, ?_, ?_, ?_⟩, work_lt hstep⟩
  · obtain ⟨w, hmoves, -⟩ := workerStep_moves hstep
    exact (moves_frame hmoves).stop.trans hstop
  · exact paired_step (step_steps hstep) hpaired
  · exact parked_step (step_steps hstep) hparked
  · exact unobstructed_step (step_steps hstep) trivial hfree

/-- In runs that shut down safely no accepted job is left in the queue when the
workers have left, and after `Stop` the workers can always leave on their own. -/
theorem shutdown_drains_and_exits {now : Time} {as : List (Action n)} {s : State n}
    (hsafe : Machine.Meets step ShutsDownSafely (State.initial n now) as)
    (hrun : Machine.run step (State.initial n now) as = some s) :
    (AllExited s → s.pool.jobQueue = []) ∧
      (s.pool.stop = .closed → ∃ xs u, Machine.run workerStep s xs = some u ∧ AllExited u) := by
  obtain ⟨hdrained, hpaired, hparked, hfree⟩ : (AllExited s → s.pool.jobQueue = []) ∧ Paired s ∧
      Parked s ∧ Unobstructed s := by
    refine Machine.run_invariant_of_meets step (I := fun s =>
      (AllExited s → s.pool.jobQueue = []) ∧ Paired s ∧ Parked s ∧ Unobstructed s)
      ?_ ?_ hsafe hrun
    · rintro s x t ⟨hdrained, hpaired, hparked, hfree⟩ hC hstep
      have hsteps := step_steps hstep
      exact ⟨drained_step hsteps hC hdrained, paired_step hsteps hpaired,
        parked_step hsteps hparked, unobstructed_step hsteps hC hfree⟩
    · refine ⟨fun _ => rfl, paired_initial n now, ?_, fun hstop => absurd rfl hstop⟩
      intro i a hi
      cases hi
  exact ⟨hdrained, fun hstop => workers_can_exit hstop hpaired hparked hfree⟩

private def queued (groupID : ℤ) : Job := plainJob (ascii "j") (ascii "aa") groupID none

/-- A job waits for a paused group when the pool is stopped. -/
private def stoppedPaused : List (Action 1) :=
  [.event (.pauseGroup 1), .event (.submit (queued 1)), .worker 0 .receive, next 0, next 0,
    .event (.submit (queued 1)), .event .stopResume, .event .stopClose]

theorem shutdown_drains_and_exits_stoppedPaused :
    ∃ s, Machine.run step (State.initial 1 0) stoppedPaused = some s ∧
      ∃ xs u, Machine.run workerStep s xs = some u ∧ AllExited u := by
  have hsafe : Machine.Meets step ShutsDownSafely (State.initial 1 0) stoppedPaused := by
    decide
  have hrun : (Machine.run step (State.initial 1 0) stoppedPaused).any (fun s =>
      decide (s.pool.stop = .closed)) = true := by
    decide
  simp only [Option.any_eq_true, decide_eq_true_eq] at hrun
  obtain ⟨s, hs, hstop⟩ := hrun
  exact ⟨s, hs, (shutdown_drains_and_exits hsafe hs).2 hstop⟩

/-- A job is submitted after the only worker has left. -/
private def submittedLate : List (Action 1) :=
  [.event .stopResume, .event .stopClose, .worker 0 .observeStop, .worker 0 .exit,
    .event (.submit (queued 1))]

/-- A group is paused after `Stop` resumed it and before a worker tests it. -/
private def pausedAfterStop : List (Action 1) :=
  [.event (.submit (queued 1)), .event .stopResume, .event (.pauseGroup 1), .event .stopClose,
    .worker 0 .receive, next 0, next 0]

/-- A worker in `pauseCond.Wait` cannot leave by steps of the workers. -/
theorem waiting_worker_stuck {s u : State 1} {xs : List (Fin 1 × WorkerAct)} {a : Accepted}
    (hs : (s.workers 0).phase = .processJob .wait a) (hrun : Machine.run workerStep s xs = some u) :
    ¬ AllExited u := by
  intro hall
  cases xs with
  | nil =>
    cases hrun
    rw [hall 0] at hs
    cases hs
  | cons x xs =>
    obtain ⟨t, hstep, -⟩ := (Machine.run_cons workerStep).mp hrun
    obtain ⟨w, hmoves, -⟩ := workerStep_moves hstep
    rw [Subsingleton.elim x.1 0] at hmoves
    generalize s.workers 0 = v at hmoves hs
    generalize t.pool = pool at hmoves
    cases hmoves <;> cases hs

/-- Without the condition a job stays queued for ever, and a worker stays for ever. -/
theorem not_shutdown_drains_and_exits :
    (¬ ∀ (n : ℕ) (now : Time) (as : List (Action n)) (s : State n),
      Machine.run step (State.initial n now) as = some s → AllExited s → s.pool.jobQueue = []) ∧
    ¬ ∀ (n : ℕ) (now : Time) (as : List (Action n)) (s : State n),
      Machine.run step (State.initial n now) as = some s → s.pool.stop = .closed →
      ∃ xs u, Machine.run workerStep s xs = some u ∧ AllExited u := by
  refine ⟨fun h => ?_, fun h => ?_⟩
  · have hrun : (Machine.run step (State.initial 1 0) submittedLate).any (fun s =>
        decide (AllExited s) && decide (s.pool.jobQueue ≠ [])) = true := by
      decide
    simp only [Option.any_eq_true, Bool.and_eq_true, decide_eq_true_eq] at hrun
    obtain ⟨s, hs, hall, hqueue⟩ := hrun
    exact hqueue (h 1 0 submittedLate s hs hall)
  · have hrun : (Machine.run step (State.initial 1 0) pausedAfterStop).any (fun s =>
        decide (s.pool.stop = .closed) &&
          decide ((s.workers 0).phase = .processJob .wait ⟨0, queued 1⟩)) = true := by
      decide
    simp only [Option.any_eq_true, Bool.and_eq_true, decide_eq_true_eq] at hrun
    obtain ⟨s, hs, hstop, hwait⟩ := hrun
    obtain ⟨xs, u, hxs, hall⟩ := h 1 0 pausedAfterStop s hs hstop
    exact waiting_worker_stuck hwait hxs hall

end Patchli.Orchestration
