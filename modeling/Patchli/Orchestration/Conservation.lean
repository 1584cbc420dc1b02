import Patchli.Foundation.Machine
import Patchli.Orchestration.Steps

/-!
# Jobs are neither lost nor duplicated

Every accepted job is in one place: the queue, an execution of `processJob`, a
delay goroutine, or the list of finished jobs. A step only moves jobs between
these places.
-/

namespace Patchli.Orchestration

open WorkerPool

/-- `processJob` still owes the job an outcome. -/
def Point.holdsJob : Point → Bool
  | .leaveSemaphore | .releaseJob => false
  | _ => true

def Worker.held (w : Worker) : Multiset Accepted :=
  match w.phase with
  | .processJob p a => if p.holdsJob then {a} else 0
  | _ => 0

/-- The jobs in the places of the pool itself. -/
def WorkerPool.places (s : WorkerPool) : Multiset Accepted :=
  s.jobQueue + s.delays.map Delay.item + s.finished.map Prod.fst

def State.places {n : ℕ} (s : State n) : Multiset Accepted :=
  s.pool.places + ∑ i, (s.workers i).held

@[simp] theorem places_finish (s : WorkerPool) (a : Accepted) (o : Outcome) :
    (s.finish a o).places = s.places + {a} := by
  simp only [places, finish, List.map_append, List.map_cons, List.map_nil, ← Multiset.coe_add,
    Multiset.coe_singleton, add_assoc]

theorem moves_places {s t : WorkerPool} {w w' : Worker} (h : Moves s w w' t) :
    s.places + w.held = t.places + w'.held := by
  cases h with
  | observeStop | exit | paused | unpaused | inWindow | acquired | lookedUp | entered | left
  | released => rfl
  | receive hqueue =>
    simp only [places, Worker.held, Point.holdsJob, hqueue, ← Multiset.cons_coe,
      ← Multiset.singleton_add, if_true]
    abel
  | conflict | skipped =>
    simp [Worker.held, Point.holdsJob]
  | delayed =>
    simp only [places, Worker.held, Point.holdsJob, List.map_append, List.map_cons, List.map_nil,
      ← Multiset.coe_add, Multiset.coe_singleton, Bool.false_eq_true, if_true, if_false, add_zero]
    abel
  | sent =>
    simp [Worker.held, Point.holdsJob]
    rfl

theorem occurs_places {s t : WorkerPool} {e : Event} (h : Occurs s e t) :
    s.places + t.accepted = t.places + s.accepted := by
  cases h with
  | advance | pauseGroup | resumeGroup | stopResume | stopClose | registry => rfl
  | submit =>
    simp only [places, ← Multiset.coe_add]
    abel
  | delaying hitems =>
    simp only [places, hitems]
  | dropped hperm =>
    rw [places_finish]
    simp only [places, finish, Multiset.coe_eq_coe.mpr hperm, ← Multiset.cons_coe,
      ← Multiset.singleton_add]
    abel
  | resubmitted hperm =>
    simp only [places, Multiset.coe_eq_coe.mpr hperm, ← Multiset.cons_coe,
      ← Multiset.singleton_add, ← Multiset.coe_add, Multiset.coe_nil, add_zero]
    abel

@[simp] theorem Worker.held_wake (w : Worker) : w.wake.held = w.held :=
  Worker.wake_congr (fun _ _ => rfl) w

/-- The records agree: tickets number the accepted jobs, and the jobs sent are
those with an outcome of `SendCommand`. -/
structure Recorded (s : WorkerPool) : Prop where
  tickets : s.accepted.map Accepted.ticket = List.range s.accepted.length
  sends : s.sends = (s.finished.filter fun x => x.2.dispatched).map Prod.fst

theorem recorded_finish {s : WorkerPool} {a : Accepted} {o : Outcome} (h : Recorded s)
    (ho : o.dispatched = false) : Recorded (s.finish a o) := by
  refine ⟨h.tickets, ?_⟩
  simp [finish, h.sends, List.filter_append, ho]

theorem moves_recorded {s t : WorkerPool} {w w' : Worker} (h : Moves s w w' t) (hs : Recorded s) :
    Recorded t := by
  cases h with
  | observeStop | exit | paused | unpaused | inWindow | acquired | lookedUp | entered | left
  | released | receive | delayed => exact ⟨hs.tickets, hs.sends⟩
  | conflict => exact recorded_finish hs rfl
  | skipped ho => exact recorded_finish hs ho
  | sent ho =>
    refine ⟨hs.tickets, ?_⟩
    simp [finish, hs.sends, List.filter_append, ho]

theorem occurs_recorded {s t : WorkerPool} {e : Event} (h : Occurs s e t) (hs : Recorded s) :
    Recorded t := by
  cases h with
  | advance | pauseGroup | resumeGroup | stopResume | stopClose | registry | delaying
  | resubmitted => exact ⟨hs.tickets, hs.sends⟩
  | submit =>
    refine ⟨?_, hs.sends⟩
    simp [hs.tickets, List.range_succ]
  | dropped _ ho => exact recorded_finish ⟨hs.tickets, hs.sends⟩ ho

variable {n : ℕ}

structure Conserved (s : State n) : Prop where
  places : s.places = s.pool.accepted
  recorded : Recorded s.pool

theorem conserved_step {s u : State n} {a : Action n} (h : Steps s a u) (hs : Conserved s) :
    Conserved u := by
  have hevent {e : Event} {pool : WorkerPool} (hoccurs : Occurs s.pool e pool) :
      pool.places + ∑ i, (s.workers i).held = pool.accepted := by
    have hplaces : s.pool.places + ∑ i, (s.workers i).held = s.pool.accepted := hs.places
    apply add_left_cancel (a := (s.pool.accepted : Multiset Accepted))
    calc
      _ = pool.places + s.pool.accepted + ∑ i, (s.workers i).held := by abel
      _ = s.pool.places + pool.accepted + ∑ i, (s.workers i).held := by
        rw [occurs_places hoccurs]
      _ = s.pool.places + ∑ i, (s.workers i).held + pool.accepted := by abel
      _ = _ := by rw [hplaces]
  cases h with
  | event hoccurs => exact ⟨hevent hoccurs, occurs_recorded hoccurs hs.recorded⟩
  | broadcast hoccurs =>
    refine ⟨?_, occurs_recorded hoccurs hs.recorded⟩
    simp only [State.places, Worker.held_wake]
    exact hevent hoccurs
  | worker hmoves =>
    refine ⟨?_, moves_recorded hmoves hs.recorded⟩
    rw [(moves_frame hmoves).accepted, ← hs.places]
    exact (Threads.total_update Worker.held s.workers (moves_places hmoves)).symm

theorem run_conserved {now : Time} {as : List (Action n)} {s : State n}
    (hrun : Machine.run step (State.initial n now) as = some s) : Conserved s := by
  refine Machine.run_invariant step (I := Conserved)
    (fun _ _ _ hs hstep => conserved_step (step_steps hstep) hs) ?_ hrun
  exact ⟨by simp [State.places, State.initial, places, WorkerPool.new, Worker.held], rfl, rfl⟩

theorem Recorded.nodup {s : WorkerPool} (h : Recorded s) : s.accepted.Nodup := by
  apply List.Nodup.of_map Accepted.ticket
  rw [h.tickets]
  exact List.nodup_range

theorem Conserved.finished_le {s : State n} (h : Conserved s) :
    (s.pool.finished.map Prod.fst : Multiset Accepted) ≤ s.pool.accepted := by
  rw [← h.places]
  simp only [State.places]
  exact (Multiset.le_add_left _ _).trans (Multiset.le_add_right _ _)

theorem Conserved.nodup_finished {s : State n} (h : Conserved s) :
    (s.pool.finished.map Prod.fst).Nodup :=
  Multiset.coe_nodup.mp
    (Multiset.nodup_of_le h.finished_le (Multiset.coe_nodup.mpr h.recorded.nodup))

theorem Worker.count_held (w : Worker) (a : Accepted) :
    w.held.count a = if a ∈ w.held then 1 else 0 := by
  have hnodup : w.held.Nodup := by
    unfold Worker.held
    split
    · split <;> simp
    · simp
  rw [Multiset.count_eq_of_nodup hnodup]

/-- Every accepted job is at each moment in exactly one place, and no other job is
anywhere; each is sent at most once, exactly when its one outcome is one of
`SendCommand`. -/
theorem accepted_jobs_conserved {now : Time} {as : List (Action n)} {s : State n}
    (hrun : Machine.run step (State.initial n now) as = some s) (a : Accepted) :
    (s.pool.jobQueue.count a + (Finset.univ.filter fun i => a ∈ (s.workers i).held).card +
        (s.pool.delays.map Delay.item).count a + (s.pool.finished.map Prod.fst).count a =
      if a ∈ s.pool.accepted then 1 else 0) ∧
    s.pool.sends.count a ≤ 1 ∧
    (a ∈ s.pool.sends ↔ ∃ o, (a, o) ∈ s.pool.finished ∧ (o = .sent ∨ o = .sendFailed)) := by
  obtain ⟨hplaces, hrecorded⟩ := run_conserved hrun
  have hcount := congrArg (Multiset.count a) hplaces
  simp only [State.places, places, Multiset.count_add, Multiset.coe_count, Multiset.count_sum',
    Worker.count_held, Finset.sum_boole, Nat.cast_id] at hcount
  have haccepted : s.pool.accepted.count a = if a ∈ s.pool.accepted then 1 else 0 :=
    hrecorded.nodup.count
  refine ⟨?_, ?_, ?_⟩
  · omega
  · have hsub : s.pool.sends.Sublist (s.pool.finished.map Prod.fst) := by
      rw [hrecorded.sends]
      exact List.filter_sublist.map _
    have hle := hsub.count_le a
    split at haccepted <;> omega
  · have ho (o : Outcome) : o.dispatched = true ↔ o = .sent ∨ o = .sendFailed := by
      cases o <;> simp [Outcome.dispatched]
    simp [hrecorded.sends, ho]

private def lateJob : Job := plainJob (ascii "j") (ascii "aa") 1 (some ⟨hour, 2 * hour⟩)

/-- A job submitted an hour early is delayed, queued again and sent. -/
private def delayedOnce : List (Action 1) :=
  [.event (.submit lateJob), .worker 0 .receive, next 0, next 0, next 0, next 0,
    .event (.delay 0 .start), .event (.advance hour), .event (.delay 0 .fire),
    .event (.delay 0 .submit), .worker 0 .receive] ++ List.replicate 7 (next 0)

theorem accepted_jobs_conserved_delayedOnce :
    ∃ s, Machine.run step (State.initial 1 0) delayedOnce = some s ∧
      s.pool.finished = [(⟨0, lateJob⟩, .sendFailed)] ∧ s.pool.sends.count ⟨0, lateJob⟩ ≤ 1 := by
  have hrun : (Machine.run step (State.initial 1 0) delayedOnce).any (fun s =>
      decide (s.pool.finished = [(⟨0, lateJob⟩, .sendFailed)])) = true := by
    decide
  simp only [Option.any_eq_true, decide_eq_true_eq] at hrun
  obtain ⟨s, hs, hfinished⟩ := hrun
  exact ⟨s, hs, hfinished, (accepted_jobs_conserved hs _).2.1⟩

end Patchli.Orchestration
