import Patchli.Orchestration.Exclusion
import Patchli.Orchestration.Shutdown

/-!
# Paused groups and the other groups

A worker that takes a job of a paused group waits in `pauseCond.Wait` and keeps the
job's node meanwhile. So the paused groups can take up all workers, but only with
jobs for as many different nodes.
-/

namespace Patchli.Orchestration

open WorkerPool

variable {n : ℕ}

/-- In `pauseCond.Wait`. -/
def Worker.Waits (w : Worker) : Prop := ∃ a, w.phase = .processJob .wait a

instance (w : Worker) : Decidable w.Waits :=
  match h : w.phase with
  | .processJob .wait a => isTrue ⟨a, h⟩
  | .processJob .acquireJob _ | .processJob .checkPause _ | .processJob .checkWindow _
  | .processJob .lookupSemaphore _ | .processJob .enterSemaphore _ | .processJob .sendCommand _
  | .processJob .leaveSemaphore _ | .processJob .releaseJob _ | .select | .exited =>
    isFalse fun ⟨a, ha⟩ => by rw [ha] at h; cases h

/-- The node of a job of a paused group. -/
def WorkerPool.pausedNode (s : WorkerPool) (a : Accepted) : Option GoString :=
  if s.pausedGroups a.job.groupID then some a.job.nodeMac else none

/-- The nodes of the jobs of paused groups that are queued, or held by a worker before
its pause test. -/
def State.pausedNodes (s : State n) : Finset GoString :=
  (s.pool.jobQueue.filterMap s.pool.pausedNode).toFinset ∪
    Finset.univ.biUnion fun i =>
      ((s.workers i).awaiting.bind s.pool.pausedNode).toFinset

theorem mem_pausedNodes {s : State n} {mac : GoString} :
    mac ∈ s.pausedNodes ↔ ∃ a, s.pool.pausedNode a = some mac ∧
      (a ∈ s.pool.jobQueue ∨ ∃ i, (s.workers i).awaiting = some a) := by
  simp only [State.pausedNodes, Finset.mem_union, List.mem_toFinset, List.mem_filterMap,
    Finset.mem_biUnion, Finset.mem_univ, true_and, Option.mem_toFinset, Option.mem_def,
    Option.bind_eq_some_iff]
  constructor
  · rintro (⟨a, ha, hmac⟩ | ⟨i, a, ha, hmac⟩)
    · exact ⟨a, hmac, Or.inl ha⟩
    · exact ⟨a, hmac, Or.inr ⟨i, ha⟩⟩
  · rintro ⟨a, hmac, ha | ⟨i, ha⟩⟩
    · exact Or.inl ⟨a, ha, hmac⟩
    · exact Or.inr ⟨i, a, ha, hmac⟩

/-! ### Nobody leaves before the pool is stopped -/

def Worker.Leaving (w : Worker) : Prop := w.draining = true ∨ w.phase = .exited

/-- No worker leaves until `stopChan` is closed. -/
def Serving (s : State n) : Prop := s.pool.stop = .closed ∨ ∀ i, ¬ (s.workers i).Leaving

theorem moves_leaving {s t : WorkerPool} {w w' : Worker} (h : Moves s w w' t)
    (hw : w'.Leaving) : w.Leaving ∨ s.stop = .closed := by
  cases h with
  | observeStop hstop => exact Or.inr hstop
  | exit => exact Or.inl (Or.inl rfl)
  | _ =>
    rcases hw with hd | hph
    · exact Or.inl (Or.inl hd)
    · cases hph

theorem Worker.wake_leaving (w : Worker) : w.wake.Leaving = w.Leaving :=
  Worker.wake_congr (f := Worker.Leaving) (fun _ _ => by simp [Worker.Leaving]) w

theorem occurs_closed {s t : WorkerPool} {e : Event} (h : Occurs s e t)
    (hs : s.stop = .closed) : t.stop = .closed := by
  cases h with
  | stopResume hrunning =>
    rw [hs] at hrunning
    cases hrunning
  | stopClose => rfl
  | _ => exact hs

theorem serving_step {s u : State n} {x : Action n} (h : Steps s x u) (hs : Serving s) :
    Serving u := by
  cases h with
  | event hoccurs => exact hs.imp_left (occurs_closed hoccurs)
  | broadcast hoccurs =>
    refine hs.imp (occurs_closed hoccurs) fun hnone i => ?_
    rw [Worker.wake_leaving]
    exact hnone i
  | @worker k act w pool hmoves =>
    rcases hs with hclosed | hnone
    · exact Or.inl ((moves_frame hmoves).stop.trans hclosed)
    · by_cases hclosed : s.pool.stop = .closed
      · exact Or.inl ((moves_frame hmoves).stop.trans hclosed)
      · refine Or.inr fun i hi => ?_
        by_cases hik : i = k
        · subst hik
          simp only [Function.update_self] at hi
          exact (moves_leaving hmoves hi).elim (hnone i) hclosed
        · simp only [Function.update_of_ne hik] at hi
          exact hnone i hi

/-! ### Fewer paused nodes than workers -/

/-- What the invariants of the pool say about a state, for all nodes at once. -/
structure Orderly (s : State n) : Prop where
  owns : ∀ mac, OwnsNode mac s
  parked : Parked s
  paired : Paired s
  serving : Serving s

theorem orderly_step {s u : State n} {x : Action n} (h : Steps s x u)
    (hkeeps : ∀ mac, KeepsNode mac s x) (hs : Orderly s) : Orderly u :=
  ⟨fun mac => ownsNode_step h (hkeeps mac) (hs.owns mac), parked_step h hs.parked,
    paired_step h hs.paired, serving_step h hs.serving⟩

theorem run_orderly {now : Time} {as : List (Action n)} {s : State n}
    (hkeeps : Machine.Meets step (fun s x => ∀ mac, KeepsNode mac s x) (State.initial n now) as)
    (hrun : Machine.run step (State.initial n now) as = some s) : Orderly s := by
  refine Machine.run_invariant_of_meets step (I := Orderly)
    (fun _ _ _ hs hC hstep => orderly_step (step_steps hstep) hC hs)
    ⟨?_, ?_, paired_initial n now, Or.inr ?_⟩ hkeeps hrun
  · intro mac i a hi
    cases hi
  · intro i a hi
    cases hi
  · rintro i (hd | hph)
    · cases hd
    · cases hph

/-- Waiting workers hold different nodes, all of them nodes of paused groups. -/
theorem card_le_of_all_wait {s : State n} (hs : Orderly s) (hall : ∀ i, (s.workers i).Waits) :
    n ≤ s.pausedNodes.card := by
  choose a ha using hall
  have hjob (i : Fin n) : (s.workers i).nodeJob (a i).job.nodeMac = some (a i) := by
    simp [Worker.nodeJob, ha i]
  have hinj : Set.InjOn (fun i => (a i).job.nodeMac) (Finset.univ : Finset (Fin n)) := by
    intro i _ j _ hij
    have hj := hjob j
    rw [← show (a i).job.nodeMac = (a j).job.nodeMac from hij] at hj
    exact ((hs.owns _ j _ hj).2 i _ (hjob i))
  have hmem (i : Fin n) : (a i).job.nodeMac ∈ s.pausedNodes := by
    refine mem_pausedNodes.mpr ⟨a i, ?_, Or.inr ⟨i, by simp [Worker.awaiting, ha i]⟩⟩
    exact if_pos (hs.parked i (a i) (ha i))
  calc
    n = (Finset.univ : Finset (Fin n)).card := (Finset.card_fin n).symm
    _ ≤ s.pausedNodes.card := Finset.card_le_card_of_injOn _ (fun i _ => hmem i) hinj

theorem workerStep_pausedNodes {s u : State n} {x : Fin n × WorkerAct}
    (h : workerStep s x = some u) : u.pausedNodes ⊆ s.pausedNodes := by
  obtain ⟨w, hmoves, hworkers⟩ := workerStep_moves h
  have hframe := moves_frame hmoves
  intro mac hmac
  obtain ⟨a, hnode, ha⟩ := mem_pausedNodes.mp hmac
  refine mem_pausedNodes.mpr ⟨a, ?_, ?_⟩
  · rwa [WorkerPool.pausedNode, ← hframe.pausedGroups]
  · rcases ha with ha | ⟨i, ha⟩
    · exact Or.inl (hframe.jobQueue a ha)
    · rw [hworkers] at ha
      by_cases hik : i = x.1
      · subst hik
        rw [Function.update_self] at ha
        exact (moves_awaiting hmoves ha).symm.imp_right fun ha => ⟨_, ha⟩
      · rw [Function.update_of_ne hik] at ha
        exact Or.inr ⟨i, ha⟩

/-! ### Every queued job is taken -/

theorem process_jobQueue {s u : State n} {i : Fin n} {io : Fleet.AgentManager.SendIO}
    (h : workerStep s (i, .process io) = some u) : u.pool.jobQueue = s.pool.jobQueue := by
  obtain ⟨⟨w, pool⟩, hact, hu⟩ := Option.map_eq_some_iff.mp h
  subst hu
  generalize s.workers i = v at hact
  obtain ⟨d, ph⟩ := v
  have hmoves := act_moves hact
  cases hmoves with
  | receive => cases hact
  | _ => rfl

/-- The next step of some worker is to take job `a`. -/
def Takes (a : Accepted) (s : State n) : Prop :=
  ∃ i u, workerStep s (i, .receive) = some u ∧ (u.workers i).phase = .processJob .acquireJob a

theorem receive_step {s : State n} {i : Fin n} {a : Accepted} {q : List Accepted}
    (hi : (s.workers i).phase = .select) (hqueue : s.pool.jobQueue = a :: q) :
    ∃ u, workerStep s (i, .receive) = some u ∧ u.pool.jobQueue = q ∧
      (u.workers i).phase = .processJob .acquireJob a := by
  refine ⟨_, by simp [workerStep, step, Worker.act, hi, hqueue]; rfl, rfl, ?_⟩
  simp

theorem exists_step_towards {s : State n} {a : Accepted} (hs : Orderly s)
    (hstop : s.pool.stop = .running) (hnodes : s.pausedNodes.card < n)
    (ha : a ∈ s.pool.jobQueue) (htakes : ¬ Takes a s) :
    ∃ y u, workerStep s y = some u ∧ a ∈ u.pool.jobQueue := by
  obtain ⟨i, hi⟩ : ∃ i, ¬ (s.workers i).Waits := by
    by_contra hall
    exact absurd (card_le_of_all_wait hs (not_exists_not.mp hall)) (not_le.mpr hnodes)
  have hserving : ¬ (s.workers i).Leaving := by
    rcases hs.serving with hclosed | hnone
    · rw [hstop] at hclosed
      cases hclosed
    · exact hnone i
  cases hph : (s.workers i).phase with
  | exited => exact absurd (Or.inr hph) hserving
  | processJob p b =>
    obtain ⟨j, io, u, hu⟩ := execution_moves hs.paired hph (by
      rintro rfl
      exact hi ⟨b, hph⟩)
    exact ⟨_, u, hu, (process_jobQueue hu).symm ▸ ha⟩
  | select =>
    obtain ⟨b, q, hqueue⟩ := List.exists_cons_of_ne_nil (List.ne_nil_of_mem ha)
    obtain ⟨u, hu, hrest, htaken⟩ := receive_step hph hqueue
    refine ⟨_, u, hu, ?_⟩
    rw [hqueue, List.mem_cons] at ha
    rcases ha with rfl | ha
    · exact absurd ⟨i, u, hu, htaken⟩ htakes
    · exact hrest.symm ▸ ha

/-- If the jobs of paused groups are for fewer nodes than there are workers, then not
all workers wait, and the workers can take every queued job on their own. -/
theorem queued_job_taken {now : Time} {as : List (Action n)} {s : State n}
    (hkeeps : Machine.Meets step (fun s x => ∀ mac, KeepsNode mac s x) (State.initial n now) as)
    (hrun : Machine.run step (State.initial n now) as = some s) (hstop : s.pool.stop = .running)
    (hnodes : s.pausedNodes.card < n) :
    (¬ ∀ i, (s.workers i).Waits) ∧
      ∀ a ∈ s.pool.jobQueue, ∃ xs t, Machine.run workerStep s xs = some t ∧ Takes a t := by
  have horderly := run_orderly hkeeps hrun
  refine ⟨fun hall => ?_, fun a ha => ?_⟩
  · exact absurd (card_le_of_all_wait horderly hall) (not_le.mpr hnodes)
  · refine Machine.exists_run_of_progress workerStep (I := fun s => Orderly s ∧
      s.pool.stop = .running ∧ s.pausedNodes.card < n ∧ a ∈ s.pool.jobQueue)
      State.work ?_ ⟨horderly, hstop, hnodes, ha⟩
    rintro s ⟨horderly, hstop, hnodes, ha⟩ htakes
    obtain ⟨y, u, hstep, hu⟩ := exists_step_towards horderly hstop hnodes ha htakes
    refine ⟨y, u, hstep, ⟨?_, ?_, ?_, hu⟩, work_lt hstep⟩
    · exact orderly_step (step_steps hstep) (fun _ => trivial) horderly
    · obtain ⟨w, hmoves, -⟩ := workerStep_moves hstep
      exact (moves_frame hmoves).stop.trans hstop
    · exact (Finset.card_le_card (workerStep_pausedNodes hstep)).trans_lt hnodes

private def jobOf (nodeMac : GoString) (groupID : ℤ) : Job :=
  plainJob (ascii "j") nodeMac groupID none

/-- The operations on a pool that is not stopped. -/
def Action.serving : Action n → Bool
  | .event (.submit _) | .event (.pauseGroup _) | .event (.resumeGroup _) | .worker _ _ => true
  | .event (.advance _) | .event .stopResume | .event .stopClose | .event (.delay _ _)
  | .event (.registry _) => false

theorem keepsNode_of_serving {s : State n} {x : Action n} (h : x.serving = true)
    (mac : GoString) : KeepsNode mac s x := by
  match x with
  | .event (.registry _) => cases h
  | .event (.submit _) | .event (.pauseGroup _) | .event (.resumeGroup _) | .worker _ _
  | .event (.advance _) | .event .stopResume | .event .stopClose | .event (.delay _ _) =>
    trivial

/-- One worker waits with a job of group 1; a job of group 2 is queued. -/
private def onePaused (m : ℕ) (i : Fin m) : List (Action m) :=
  [.event (.pauseGroup 1), .event (.submit (jobOf (ascii "aa") 1)), .worker i .receive, next i,
    next i, .event (.submit (jobOf (ascii "bb") 2))]

theorem queued_job_taken_second :
    ∃ s, Machine.run step (State.initial 2 0) (onePaused 2 0) = some s ∧
      s.pool.jobQueue = [⟨1, jobOf (ascii "bb") 2⟩] ∧
      ∃ xs t, Machine.run workerStep s xs = some t ∧ Takes ⟨1, jobOf (ascii "bb") 2⟩ t := by
  have hrun : (Machine.run step (State.initial 2 0) (onePaused 2 0)).any (fun s =>
      decide (s.pool.jobQueue = [⟨1, jobOf (ascii "bb") 2⟩]) && decide (s.pool.stop = .running) &&
        decide (s.pausedNodes.card < 2)) = true := by
    decide
  simp only [Option.any_eq_true, Bool.and_eq_true, decide_eq_true_eq] at hrun
  obtain ⟨s, hs, ⟨hqueue, hstop⟩, hnodes⟩ := hrun
  have hkeeps : Machine.Meets step (fun s x => ∀ mac, KeepsNode mac s x) (State.initial 2 0)
      (onePaused 2 0) :=
    Machine.meets_of_forall step fun x hx s =>
      keepsNode_of_serving (List.all_eq_true.mp (by decide : (onePaused 2 0).all _ = true) x hx)
  exact ⟨s, hs, hqueue, (queued_job_taken hkeeps hs hstop hnodes).2 _ (by simp [hqueue])⟩

/-- With one worker, that worker waits and the job of group 2 stays in the queue. -/
theorem not_unpaused_job_taken :
    ¬ ∀ (n : ℕ) (now : Time) (as : List (Action n)) (s : State n), 1 ≤ n →
      (∀ x ∈ as, x.serving = true) → Machine.run step (State.initial n now) as = some s →
      (∃ a ∈ s.pool.jobQueue, s.pool.pausedGroups a.job.groupID = false) →
      ¬ ∀ i, (s.workers i).Waits := by
  intro h
  have hrun : (Machine.run step (State.initial 1 0) (onePaused 1 0)).any (fun s =>
      decide (∃ a ∈ s.pool.jobQueue, s.pool.pausedGroups a.job.groupID = false) &&
        decide (∀ i, (s.workers i).Waits)) = true := by
    decide
  simp only [Option.any_eq_true, Bool.and_eq_true, decide_eq_true_eq] at hrun
  obtain ⟨s, hs, hjob, hall⟩ := hrun
  exact h 1 0 (onePaused 1 0) s le_rfl (List.all_eq_true.mp (by decide)) hs hjob hall

end Patchli.Orchestration
