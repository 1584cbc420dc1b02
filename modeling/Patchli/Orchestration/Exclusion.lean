import Patchli.Orchestration.Steps

/-!
# One execution for each node

An execution holds its node from `AcquireJob` to `ReleaseJob`. The registry lets
a second execution in only after the node was disconnected or pruned while the
first one held it.
-/

namespace Patchli.Orchestration

open Fleet WorkerPool

/-- The job whose execution holds node `mac`. -/
def Worker.nodeJob (w : Worker) (mac : GoString) : Option Accepted :=
  match w.phase with
  | .processJob p a => if p ≠ .acquireJob ∧ a.job.nodeMac = mac then some a else none
  | _ => none

/-- A worker leaves node `mac` alone, takes it while it is free, or gives it up. -/
inductive NodeStep (mac : GoString) (s t : WorkerPool) (w w' : Worker) : Prop
  | same : w'.nodeJob mac = w.nodeJob mac →
      t.registry.activeJobs mac = s.registry.activeJobs mac → NodeStep mac s t w w'
  | acquired {a : Accepted} : s.registry.activeJobs mac = none → w'.nodeJob mac = some a →
      t.registry.activeJobs mac = some a.job.id → NodeStep mac s t w w'
  | released {a : Accepted} : w.nodeJob mac = some a → w'.nodeJob mac = none →
      NodeStep mac s t w w'

theorem moves_node {s t : WorkerPool} {w w' : Worker} (h : Moves s w w' t) (mac : GoString) :
    NodeStep mac s t w w' := by
  cases h with
  | observeStop | receive | exit | conflict => exact .same rfl rfl
  | paused | unpaused | inWindow | skipped | delayed | lookedUp | entered | sent | left =>
    exact .same (by simp [Worker.nodeJob]) rfl
  | @acquired d a hfree =>
    by_cases hmac : a.job.nodeMac = mac
    · subst hmac
      refine .acquired (a := a) hfree ?_ ?_
      · simp [Worker.nodeJob]
      · simp
    · refine .same ?_ ?_
      · simp [Worker.nodeJob, hmac]
      · simp [Ne.symm hmac]
  | @released d a =>
    by_cases hmac : a.job.nodeMac = mac
    · exact .released (a := a) (by simp [Worker.nodeJob, hmac]) rfl
    · refine .same ?_ ?_
      · simp [Worker.nodeJob, hmac]
      · simp [AgentManager.releaseJob, Ne.symm hmac]

@[simp] theorem Worker.nodeJob_wake (w : Worker) (mac : GoString) :
    w.wake.nodeJob mac = w.nodeJob mac :=
  Worker.wake_congr (f := fun w => w.nodeJob mac) (fun _ _ => by simp [Worker.nodeJob]) w

variable {n : ℕ}

/-- Node `mac` is not disconnected or pruned while an execution holds it. -/
def KeepsNode (mac : GoString) (s : State n) : Action n → Prop
  | .event (.registry c) =>
    c.Evicts s.pool.registry s.pool.now mac → ∀ i, (s.workers i).nodeJob mac = none
  | _ => True

instance (mac : GoString) (s : State n) : ∀ x, Decidable (KeepsNode mac s x)
  | .event (.registry c) => inferInstanceAs (Decidable
    (c.Evicts s.pool.registry s.pool.now mac → ∀ i, (s.workers i).nodeJob mac = none))
  | .event (.advance _) | .event (.submit _) | .event (.pauseGroup _) | .event (.resumeGroup _)
  | .event .stopResume | .event .stopClose | .event (.delay _ _) | .worker _ _ => isTrue trivial

/-- The execution that holds node `mac` is the only one, and the active job of the
node is its own. -/
def OwnsNode (mac : GoString) (s : State n) : Prop :=
  ∀ i a, (s.workers i).nodeJob mac = some a →
    s.pool.registry.activeJobs mac = some a.job.id ∧
      ∀ j b, (s.workers j).nodeJob mac = some b → j = i

theorem occurs_activeJobs {s t : WorkerPool} {e : Event} (h : Occurs s e t) (mac : GoString) :
    t.registry.activeJobs mac = s.registry.activeJobs mac ∨
      ∃ c, e = .registry c ∧ c.Evicts s.registry s.now mac := by
  cases h with
  | registry =>
    rcases activeJobs_call s.registry s.now _ mac with hsame | ⟨hevicts, -⟩
    · exact Or.inl hsame
    · exact Or.inr ⟨_, rfl, hevicts⟩
  | _ => exact Or.inl rfl

theorem ownsNode_step {mac : GoString} {s u : State n} {x : Action n} (h : Steps s x u)
    (hkeeps : KeepsNode mac s x) (hs : OwnsNode mac s) : OwnsNode mac u := by
  have hevent {e : Event} {pool : WorkerPool} (hx : x = .event e) (hoccurs : Occurs s.pool e pool)
      {i : Fin n} {a : Accepted} (hi : (s.workers i).nodeJob mac = some a) :
      pool.registry.activeJobs mac = some a.job.id := by
    rcases occurs_activeJobs hoccurs mac with hsame | ⟨c, rfl, hevicts⟩
    · exact hsame.trans (hs i a hi).1
    · subst hx
      have hnone := hkeeps hevicts i
      rw [hi] at hnone
      cases hnone
  cases h with
  | event hoccurs => exact fun i a hi => ⟨hevent rfl hoccurs hi, (hs i a hi).2⟩
  | broadcast hoccurs =>
    intro i a hi
    simp only [Worker.nodeJob_wake] at hi ⊢
    exact ⟨hevent rfl hoccurs hi, (hs i a hi).2⟩
  | @worker k act w pool hmoves =>
    have hother {j : Fin n} {b : Accepted} (hj : (Function.update s.workers k w j).nodeJob mac =
        some b) (hjk : j ≠ k) : (s.workers j).nodeJob mac = some b := by
      rwa [Function.update_of_ne hjk] at hj
    cases moves_node hmoves mac with
    | same hjob hactive =>
      have hall {j : Fin n} : (Function.update s.workers k w j).nodeJob mac =
          (s.workers j).nodeJob mac := by
        by_cases hjk : j = k
        · subst hjk
          simpa using hjob
        · rw [Function.update_of_ne hjk]
      intro i a hi
      rw [hall] at hi
      refine ⟨hactive.trans (hs i a hi).1, fun j b hj => ?_⟩
      rw [hall] at hj
      exact (hs i a hi).2 j b hj
    | @acquired c hfree hjob hactive =>
      -- nobody held the node: its holder would own the active job
      have hnobody {j : Fin n} {b : Accepted} (hj : (s.workers j).nodeJob mac = some b) :
          False := by
        have hbusy := (hs j b hj).1
        rw [hfree] at hbusy
        cases hbusy
      have hk {j : Fin n} {b : Accepted} (hj : (Function.update s.workers k w j).nodeJob mac =
          some b) : j = k := by
        by_contra hjk
        exact hnobody (hother hj hjk)
      intro i a hi
      obtain rfl := hk hi
      have hac : a = c := by
        simp only [Function.update_self, hjob, Option.some.injEq] at hi
        exact hi.symm
      exact ⟨hac ▸ hactive, fun j b hj => hk hj⟩
    | @released c hold hnone =>
      have hfree {j : Fin n} {b : Accepted} (hj : (Function.update s.workers k w j).nodeJob mac =
          some b) : False := by
        by_cases hjk : j = k
        · subst hjk
          rw [Function.update_self, hnone] at hj
          cases hj
        · exact hjk ((hs k c hold).2 j b (hother hj hjk))
      intro i a hi
      exact (hfree hi).elim

/-- As long as node `mac` is not disconnected or pruned under an execution that
holds it, at most one execution holds it at a time, and an execution about to
release it releases its own job. -/
theorem node_held_by_one {mac : GoString} {now : Time} {as : List (Action n)} {s : State n}
    (hkeeps : Machine.Meets step (KeepsNode mac) (State.initial n now) as)
    (hrun : Machine.run step (State.initial n now) as = some s) :
    (∀ i j a b, (s.workers i).nodeJob mac = some a → (s.workers j).nodeJob mac = some b → i = j) ∧
    ∀ i a, (s.workers i).phase = .processJob .releaseJob a → a.job.nodeMac = mac →
      s.pool.registry.activeJobs mac = some a.job.id := by
  have howns : OwnsNode mac s := by
    refine Machine.run_invariant_of_meets step (I := OwnsNode mac)
      (fun _ _ _ hs hC hstep => ownsNode_step (step_steps hstep) hC hs) ?_ hkeeps hrun
    intro i a hi
    cases hi
  refine ⟨fun i j a b hi hj => (howns j b hj).2 i a hi, fun i a hi hmac => ?_⟩
  have hjob : (s.workers i).nodeJob mac = some a := by
    simp [Worker.nodeJob, hi, hmac]
  exact (howns i a hjob).1

private def mac : GoString := ascii "aa"

private def connected : List (Action 2) :=
  [.event (.registry (.register mac 7 ⟨mac, [], [], [], [], false⟩)),
    .event (.submit (plainJob (ascii "j1") mac 1 none)),
    .event (.submit (plainJob (ascii "j2") mac 2 none))]

/-- Worker 0 finishes the first job before the connection closes. -/
private def finishedFirst : List (Action 2) :=
  connected ++ .worker 0 .receive :: List.replicate 8 (next 0) ++
    [.event (.registry (.unregisterConn mac 7)), .worker 1 .receive, next 1]

theorem node_held_by_one_finishedFirst :
    ∃ s, Machine.run step (State.initial 2 0) finishedFirst = some s ∧
      ∀ i j a b, (s.workers i).nodeJob mac = some a → (s.workers j).nodeJob mac = some b →
        i = j := by
  obtain ⟨s, hs⟩ := Option.isSome_iff_exists.mp
    (show (Machine.run step (State.initial 2 0) finishedFirst).isSome = true by decide)
  have hkeeps : Machine.Meets step (KeepsNode mac) (State.initial 2 0) finishedFirst := by
    decide
  exact ⟨s, hs, (node_held_by_one hkeeps hs).1⟩

/-- A node's connection closes while its job waits for a paused group. Worker 1
then acquires the node too, and worker 0, resumed, releases it. -/
private def disconnected : List (Action 2) :=
  connected ++ [.event (.pauseGroup 1), .worker 0 .receive, next 0, next 0,
    .event (.registry (.unregisterConn mac 7)), .worker 1 .receive, next 1,
    .event (.resumeGroup 1)] ++ List.replicate 6 (next 0)

theorem not_always_node_held_by_one :
    ¬ ∀ (n : ℕ) (now : Time) (as : List (Action n)) (s : State n) (mac : GoString),
      Machine.run step (State.initial n now) as = some s →
      (∀ i j a b, (s.workers i).nodeJob mac = some a → (s.workers j).nodeJob mac = some b →
        i = j) ∧
      ∀ i a, (s.workers i).phase = .processJob .releaseJob a → a.job.nodeMac = mac →
        s.pool.registry.activeJobs mac = some a.job.id := by
  intro h
  have hrun : (Machine.run step (State.initial 2 0) disconnected).any (fun s =>
      ((s.workers 0).nodeJob mac).isSome && ((s.workers 1).nodeJob mac).isSome) = true := by
    decide
  simp only [Option.any_eq_true, Bool.and_eq_true, Option.isSome_iff_exists] at hrun
  obtain ⟨s, hs, ⟨a, ha⟩, b, hb⟩ := hrun
  exact absurd ((h 2 0 disconnected s mac hs).1 0 1 a b ha hb) (by decide)

end Patchli.Orchestration
