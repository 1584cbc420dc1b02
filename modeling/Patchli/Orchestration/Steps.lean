import Patchli.Orchestration.Workers

/-!
# What a step of the pool can do

Two relations list the effects of the steps, with what each of them requires.
Every invariant of the pool is derived from them.
-/

namespace Patchli.Orchestration

open Fleet WorkerPool

variable {s t : WorkerPool} {n : ℕ}

/-- One operation of a worker. -/
inductive Moves (s : WorkerPool) : Worker → Worker → WorkerPool → Prop
  | observeStop : s.stop = .closed → Moves s ⟨false, .select⟩ ⟨true, .select⟩ s
  | receive {d : Bool} {a : Accepted} {q : List Accepted} : s.jobQueue = a :: q →
      Moves s ⟨d, .select⟩ ⟨d, .processJob .acquireJob a⟩ { s with jobQueue := q }
  | exit : s.jobQueue = [] → Moves s ⟨true, .select⟩ ⟨true, .exited⟩ s
  | conflict {d : Bool} {a : Accepted} : s.registry.activeJobs a.job.nodeMac ≠ none →
      Moves s ⟨d, .processJob .acquireJob a⟩ ⟨d, .select⟩ (s.finish a .nodeConflict)
  | acquired {d : Bool} {a : Accepted} : s.registry.activeJobs a.job.nodeMac = none →
      Moves s ⟨d, .processJob .acquireJob a⟩ ⟨d, .processJob .checkPause a⟩
        { s with registry := { s.registry with
          activeJobs := Function.update s.registry.activeJobs a.job.nodeMac (some a.job.id) } }
  | paused {d : Bool} {a : Accepted} : s.pausedGroups a.job.groupID = true →
      Moves s ⟨d, .processJob .checkPause a⟩ ⟨d, .processJob .wait a⟩ s
  | unpaused {d : Bool} {a : Accepted} : s.pausedGroups a.job.groupID = false →
      Moves s ⟨d, .processJob .checkPause a⟩ ⟨d, .processJob .checkWindow a⟩ s
  | inWindow {d : Bool} {a : Accepted} :
      (∀ w, a.job.maintenanceWindow = some w →
        w.startTime ≤ s.now ∧ s.now ≤ w.endTime - 15 * minute) →
      Moves s ⟨d, .processJob .checkWindow a⟩ ⟨d, .processJob .lookupSemaphore a⟩ s
  | skipped {d : Bool} {a : Accepted} {o : Outcome} : o.dispatched = false →
      Moves s ⟨d, .processJob .checkWindow a⟩ ⟨d, .processJob .releaseJob a⟩ (s.finish a o)
  | delayed {d : Bool} {a : Accepted} :
      Moves s ⟨d, .processJob .checkWindow a⟩ ⟨d, .processJob .releaseJob a⟩
        { s with delays := s.delays ++ [⟨a, .starting⟩] }
  | lookedUp {d : Bool} {a : Accepted} :
      Moves s ⟨d, .processJob .lookupSemaphore a⟩ ⟨d, .processJob .enterSemaphore a⟩
        (s.setSemaphore a.job.groupID ((s.groupSemaphores a.job.groupID).getD 0))
  | entered {d : Bool} {a : Accepted} {k : ℕ} : s.groupSemaphores a.job.groupID = some k →
      k < semaphoreCapacity →
      Moves s ⟨d, .processJob .enterSemaphore a⟩ ⟨d, .processJob .sendCommand a⟩
        (s.setSemaphore a.job.groupID (k + 1))
  | sent {d : Bool} {a : Accepted} {o : Outcome} : o.dispatched = true →
      Moves s ⟨d, .processJob .sendCommand a⟩ ⟨d, .processJob .leaveSemaphore a⟩
        ({ s with sends := s.sends ++ [a] }.finish a o)
  | left {d : Bool} {a : Accepted} {k : ℕ} : s.groupSemaphores a.job.groupID = some (k + 1) →
      Moves s ⟨d, .processJob .leaveSemaphore a⟩ ⟨d, .processJob .releaseJob a⟩
        (s.setSemaphore a.job.groupID k)
  | released {d : Bool} {a : Accepted} :
      Moves s ⟨d, .processJob .releaseJob a⟩ ⟨d, .select⟩
        { s with registry := s.registry.releaseJob a.job.nodeMac }

theorem processJob_moves {io : AgentManager.SendIO} {a : Accepted} {p : Point} {ph : Phase}
    {d : Bool} (h : s.processJob io a p = some (ph, t)) :
    Moves s ⟨d, .processJob p a⟩ ⟨d, ph⟩ t := by
  cases p with
  | acquireJob =>
    simp only [processJob, AgentManager.acquireJob] at h
    split at h
    · rename_i hbusy
      split at hbusy <;> cases hbusy
      rename_i j hj
      cases h
      exact .conflict (by rw [hj]; simp)
    · rename_i registry hfree
      split at hfree <;> cases hfree
      cases h
      exact .acquired ‹_›
  | checkPause =>
    simp only [processJob] at h
    split at h <;> cases h <;> rename_i hpaused
    · exact .paused hpaused
    · exact .unpaused (by simpa using hpaused)
  | wait => cases h
  | checkWindow =>
    simp only [processJob] at h
    split at h
    · cases h
      rename_i hnone
      exact .inWindow (by simp [hnone])
    · rename_i w hw
      split at h
      · cases h
        exact .skipped rfl
      · split at h
        · cases h
          exact .skipped rfl
        · rename_i htime
          split at h <;> cases h
          · exact .delayed
          · rename_i hstart
            refine .inWindow fun w' hw' => ?_
            obtain rfl : w = w' := Option.some.inj (hw.symm.trans hw')
            rw [Time.sub_lt_iff (by decide) (by decide), not_lt] at htime
            exact ⟨not_lt.mp hstart, le_sub_comm.mp htime⟩
  | lookupSemaphore =>
    have hmove := Moves.lookedUp (s := s) (d := d) (a := a)
    simp only [processJob] at h
    split at h
    · rename_i k hsem
      cases h
      have hsame : s.setSemaphore a.job.groupID k = s := by
        rw [setSemaphore, ← hsem, Function.update_eq_self]
      rwa [hsem, Option.getD_some, hsame] at hmove
    · rename_i hsem
      cases h
      rwa [hsem] at hmove
  | enterSemaphore =>
    simp only [processJob] at h
    split at h
    · cases h
    · split at h <;> cases h
      exact .entered ‹_› ‹_›
  | sendCommand =>
    simp only [processJob] at h
    split at h <;> cases h <;> exact .sent rfl
  | leaveSemaphore =>
    simp only [processJob] at h
    split at h <;> cases h
    exact .left ‹_›
  | releaseJob =>
    cases h
    exact .released

theorem act_moves {w w' : Worker} {x : WorkerAct} (h : w.act s x = some (w', t)) :
    Moves s w w' t := by
  obtain ⟨d, ph⟩ := w
  unfold Worker.act at h
  split at h
  · rename_i hph
    split at h <;> cases h
    rename_i hstop
    obtain ⟨rfl, hstop⟩ := hstop
    obtain rfl : ph = .select := hph
    exact .observeStop hstop
  · rename_i hph
    obtain rfl : ph = .select := hph
    split at h <;> cases h
    exact .receive ‹_›
  · rename_i hph
    split at h <;> cases h
    rename_i hempty
    obtain ⟨rfl, hempty⟩ := hempty
    obtain rfl : ph = .select := hph
    exact .exit hempty
  · rename_i p a io hph
    obtain rfl : ph = .processJob p a := hph
    obtain ⟨⟨ph', t'⟩, hp, hr⟩ := Option.map_eq_some_iff.mp h
    cases hr
    exact processJob_moves hp
  · cases h

/-- What no operation of a worker changes, and the queue, which only shrinks. -/
structure Framed (s t : WorkerPool) : Prop where
  now : t.now = s.now
  stop : t.stop = s.stop
  pausedGroups : t.pausedGroups = s.pausedGroups
  accepted : t.accepted = s.accepted
  jobQueue : ∀ a ∈ t.jobQueue, a ∈ s.jobQueue

theorem moves_frame {w w' : Worker} (h : Moves s w w' t) : Framed s t := by
  cases h with
  | receive hqueue => exact ⟨rfl, rfl, rfl, rfl, fun a ha => hqueue ▸ List.mem_cons_of_mem _ ha⟩
  | _ => exact ⟨rfl, rfl, rfl, rfl, fun a ha => ha⟩

/-- Waking a worker shows only in what tells `pauseCond.Wait` from the test after it. -/
theorem Worker.wake_congr {β : Type*} {f : Worker → β}
    (hf : ∀ d a, f ⟨d, .processJob .checkPause a⟩ = f ⟨d, .processJob .wait a⟩) (w : Worker) :
    f w.wake = f w := by
  obtain ⟨d, ph⟩ := w
  unfold Worker.wake
  split
  · rename_i hph
    obtain rfl : ph = _ := hph
    exact hf d _
  · rfl

/-- One operation of another goroutine, or time passing. -/
inductive Occurs (s : WorkerPool) : Event → WorkerPool → Prop
  | advance {now : Time} : s.now ≤ now → Occurs s (.advance now) { s with now := now }
  | submit {job : Job} : s.jobQueue.length < queueCapacity →
      Occurs s (.submit job) { s with
        jobQueue := s.jobQueue ++ [⟨s.accepted.length, job⟩]
        accepted := s.accepted ++ [⟨s.accepted.length, job⟩] }
  | pauseGroup {g : ℤ} : Occurs s (.pauseGroup g)
      { s with pausedGroups := Function.update s.pausedGroups g true }
  | resumeGroup {g : ℤ} : Occurs s (.resumeGroup g)
      { s with pausedGroups := Function.update s.pausedGroups g false }
  | stopResume : s.stop = .running → Occurs s .stopResume
      { s with pausedGroups := fun _ => false, stop := .resumed }
  | stopClose : s.stop = .resumed → Occurs s .stopClose { s with stop := .closed }
  | delaying {k : ℕ} {d : DelayStep} {delays : List Delay} :
      delays.map Delay.item = s.delays.map Delay.item →
      Occurs s (.delay k d) { s with delays := delays }
  | dropped {k : ℕ} {d : DelayStep} {delays : List Delay} {a : Accepted} {o : Outcome} :
      (s.delays.map Delay.item).Perm (a :: delays.map Delay.item) → o.dispatched = false →
      Occurs s (.delay k d) ({ s with delays := delays }.finish a o)
  | resubmitted {k : ℕ} {delays : List Delay} {x : Delay} :
      (s.delays.map Delay.item).Perm (x.item :: delays.map Delay.item) → s.delays[k]? = some x →
      s.jobQueue.length < queueCapacity →
      Occurs s (.delay k .submit)
        { s with delays := delays, jobQueue := s.jobQueue ++ [x.item] }
  | registry {c : Fleet.Call} : Occurs s (.registry c)
      { s with registry := s.registry.call s.now c }

theorem map_item_set {delays : List Delay} {k : ℕ} {x y : Delay} (hx : delays[k]? = some x)
    (hitem : y.item = x.item) : (delays.set k y).map Delay.item = delays.map Delay.item := by
  apply List.ext_getElem?
  intro j
  rw [List.map_set, hitem, List.getElem?_set]
  split
  · rename_i hkj
    subst hkj
    split <;> simp_all
  · rfl

theorem perm_item_eraseIdx {delays : List Delay} {k : ℕ} {x : Delay} (hx : delays[k]? = some x) :
    (delays.map Delay.item).Perm (x.item :: (delays.eraseIdx k).map Delay.item) := by
  obtain ⟨hk, rfl⟩ := List.getElem?_eq_some_iff.mp hx
  rw [← List.map_cons]
  exact (List.getElem_cons_eraseIdx_perm hk).symm.map _

theorem delay_occurs {k : ℕ} {d : DelayStep} (h : s.delay k d = some t) :
    Occurs s (.delay k d) t := by
  unfold WorkerPool.delay at h
  split at h
  · rename_i a hx
    obtain ⟨w, -, rfl⟩ := Option.map_eq_some_iff.mp h
    exact .delaying (map_item_set hx rfl)
  · rename_i hx
    split at h <;> cases h
    exact .delaying (map_item_set hx rfl)
  · rename_i hx
    split at h <;> cases h
    exact .dropped (perm_item_eraseIdx hx) rfl
  · rename_i hx
    split at h <;> cases h
    exact .resubmitted (perm_item_eraseIdx hx) hx ‹_›
  · rename_i hx
    split at h <;> cases h
    exact .dropped (perm_item_eraseIdx hx) rfl
  · cases h

theorem event_occurs {e : Event} (h : s.event e = some t) : Occurs s e t := by
  cases e with
  | advance now =>
    simp only [event, Option.ite_none_right_eq_some, Option.some.injEq] at h
    obtain ⟨hle, rfl⟩ := h
    exact .advance hle
  | submit job =>
    simp only [event, Option.ite_none_right_eq_some, Option.some.injEq] at h
    obtain ⟨hroom, rfl⟩ := h
    exact .submit hroom
  | pauseGroup g =>
    cases h
    exact .pauseGroup
  | resumeGroup g =>
    cases h
    exact .resumeGroup
  | stopResume =>
    simp only [event, Option.ite_none_right_eq_some, Option.some.injEq] at h
    obtain ⟨hstop, rfl⟩ := h
    exact .stopResume hstop
  | stopClose =>
    simp only [event, Option.ite_none_right_eq_some, Option.some.injEq] at h
    obtain ⟨hstop, rfl⟩ := h
    exact .stopClose hstop
  | delay k d => exact delay_occurs h
  | registry c =>
    cases h
    exact .registry

/-- An event acts on the pool and wakes workers; otherwise one worker moves. -/
inductive Steps (s : State n) : Action n → State n → Prop
  | event {e : Event} {pool : WorkerPool} : Occurs s.pool e pool → e.broadcasts = false →
      Steps s (.event e) ⟨pool, s.workers⟩
  | broadcast {e : Event} {pool : WorkerPool} : Occurs s.pool e pool → e.broadcasts = true →
      Steps s (.event e) ⟨pool, fun i => (s.workers i).wake⟩
  | worker {i : Fin n} {x : WorkerAct} {w : Worker} {pool : WorkerPool} :
      Moves s.pool (s.workers i) w pool →
      Steps s (.worker i x) ⟨pool, Function.update s.workers i w⟩

theorem step_steps {s u : State n} {a : Action n} (h : step s a = some u) : Steps s a u := by
  cases a with
  | event e =>
    obtain ⟨pool, hpool, rfl⟩ := Option.map_eq_some_iff.mp h
    have hoccurs := event_occurs hpool
    by_cases hb : e.broadcasts = true
    · simp only [hb, if_true]
      exact .broadcast hoccurs hb
    · simp only [hb]
      exact .event hoccurs (by simpa using hb)
  | worker i x =>
    obtain ⟨⟨w, pool⟩, hact, rfl⟩ := Option.map_eq_some_iff.mp h
    exact .worker (act_moves hact)

theorem send_step {s u : State n} {x : Action n} {a : Accepted} (h : Steps s x u)
    (hsend : u.pool.sends = s.pool.sends ++ [a]) :
    ∃ i, (s.workers i).phase = .processJob .sendCommand a := by
  have hsame (hu : u.pool.sends = s.pool.sends) : False := by
    rw [hu] at hsend
    simp at hsend
  cases h with
  | event hoccurs => cases hoccurs <;> exact (hsame rfl).elim
  | broadcast hoccurs => cases hoccurs <;> exact (hsame rfl).elim
  | @worker i act w pool hmoves =>
    refine ⟨i, ?_⟩
    generalize s.workers i = v at hmoves
    cases hmoves with
    | sent =>
      obtain rfl : _ = a := by simpa [finish] using hsend
      rfl
    | _ => exact (hsame rfl).elim

end Patchli.Orchestration
