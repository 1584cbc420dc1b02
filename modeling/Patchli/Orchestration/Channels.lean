import Patchli.Orchestration.Exclusion
import Patchli.Orchestration.Semaphores

/-!
# The channels behind the group semaphores

The pool once more, with `groupSemaphores` as the code has it: the map leads from a group
to a channel, and an execution keeps the channel it looked up. Forgetting the channels
gives the pool of `Workers.lean`, whose runs these runs are.
-/

namespace Patchli.Orchestration

open WorkerPool

structure ChannelPool where
  /-- Everything but the semaphores: `groupSemaphores` of this record is empty and stays so, and
  the two fields below take its place. -/
  pool : WorkerPool
  /-- The number of elements in each channel made so far. -/
  channels : List ℕ
  groupSemaphores : ℤ → Option ℕ

structure ChannelWorker where
  worker : Worker
  /-- The local variable of `processJob`. -/
  sem : Option ℕ

namespace ChannelPool

def setChannel (s : ChannelPool) (c k : ℕ) : ChannelPool :=
  { s with channels := s.channels.set c k }

def make (s : ChannelPool) (g : ℤ) : ChannelPool :=
  { s with
    channels := s.channels ++ [0]
    groupSemaphores := Function.update s.groupSemaphores g (some s.channels.length) }

/-- One operation of `processJob`; `none` when it blocks. -/
def processJob (s : ChannelPool) (io : Fleet.AgentManager.SendIO) (a : Accepted) (sem : Option ℕ) :
    Point → Option (Phase × Option ℕ × ChannelPool)
  | .lookupSemaphore =>
    match s.groupSemaphores a.job.groupID with
    | some c => some (.processJob .enterSemaphore a, some c, s)
    | none =>
      some (.processJob .enterSemaphore a, some s.channels.length, s.make a.job.groupID)
  | .enterSemaphore =>
    sem.bind fun c => s.channels[c]?.bind fun k =>
      if k < semaphoreCapacity then
        some (.processJob .sendCommand a, sem, s.setChannel c (k + 1))
      else none
  | .leaveSemaphore =>
    sem.bind fun c => s.channels[c]?.bind fun k =>
      if 0 < k then some (.processJob .releaseJob a, sem, s.setChannel c (k - 1)) else none
  | p => (s.pool.processJob io a p).map fun r => (r.1, sem, { s with pool := r.2 })

end ChannelPool

def ChannelWorker.act (w : ChannelWorker) (s : ChannelPool) (x : WorkerAct) :
    Option (ChannelWorker × ChannelPool) :=
  match w.worker.phase, x with
  | .processJob p a, .process io =>
    (s.processJob io a w.sem p).map fun r => (⟨{ w.worker with phase := r.1 }, r.2.1⟩, r.2.2)
  | _, _ => (w.worker.act s.pool x).map fun r => (⟨r.1, w.sem⟩, { s with pool := r.2 })

structure ChannelState (n : ℕ) where
  pool : ChannelPool
  workers : Fin n → ChannelWorker

def ChannelState.initial (n : ℕ) (now : Time) : ChannelState n :=
  ⟨⟨.new now, [], fun _ => none⟩, fun _ => ⟨⟨false, .select⟩, none⟩⟩

variable {n : ℕ}

def channelStep (s : ChannelState n) : Action n → Option (ChannelState n)
  | .event e => (s.pool.pool.event e).map fun pool =>
    ⟨{ s.pool with pool := pool },
      if e.broadcasts then fun i => { s.workers i with worker := (s.workers i).worker.wake }
      else s.workers⟩
  | .worker i x => ((s.workers i).act s.pool x).map fun r =>
    ⟨r.2, Function.update s.workers i r.1⟩

/-! ### Forgetting the channels -/

/-- The number of elements in each group's channel. -/
def ChannelPool.lengths (s : ChannelPool) (g : ℤ) : Option ℕ :=
  (s.groupSemaphores g).bind fun c => s.channels[c]?

def ChannelPool.forget (s : ChannelPool) : WorkerPool :=
  { s.pool with groupSemaphores := s.lengths }

def ChannelState.forget (s : ChannelState n) : State n :=
  ⟨s.pool.forget, fun i => (s.workers i).worker⟩

/-- Every group has its own channel, and every channel its group. -/
structure ChannelPool.Valid (s : ChannelPool) : Prop where
  injective : ∀ g g' c, s.groupSemaphores g = some c → s.groupSemaphores g' = some c → g = g'
  range : ∀ c, c < s.channels.length ↔ ∃ g, s.groupSemaphores g = some c
  capacity : ∀ k ∈ s.channels, k ≤ semaphoreCapacity

/-- An execution that has looked up its channel holds the channel of its group. -/
def ChannelWorker.Bound (w : ChannelWorker) (s : ChannelPool) : Prop :=
  ∀ p a, w.worker.phase = .processJob p a → p.usesSemaphore = true →
    ∃ c, w.sem = some c ∧ s.groupSemaphores a.job.groupID = some c

structure Bound (s : ChannelState n) : Prop where
  valid : s.pool.Valid
  bound : ∀ i, (s.workers i).Bound s.pool

theorem event_semaphores (s : WorkerPool) (G : ℤ → Option ℕ) (e : Event) :
    WorkerPool.event { s with groupSemaphores := G } e =
      (s.event e).map fun t => { t with groupSemaphores := G } := by
  cases e with
  | delay k d =>
    simp only [WorkerPool.event, WorkerPool.delay]
    split
    · rw [Option.map_map]
      rfl
    · split <;> rfl
    · split <;> rfl
    · split <;> rfl
    · split <;> rfl
    · rfl
  | pauseGroup | resumeGroup | registry => rfl
  | advance | submit | stopResume | stopClose =>
    simp only [WorkerPool.event]
    split <;> rfl

/-- Only three operations of `processJob` touch the semaphores. -/
def Point.semaphore : Point → Bool
  | .lookupSemaphore | .enterSemaphore | .leaveSemaphore => true
  | _ => false

theorem processJob_semaphores (s : WorkerPool) (G : ℤ → Option ℕ) (io : Fleet.AgentManager.SendIO)
    (a : Accepted) {p : Point} (hp : p.semaphore = false) :
    WorkerPool.processJob { s with groupSemaphores := G } io a p =
      (s.processJob io a p).map fun r => (r.1, { r.2 with groupSemaphores := G }) := by
  cases p with
  | lookupSemaphore | enterSemaphore | leaveSemaphore => cases hp
  | wait | releaseJob => rfl
  | acquireJob | checkPause | sendCommand =>
    simp only [WorkerPool.processJob]
    split <;> rfl
  | checkWindow =>
    simp only [WorkerPool.processJob]
    split
    · rfl
    · split_ifs <;> rfl

theorem act_semaphores (s : WorkerPool) (G : ℤ → Option ℕ) (w : Worker) (x : WorkerAct)
    (hw : ∀ p a, w.phase = .processJob p a → p.semaphore = false) :
    w.act { s with groupSemaphores := G } x =
      (w.act s x).map fun r => (r.1, { r.2 with groupSemaphores := G }) := by
  obtain ⟨d, ph⟩ := w
  unfold Worker.act
  split
  · split <;> rfl
  · dsimp only
    split <;> rfl
  · split <;> rfl
  · rename_i p a io hph
    simp only [processJob_semaphores s G io a (hw p a hph), Option.map_map]
    rfl
  · rfl

variable {s t : ChannelPool} {w w' : ChannelWorker} {c k : ℕ} {g : ℤ}

theorem ChannelPool.Valid.lengths (hs : s.Valid) (hc : s.groupSemaphores g = some c) :
    ∃ k, s.channels[c]? = some k ∧ s.lengths g = some k := by
  have hlt : c < s.channels.length := (hs.range c).mpr ⟨g, hc⟩
  refine ⟨s.channels[c], List.getElem?_eq_getElem hlt, ?_⟩
  rw [ChannelPool.lengths, hc, Option.bind_some, List.getElem?_eq_getElem hlt]

theorem ChannelPool.Valid.setChannel (hs : s.Valid) (hk : k ≤ semaphoreCapacity) (c : ℕ) :
    (s.setChannel c k).Valid where
  injective := hs.injective
  range d := by
    rw [ChannelPool.setChannel, List.length_set]
    exact hs.range d
  capacity j hj := by
    rcases List.mem_or_eq_of_mem_set hj with hj | rfl
    · exact hs.capacity j hj
    · exact hk

theorem ChannelPool.Valid.forget_setChannel (hs : s.Valid) (hc : s.groupSemaphores g = some c)
    (k : ℕ) : (s.setChannel c k).forget = s.forget.setSemaphore g k := by
  have hlt : c < s.channels.length := (hs.range c).mpr ⟨g, hc⟩
  have hlengths : (s.setChannel c k).lengths = Function.update s.lengths g (some k) := by
    funext g'
    by_cases hg : g' = g
    · subst hg
      simp [ChannelPool.lengths, ChannelPool.setChannel, hc, hlt]
    · rw [Function.update_of_ne hg]
      unfold ChannelPool.lengths ChannelPool.setChannel
      cases hg' : s.groupSemaphores g' with
      | none => rfl
      | some c' =>
        have hne : c ≠ c' := by
          rintro rfl
          exact hg (hs.injective g' g c hg' hc)
        simp [List.getElem?_set_ne hne]
  rw [ChannelPool.forget, hlengths]
  rfl

theorem ChannelPool.Valid.lt_length (hs : s.Valid) (hc : s.groupSemaphores g = some c) :
    c < s.channels.length := (hs.range c).mpr ⟨g, hc⟩

theorem ChannelPool.Valid.make (hs : s.Valid) (hg : s.groupSemaphores g = none) :
    (s.make g).Valid where
  injective g₁ g₂ d h₁ h₂ := by
    unfold ChannelPool.make at h₁ h₂
    by_cases hg₁ : g₁ = g
    · by_cases hg₂ : g₂ = g
      · rw [hg₁, hg₂]
      · simp only [hg₁, Function.update_self, Function.update_of_ne hg₂] at h₁ h₂
        have hlt := hs.lt_length h₂
        cases h₁
        omega
    · by_cases hg₂ : g₂ = g
      · simp only [hg₂, Function.update_self, Function.update_of_ne hg₁] at h₁ h₂
        have hlt := hs.lt_length h₁
        cases h₂
        omega
      · simp only [Function.update_of_ne hg₁, Function.update_of_ne hg₂] at h₁ h₂
        exact hs.injective g₁ g₂ d h₁ h₂
  range d := by
    simp only [ChannelPool.make, List.length_append, List.length_singleton]
    constructor
    · intro hd
      rcases Nat.lt_succ_iff_lt_or_eq.mp hd with hd | rfl
      · obtain ⟨g', hg'⟩ := (hs.range d).mp hd
        have hne : g' ≠ g := by
          rintro rfl
          rw [hg] at hg'
          cases hg'
        exact ⟨g', by rw [Function.update_of_ne hne, hg']⟩
      · exact ⟨g, Function.update_self ..⟩
    · rintro ⟨g', hg'⟩
      by_cases hgg : g' = g
      · rw [hgg, Function.update_self] at hg'
        cases hg'
        omega
      · rw [Function.update_of_ne hgg] at hg'
        have hlt := hs.lt_length hg'
        omega
  capacity j hj := by
    rcases List.mem_append.mp hj with hj | hj
    · exact hs.capacity j hj
    · rw [List.mem_singleton.mp hj]
      exact Nat.zero_le _

theorem ChannelPool.Valid.forget_make (hs : s.Valid) (g : ℤ) :
    (s.make g).forget = s.forget.setSemaphore g 0 := by
  have hlengths : (s.make g).lengths = Function.update s.lengths g (some 0) := by
    funext g'
    by_cases hg : g' = g
    · subst hg
      simp [ChannelPool.lengths, ChannelPool.make]
    · rw [Function.update_of_ne hg]
      simp only [ChannelPool.lengths, ChannelPool.make, Function.update_of_ne hg]
      cases hg' : s.groupSemaphores g' with
      | none => rfl
      | some c => simp [List.getElem?_append_left (hs.lt_length hg')]
  rw [ChannelPool.forget, hlengths]
  rfl

/-- No operation takes a channel from its group. -/
def ChannelPool.Extends (s t : ChannelPool) : Prop :=
  ∀ g c, s.groupSemaphores g = some c → t.groupSemaphores g = some c

theorem ChannelPool.Valid.extends_make (hg : s.groupSemaphores g = none) :
    s.Extends (s.make g) := by
  intro g' c hc
  have hne : g' ≠ g := by
    rintro rfl
    rw [hg] at hc
    cases hc
  exact (Function.update_of_ne hne ..).trans hc

/-- What an operation of a worker does: it is the same operation of the pool without
channels, and keeps every channel with its group. -/
structure Acts (s : ChannelPool) (w : ChannelWorker) (x : WorkerAct) (w' : ChannelWorker)
    (t : ChannelPool) : Prop where
  valid : t.Valid
  bound : w'.Bound t
  extend : s.Extends t
  forget : w.worker.act s.forget x = some (w'.worker, t.forget)

theorem acts_elsewhere {x : WorkerAct} {v : Worker} {pool : WorkerPool} (hs : s.Valid)
    (hw : w.Bound s) (hp : ∀ p a, w.worker.phase = .processJob p a → p.semaphore = false)
    (h : w.worker.act s.pool x = some (v, pool)) :
    Acts s w x ⟨v, w.sem⟩ { s with pool := pool } where
  valid := ⟨hs.injective, hs.range, hs.capacity⟩
  bound p a hphase huses := by
    obtain ⟨u, sem⟩ := w
    have hmoves := act_moves h
    dsimp only at hmoves hphase
    cases hmoves with
    | lookedUp | entered | left => cases hp _ _ rfl
    | sent =>
      cases hphase
      exact hw .sendCommand _ rfl rfl
    | observeStop | exit | conflict | released => cases hphase
    | receive | acquired | paused | unpaused | inWindow | skipped | delayed =>
      cases hphase
      cases huses
  extend _ _ hc := hc
  forget := by
    rw [ChannelPool.forget, act_semaphores s.pool s.lengths w.worker x hp, h]
    rfl

theorem processJob_elsewhere (s : ChannelPool) (io : Fleet.AgentManager.SendIO) (a : Accepted)
    (sem : Option ℕ) {p : Point} (hp : p.semaphore = false) :
    s.processJob io a sem p =
      (s.pool.processJob io a p).map fun r => (r.1, sem, { s with pool := r.2 }) := by
  cases p with
  | lookupSemaphore | enterSemaphore | leaveSemaphore => cases hp
  | acquireJob | checkPause | wait | checkWindow | sendCommand | releaseJob => rfl

theorem acts_lookupSemaphore {d : Bool} {a : Accepted} {sem : Option ℕ} (hs : s.Valid)
    {io : Fleet.AgentManager.SendIO} {r : Phase × Option ℕ × ChannelPool}
    (h : s.processJob io a sem .lookupSemaphore = some r) :
    Acts s ⟨⟨d, .processJob .lookupSemaphore a⟩, sem⟩ (.process io) ⟨⟨d, r.1⟩, r.2.1⟩ r.2.2 := by
  simp only [ChannelPool.processJob] at h
  split at h
  · rename_i c hc
    cases h
    obtain ⟨k, -, hk⟩ := hs.lengths hc
    have hforget : s.forget.groupSemaphores a.job.groupID = some k := hk
    refine ⟨hs, ?_, fun _ _ hc => hc, by simp [Worker.act, WorkerPool.processJob, hforget]⟩
    intro p b hphase _
    cases hphase
    exact ⟨c, rfl, hc⟩
  · rename_i hnone
    cases h
    have hforget : s.forget.groupSemaphores a.job.groupID = none := by
      simp [ChannelPool.forget, ChannelPool.lengths, hnone]
    refine ⟨hs.make hnone, ?_, ChannelPool.Valid.extends_make hnone, ?_⟩
    · intro p b hphase _
      cases hphase
      exact ⟨_, rfl, Function.update_self ..⟩
    · rw [hs.forget_make]
      simp [Worker.act, WorkerPool.processJob, hforget]

theorem acts_enterSemaphore {d : Bool} {a : Accepted} {sem : Option ℕ} (hs : s.Valid)
    {io : Fleet.AgentManager.SendIO} {r : Phase × Option ℕ × ChannelPool}
    (hw : (⟨⟨d, .processJob .enterSemaphore a⟩, sem⟩ : ChannelWorker).Bound s)
    (h : s.processJob io a sem .enterSemaphore = some r) :
    Acts s ⟨⟨d, .processJob .enterSemaphore a⟩, sem⟩ (.process io) ⟨⟨d, r.1⟩, r.2.1⟩ r.2.2 := by
  obtain ⟨c, hsem, hc⟩ := hw .enterSemaphore a rfl rfl
  obtain rfl : sem = some c := hsem
  obtain ⟨k, hk, hlength⟩ := hs.lengths hc
  have hforget : s.forget.groupSemaphores a.job.groupID = some k := hlength
  simp only [ChannelPool.processJob, Option.bind_some, hk, Option.ite_none_right_eq_some,
    Option.some.injEq] at h
  obtain ⟨hroom, rfl⟩ := h
  refine ⟨hs.setChannel hroom c, ?_, fun _ _ hc => hc, ?_⟩
  · intro p b hphase _
    cases hphase
    exact ⟨c, rfl, hc⟩
  · rw [hs.forget_setChannel hc]
    simp [Worker.act, WorkerPool.processJob, hforget, hroom]

theorem acts_leaveSemaphore {d : Bool} {a : Accepted} {sem : Option ℕ} (hs : s.Valid)
    {io : Fleet.AgentManager.SendIO} {r : Phase × Option ℕ × ChannelPool}
    (hw : (⟨⟨d, .processJob .leaveSemaphore a⟩, sem⟩ : ChannelWorker).Bound s)
    (h : s.processJob io a sem .leaveSemaphore = some r) :
    Acts s ⟨⟨d, .processJob .leaveSemaphore a⟩, sem⟩ (.process io) ⟨⟨d, r.1⟩, r.2.1⟩ r.2.2 := by
  obtain ⟨c, hsem, hc⟩ := hw .leaveSemaphore a rfl rfl
  obtain rfl : sem = some c := hsem
  obtain ⟨k, hk, hlength⟩ := hs.lengths hc
  simp only [ChannelPool.processJob, Option.bind_some, hk, Option.ite_none_right_eq_some,
    Option.some.injEq] at h
  obtain ⟨hpos, rfl⟩ := h
  obtain ⟨j, rfl⟩ := Nat.exists_eq_add_one_of_ne_zero hpos.ne'
  have hforget : s.forget.groupSemaphores a.job.groupID = some (j + 1) := hlength
  have hcapacity : j + 1 ≤ semaphoreCapacity := hs.capacity _ (List.mem_of_getElem? hk)
  refine ⟨hs.setChannel (by omega) c, ?_, fun _ _ hc => hc, ?_⟩
  · intro p b hphase huses
    cases hphase
    cases huses
  · rw [hs.forget_setChannel hc]
    simp [Worker.act, WorkerPool.processJob, hforget]

theorem act_acts (x : WorkerAct) (hs : s.Valid) (hw : w.Bound s)
    (h : w.act s x = some (w', t)) : Acts s w x w' t := by
  obtain ⟨⟨d, ph⟩, sem⟩ := w
  cases ph with
  | exited => cases x <;> cases h
  | select =>
    obtain ⟨⟨v, pool⟩, hv, heq⟩ := Option.map_eq_some_iff.mp h
    cases heq
    exact acts_elsewhere hs hw (fun p a hphase => nomatch hphase) hv
  | processJob p a =>
    cases x with
    | observeStop | receive | exit => cases h
    | process io =>
      obtain ⟨r, hr, heq⟩ := Option.map_eq_some_iff.mp h
      cases heq
      cases p with
      | lookupSemaphore => exact acts_lookupSemaphore hs hr
      | enterSemaphore => exact acts_enterSemaphore hs hw hr
      | leaveSemaphore => exact acts_leaveSemaphore hs hw hr
      | acquireJob | checkPause | wait | checkWindow | sendCommand | releaseJob =>
        rw [processJob_elsewhere s io a _ rfl] at hr
        obtain ⟨⟨ph, pool⟩, hp, rfl⟩ := Option.map_eq_some_iff.mp hr
        refine acts_elsewhere (v := ⟨d, ph⟩) hs hw ?_ (by simp [Worker.act, hp])
        intro p b hphase
        cases hphase
        rfl

theorem ChannelWorker.Bound.extend {w : ChannelWorker} (hw : w.Bound s) (h : s.Extends t) :
    w.Bound t := by
  intro p a hphase huses
  obtain ⟨c, hsem, hc⟩ := hw p a hphase huses
  exact ⟨c, hsem, h _ c hc⟩

theorem channelStep_forget {s u : ChannelState n} {x : Action n} (hs : Bound s)
    (h : channelStep s x = some u) :
    Bound u ∧ s.pool.Extends u.pool ∧ step s.forget x = some u.forget := by
  cases x with
  | event e =>
    obtain ⟨pool, hpool, rfl⟩ := Option.map_eq_some_iff.mp h
    refine ⟨⟨⟨hs.valid.injective, hs.valid.range, hs.valid.capacity⟩, fun i => ?_⟩,
      fun _ _ hc => hc, ?_⟩
    · dsimp only
      split
      · intro p a hphase huses
        exact hs.bound i p a (Worker.wake_usesSemaphore hphase huses) huses
      · exact hs.bound i
    · simp only [step, ChannelState.forget, ChannelPool.forget, event_semaphores, hpool,
        Option.map_some, Option.some.injEq]
      split <;> rfl
  | worker i x =>
    obtain ⟨⟨w, pool⟩, hw, rfl⟩ := Option.map_eq_some_iff.mp h
    have hacts := act_acts x hs.valid (hs.bound i) hw
    refine ⟨⟨hacts.valid, fun j => ?_⟩, hacts.extend, ?_⟩
    · by_cases hji : j = i
      · subst hji
        simpa using hacts.bound
      · simpa [hji] using (hs.bound j).extend hacts.extend
    · have hact : (s.workers i).worker.act s.pool.forget x = some (w.worker, pool.forget) :=
        hacts.forget
      simp only [step, ChannelState.forget, hact, Option.map_some, Option.some.injEq,
        State.mk.injEq, true_and]
      funext j
      by_cases hji : j = i
      · subst hji
        simp
      · simp [hji]

theorem bound_initial (n : ℕ) (now : Time) : Bound (ChannelState.initial n now) := by
  refine ⟨⟨?_, ?_, ?_⟩, ?_⟩
  · intro g g' c hc
    cases hc
  · simp [ChannelState.initial]
  · simp [ChannelState.initial]
  · intro i p a hphase
    cases hphase

/-- Every run is a run of the pool without channels. -/
theorem channelRun_forget {s u : ChannelState n} {as : List (Action n)} (hs : Bound s)
    (hrun : Machine.run channelStep s as = some u) :
    Bound u ∧ Machine.run step s.forget as = some u.forget :=
  Machine.run_abstraction channelStep ChannelState.forget
    (fun _ _ _ hs hstep => ⟨(channelStep_forget hs hstep).1, (channelStep_forget hs hstep).2.2⟩)
    hs hrun

theorem channelRun_extends {s u : ChannelState n} {as : List (Action n)} (hs : Bound s)
    (hrun : Machine.run channelStep s as = some u) : s.pool.Extends u.pool := by
  have hstep : ∀ (v : ChannelState n) x v', Bound v ∧ s.pool.Extends v.pool →
      channelStep v x = some v' → Bound v' ∧ s.pool.Extends v'.pool := by
    rintro v x v' ⟨hv, hextends⟩ hvx
    obtain ⟨hv', hnext, -⟩ := channelStep_forget hv hvx
    exact ⟨hv', fun g c hc => hnext g c (hextends g c hc)⟩
  exact (Machine.run_invariant channelStep
    (I := fun v : ChannelState n => Bound v ∧ s.pool.Extends v.pool) hstep
    ⟨hs, fun _ _ hc => hc⟩ hrun).2

/-! ### Node locks -/

/-- Some execution holds each node that has an active job. -/
def Locked (s : State n) : Prop := ∀ mac, s.pool.registry.activeJobs mac ≠ none →
  ∃ i, (s.workers i).nodeJob mac ≠ none

theorem moves_activeJobs {s t : WorkerPool} {w w' : Worker} (h : Moves s w w' t) {mac : GoString}
    (hactive : t.registry.activeJobs mac ≠ none) :
    w'.nodeJob mac ≠ none ∨
      s.registry.activeJobs mac ≠ none ∧ w'.nodeJob mac = w.nodeJob mac := by
  cases h with
  | observeStop | receive | exit | conflict => exact Or.inr ⟨hactive, rfl⟩
  | paused | unpaused | inWindow | skipped | delayed | lookedUp | entered | sent | left =>
    exact Or.inr ⟨hactive, by simp [Worker.nodeJob]⟩
  | @acquired d a =>
    by_cases hmac : a.job.nodeMac = mac
    · exact Or.inl (by simp [Worker.nodeJob, hmac])
    · refine Or.inr ⟨?_, by simp [Worker.nodeJob, hmac]⟩
      simpa [Ne.symm hmac] using hactive
  | @released d a =>
    by_cases hmac : a.job.nodeMac = mac
    · simp [Fleet.AgentManager.releaseJob, hmac] at hactive
    · refine Or.inr ⟨?_, by simp [Worker.nodeJob, hmac]⟩
      simpa [Fleet.AgentManager.releaseJob, Ne.symm hmac] using hactive

theorem occurs_activeJobs_ne_none {s t : WorkerPool} {e : Event} (h : Occurs s e t)
    {mac : GoString} (hactive : t.registry.activeJobs mac ≠ none) :
    s.registry.activeJobs mac ≠ none := by
  cases h with
  | @registry c =>
    rcases Fleet.activeJobs_call s.registry s.now c mac with hsame | ⟨-, hnone⟩
    · rwa [hsame] at hactive
    · exact absurd hnone hactive
  | _ => exact hactive

theorem locked_step {s u : State n} {x : Action n} (h : Steps s x u) (hs : Locked s) :
    Locked u := by
  intro mac hactive
  cases h with
  | event hoccurs => exact hs mac (occurs_activeJobs_ne_none hoccurs hactive)
  | broadcast hoccurs =>
    obtain ⟨i, hi⟩ := hs mac (occurs_activeJobs_ne_none hoccurs hactive)
    exact ⟨i, by simpa using hi⟩
  | @worker k act w pool hmoves =>
    rcases moves_activeJobs hmoves hactive with hnew | ⟨hold, hsame⟩
    · exact ⟨k, by simpa using hnew⟩
    · obtain ⟨i, hi⟩ := hs mac hold
      refine ⟨i, ?_⟩
      by_cases hik : i = k
      · subst hik
        simpa [hsame] using hi
      · simpa [hik] using hi


/-- The number of elements in the channel of group `g`. -/
def ChannelState.tokens (s : ChannelState n) (g : ℤ) : ℕ := (s.pool.lengths g).getD 0

theorem tokens_le_capacity {s : ChannelState n} (hs : Bound s) (g : ℤ) :
    s.tokens g ≤ semaphoreCapacity := by
  unfold ChannelState.tokens ChannelPool.lengths
  cases hc : s.pool.groupSemaphores g with
  | none => exact Nat.zero_le _
  | some c =>
    rw [Option.bind_some]
    cases hk : s.pool.channels[c]? with
    | none => exact Nat.zero_le _
    | some k => exact hs.valid.capacity k (List.mem_of_getElem? hk)

theorem slots_eq_zero {w : Worker} (h : ∀ p a, w.phase ≠ .processJob p a) (g : ℤ) :
    w.slots g = 0 := by
  unfold Worker.slots
  split
  · exact absurd ‹_› (h _ _)
  · rfl

theorem nodeJob_eq_none {w : Worker} (h : ∀ p a, w.phase ≠ .processJob p a) (mac : GoString) :
    w.nodeJob mac = none := by
  unfold Worker.nodeJob
  split
  · exact absurd ‹_› (h _ _)
  · rfl

/-- In every run each group has one channel, which holds an element for every execution
between its send and its receive. When no execution is in progress the channels are empty
and no node has an active job. -/
theorem slots_and_nodes_paired {now : Time} {as : List (Action n)} {s : ChannelState n}
    (hrun : Machine.run channelStep (ChannelState.initial n now) as = some s) :
    (∀ g, s.tokens g = ∑ i, (s.workers i).worker.slots g ∧ s.tokens g ≤ semaphoreCapacity) ∧
    (∀ bs u g c, Machine.run channelStep s bs = some u → s.pool.groupSemaphores g = some c →
      u.pool.groupSemaphores g = some c) ∧
    (∀ i p a, (s.workers i).worker.phase = .processJob p a → p.usesSemaphore = true →
      ∃ c, (s.workers i).sem = some c ∧ s.pool.groupSemaphores a.job.groupID = some c) ∧
    ((∀ i p a, (s.workers i).worker.phase ≠ .processJob p a) →
      (∀ k ∈ s.pool.channels, k = 0) ∧ ∀ mac, s.pool.pool.registry.activeJobs mac = none) := by
  obtain ⟨hbound, hforget⟩ := channelRun_forget (bound_initial n now) hrun
  have hinitial : (ChannelState.initial n now).forget = State.initial n now := rfl
  rw [hinitial] at hforget
  have hpaired : Paired s.forget := Machine.run_invariant step
    (fun _ _ _ hs hstep => paired_step (step_steps hstep) hs) (paired_initial n now) hforget
  have hlocked : Locked s.forget := by
    refine Machine.run_invariant step (I := Locked)
      (fun _ _ _ hs hstep => locked_step (step_steps hstep) hs) ?_ hforget
    intro mac hactive
    exact absurd rfl hactive
  have htokens (g : ℤ) : s.tokens g = ∑ i, (s.workers i).worker.slots g := hpaired.tokens g
  refine ⟨fun g => ⟨htokens g, tokens_le_capacity hbound g⟩, ?_, hbound.bound, ?_⟩
  · intro bs u g c hlater hc
    exact channelRun_extends hbound hlater g c hc
  · intro hidle
    constructor
    · intro k hk
      obtain ⟨c, hlt, rfl⟩ := List.getElem_of_mem hk
      obtain ⟨g, hg⟩ := (hbound.valid.range c).mp hlt
      have hsum : s.tokens g = 0 := by
        rw [htokens]
        exact Finset.sum_eq_zero fun i _ => slots_eq_zero (hidle i) g
      simpa [ChannelState.tokens, ChannelPool.lengths, hg, hlt] using hsum
    · intro mac
      by_contra hactive
      obtain ⟨i, hi⟩ := hlocked mac hactive
      exact hi (nodeJob_eq_none (hidle i) mac)

/-- Two executions of one group, one after the other on the same node. -/
private def oneAfterTheOther : List (Action 2) :=
  [.event (.submit (plainJob (ascii "j1") (ascii "aa") 1 none)),
    .event (.submit (plainJob (ascii "j2") (ascii "aa") 1 none)), .worker 0 .receive] ++
    List.replicate 8 (next 0) ++ .worker 1 .receive :: List.replicate 8 (next 1)

theorem slots_and_nodes_paired_oneAfterTheOther :
    ∃ s, Machine.run channelStep (ChannelState.initial 2 0) oneAfterTheOther = some s ∧
      s.pool.channels = [0] ∧ ∀ mac, s.pool.pool.registry.activeJobs mac = none := by
  have hrun : (Machine.run channelStep (ChannelState.initial 2 0) oneAfterTheOther).any (fun s =>
      decide (s.pool.channels = [0] ∧ ∀ i, (s.workers i).worker.phase = .select)) = true := by
    decide +kernel
  simp only [Option.any_eq_true, decide_eq_true_eq] at hrun
  obtain ⟨s, hs, hchannels, hidle⟩ := hrun
  refine ⟨s, hs, hchannels, ((slots_and_nodes_paired hs).2.2.2 ?_).2⟩
  intro i p a hphase
  rw [hidle i] at hphase
  cases hphase

end Patchli.Orchestration
