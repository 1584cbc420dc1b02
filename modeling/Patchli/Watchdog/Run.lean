import Mathlib.Tactic.Linarith
import Patchli.Foundation.GoString
import Patchli.Foundation.Machine

/-!
# The watchdog

`runWatchdog` of `watchdog/main.go`. It starts the agent and starts it again after it has
exited, until a signal arrives. The loop, the goroutines that wait for the processes, the
signals of the system and the processes themselves take turns.
-/

namespace Patchli.Watchdog

inductive Signal
  | interrupt
  | terminate
  deriving DecidableEq

structure Process where
  alive : Bool
  /-- `cmd.Wait()` has returned, and `done` holds its result. -/
  done : Bool
  signals : List Signal
  killed : Bool
  deriving DecidableEq

inductive Phase
  | starting
  /-- `Start` failed. -/
  | retrying (since : Time)
  | running
  /-- A signal was passed on. -/
  | stopping (since : Time)
  | restarting (since : Time)
  | returned
  deriving DecidableEq

/-- The newest process comes first. `starts` records the calls of `Start`. -/
structure State where
  now : Time
  phase : Phase
  sigChan : Option Signal
  processes : List Process
  starts : List Time

def State.initial (now : Time) : State := ⟨now, .starting, none, [], []⟩

inductive Action
  | advance (t : Time)
  /-- The system delivers a signal. -/
  | notify (sig : Signal)
  | start (ok : Bool)
  /-- The `k`-th process ends. -/
  | exit (k : ℕ)
  /-- `done <- cmd.Wait()` for the `k`-th process. -/
  | wait (k : ℕ)
  | receiveSignal
  | receiveDone
  /-- The timer of the `select` has fired. -/
  | timeout

namespace State

def start (s : State) (ok : Bool) : State :=
  let s := { s with starts := s.starts ++ [s.now] }
  if ok then { s with phase := .running, processes := ⟨true, false, [], false⟩ :: s.processes }
  else { s with phase := .retrying s.now }

/-- `f` of the `k`-th process, if `p` holds of it. -/
def change (s : State) (k : ℕ) (p : Process → Bool) (f : Process → Process) : Option State :=
  (s.processes[k]?.filter p).map fun x => { s with processes := s.processes.set k (f x) }

def receiveSignal (s : State) (sig : Signal) : Option State :=
  let s := { s with sigChan := none }
  match s.phase, s.processes with
  | .retrying _, _ | .restarting _, _ => some { s with phase := .returned }
  | .running, x :: xs => some { s with
      phase := .stopping s.now
      processes := { x with signals := x.signals ++ [sig] } :: xs }
  | _, _ => none

def receiveDone (s : State) : Option State :=
  match s.phase, s.processes with
  | .running, x :: _ => if x.done then some { s with phase := .restarting s.now } else none
  | .stopping _, x :: _ => if x.done then some { s with phase := .returned } else none
  | _, _ => none

def timeout (s : State) : Option State :=
  match s.phase, s.processes with
  | .retrying since, _ =>
    if since + 10 * second ≤ s.now then some { s with phase := .starting } else none
  | .stopping since, x :: xs =>
    if since + 10 * second ≤ s.now then
      some { s with phase := .returned, processes := { x with killed := true } :: xs }
    else none
  | .restarting since, _ =>
    if since + 5 * second ≤ s.now then some { s with phase := .starting } else none
  | _, _ => none

end State

def step (s : State) : Action → Option State
  | .advance t => if s.now ≤ t then some { s with now := t } else none
  -- the channel holds one signal, and others are dropped
  | .notify sig => some { s with sigChan := s.sigChan.or (some sig) }
  | .start ok => if s.phase = .starting then some (s.start ok) else none
  | .exit k => s.change k Process.alive fun x => { x with alive := false }
  | .wait k => s.change k (fun x => !x.alive && !x.done) fun x => { x with done := true }
  | .receiveSignal => s.sigChan.bind s.receiveSignal
  | .receiveDone => s.receiveDone
  | .timeout => s.timeout

/-! ### What a step can do -/

/-- What happens to a process by itself. -/
inductive Fades : Process → Process → Prop
  | exited {x : Process} : Fades x { x with alive := false }
  | waited {x : Process} : x.alive = false → Fades x { x with done := true }

/-- The phases in which no process is supervised. -/
def Phase.idle : Phase → Bool
  | .starting | .retrying _ | .restarting _ => true
  | _ => false

/-- The effects of the steps. -/
inductive Moves (s : State) : State → Prop
  | advanced {t : Time} : s.now ≤ t → Moves s { s with now := t }
  | notified {sig : Option Signal} : Moves s { s with sigChan := sig }
  | started : s.phase = .starting → Moves s { s with
      phase := .running
      processes := ⟨true, false, [], false⟩ :: s.processes
      starts := s.starts ++ [s.now] }
  | notStarted : s.phase = .starting → Moves s { s with
      phase := .retrying s.now
      starts := s.starts ++ [s.now] }
  | faded {k : ℕ} {x y : Process} : s.processes[k]? = some x → Fades x y →
      Moves s { s with processes := s.processes.set k y }
  | gaveUp : s.phase.idle = true → Moves s { s with sigChan := none, phase := .returned }
  | passedOn {x : Process} {xs : List Process} {sig : Signal} : s.phase = .running →
      s.processes = x :: xs → Moves s { s with
        sigChan := none
        phase := .stopping s.now
        processes := { x with signals := x.signals ++ [sig] } :: xs }
  | ended {x : Process} {xs : List Process} : s.phase = .running → s.processes = x :: xs →
      x.done = true → Moves s { s with phase := .restarting s.now }
  | stopped {since : Time} {x : Process} {xs : List Process} : s.phase = .stopping since →
      s.processes = x :: xs → x.done = true → Moves s { s with phase := .returned }
  | killed {since : Time} {x : Process} {xs : List Process} : s.phase = .stopping since →
      s.processes = x :: xs → Moves s { s with
        phase := .returned
        processes := { x with killed := true } :: xs }
  | resumed {since d : Time} : s.phase = .retrying since ∧ d = 10 * second ∨
      s.phase = .restarting since ∧ d = 5 * second → since + d ≤ s.now →
      Moves s { s with phase := .starting }

variable {s t u : State} {a : Action}

theorem change_eq_some {k : ℕ} {p : Process → Bool} {f : Process → Process}
    (h : s.change k p f = some t) : ∃ x, s.processes[k]? = some x ∧ p x = true ∧
      t = { s with processes := s.processes.set k (f x) } := by
  obtain ⟨x, hx, rfl⟩ := Option.map_eq_some_iff.mp h
  obtain ⟨hk, hp⟩ := Option.filter_eq_some_iff.mp hx
  exact ⟨x, hk, hp, rfl⟩

theorem receiveSignal_moves {sig : Signal} (h : s.receiveSignal sig = some t) : Moves s t := by
  unfold State.receiveSignal at h
  dsimp only at h
  split at h
  · rename_i since hphase
    cases h
    exact .gaveUp (by rw [hphase]; rfl)
  · rename_i since hphase
    cases h
    exact .gaveUp (by rw [hphase]; rfl)
  · rename_i x xs hphase hprocesses
    cases h
    exact .passedOn hphase hprocesses
  · cases h

theorem receiveDone_moves (h : s.receiveDone = some t) : Moves s t := by
  unfold State.receiveDone at h
  split at h
  · rename_i x xs hphase hprocesses
    split_ifs at h with hdone
    cases h
    exact .ended hphase hprocesses hdone
  · rename_i since x xs hphase hprocesses
    split_ifs at h with hdone
    cases h
    exact .stopped hphase hprocesses hdone
  · cases h

theorem timeout_moves (h : s.timeout = some t) : Moves s t := by
  unfold State.timeout at h
  split at h
  · rename_i since hphase
    split_ifs at h with htime
    cases h
    exact .resumed (Or.inl ⟨hphase, rfl⟩) htime
  · rename_i since x xs hphase hprocesses
    split_ifs at h
    cases h
    exact .killed hphase hprocesses
  · rename_i since hphase
    split_ifs at h with htime
    cases h
    exact .resumed (Or.inr ⟨hphase, rfl⟩) htime
  · cases h

theorem step_moves (h : step s a = some t) : Moves s t := by
  cases a with
  | advance t =>
    simp only [step, Option.ite_none_right_eq_some, Option.some.injEq] at h
    obtain ⟨hle, rfl⟩ := h
    exact .advanced hle
  | notify sig =>
    cases h
    exact .notified
  | start ok =>
    simp only [step, Option.ite_none_right_eq_some, Option.some.injEq] at h
    obtain ⟨hphase, rfl⟩ := h
    cases ok with
    | true => exact .started hphase
    | false => exact .notStarted hphase
  | exit k =>
    obtain ⟨x, hk, -, rfl⟩ := change_eq_some h
    exact .faded hk .exited
  | wait k =>
    obtain ⟨x, hk, hx, rfl⟩ := change_eq_some h
    simp only [Bool.and_eq_true, Bool.not_eq_true'] at hx
    exact .faded hk (.waited hx.1)
  | receiveSignal =>
    obtain ⟨sig, -, h⟩ := Option.bind_eq_some_iff.mp h
    exact receiveSignal_moves h
  | receiveDone => exact receiveDone_moves h
  | timeout => exact timeout_moves h

/-! ### One agent at a time -/

/-- The watchdog waits for a live process, or it has killed it. -/
def Phase.Attends (x : Process) : Phase → Prop
  | .running | .stopping _ => True
  | .returned => x.killed = true
  | .starting | .retrying _ | .restarting _ => False

/-- Only the newest process is alive. -/
structure Supervised (s : State) : Prop where
  done : ∀ x ∈ s.processes, x.done = true → x.alive = false
  alive : ∀ (k : ℕ) (x : Process), s.processes[k]? = some x → x.alive = true →
    k = 0 ∧ s.phase.Attends x

theorem not_attends_of_idle {ph : Phase} (h : ph.idle = true) (x : Process) : ¬ ph.Attends x := by
  cases ph with
  | starting | retrying since | restarting since => exact id
  | running | stopping since | returned => cases h

theorem Fades.done {x y : Process} (h : Fades x y) : y.alive = false := by
  cases h with
  | exited => rfl
  | waited halive => exact halive

theorem Fades.alive {x y : Process} (h : Fades x y) (hy : y.alive = true) :
    x.alive = true ∧ y.killed = x.killed := by
  cases h with
  | exited => cases hy
  | waited halive => exact ⟨hy, rfl⟩

theorem attends_congr {x y : Process} (h : y.killed = x.killed) {ph : Phase}
    (hx : ph.Attends x) : ph.Attends y := by
  cases ph with
  | running | stopping since => trivial
  | returned => exact h.trans hx
  | starting | retrying since | restarting since => exact hx

theorem Supervised.withPhase (hs : Supervised s) {ph : Phase}
    (hph : ∀ x, s.processes[0]? = some x → x.alive = true → s.phase.Attends x → ph.Attends x)
    {sig : Option Signal} {starts : List Time} :
    Supervised { s with phase := ph, sigChan := sig, starts := starts } where
  done := hs.done
  alive k x hk hx := by
    obtain ⟨rfl, hattends⟩ := hs.alive k x hk hx
    exact ⟨rfl, hph x hk hx hattends⟩

theorem Supervised.withNewest (hs : Supervised s) {x y : Process} {xs : List Process}
    (hprocesses : s.processes = x :: xs) (hdone : y.done = x.done) (halive : y.alive = x.alive)
    {ph : Phase} (hph : ph.Attends y) {sig : Option Signal} :
    Supervised { s with phase := ph, sigChan := sig, processes := y :: xs } where
  done z hz hzdone := by
    rcases List.mem_cons.mp hz with rfl | hz
    · rw [halive]
      exact hs.done x (by rw [hprocesses]; exact List.mem_cons_self) (hdone ▸ hzdone)
    · exact hs.done z (by rw [hprocesses]; exact List.mem_cons_of_mem _ hz) hzdone
  alive k z hk hz := by
    cases k with
    | zero =>
      cases hk
      exact ⟨rfl, hph⟩
    | succ k =>
      have hold : s.processes[k + 1]? = some z := by rw [hprocesses]; exact hk
      exact absurd (hs.alive (k + 1) z hold hz).1 (Nat.succ_ne_zero k)

theorem supervised_initial (now : Time) : Supervised (.initial now) where
  done x hx := absurd hx List.not_mem_nil
  alive k x hk := by cases hk

theorem supervised_moves (hs : Supervised s) (h : Moves s t) : Supervised t := by
  cases h with
  | advanced | notified => exact ⟨hs.done, hs.alive⟩
  | started hphase =>
    refine ⟨?_, ?_⟩
    · intro x hx hdone
      rcases List.mem_cons.mp hx with rfl | hx
      · cases hdone
      · exact hs.done x hx hdone
    · intro k x hk hx
      cases k with
      | zero => exact ⟨rfl, trivial⟩
      | succ k =>
        have hattends := (hs.alive k x hk hx).2
        rw [hphase] at hattends
        exact hattends.elim
  | notStarted hphase =>
    apply hs.withPhase
    intro x hk hx hattends
    rw [hphase] at hattends
    exact hattends
  | @faded k x y hk hfades =>
    refine ⟨?_, ?_⟩
    · intro z hz
      rcases List.mem_or_eq_of_mem_set hz with hz | rfl
      · exact hs.done z hz
      · exact fun _ => hfades.done
    · intro l z hl hz
      by_cases hlk : l = k
      · subst hlk
        rw [List.getElem?_set_self (List.getElem?_eq_some_iff.mp hk).1] at hl
        cases hl
        obtain ⟨hx, hkilled⟩ := hfades.alive hz
        obtain ⟨hzero, hattends⟩ := hs.alive l x hk hx
        exact ⟨hzero, attends_congr hkilled hattends⟩
      · rw [List.getElem?_set_ne (Ne.symm hlk)] at hl
        exact hs.alive l z hl hz
  | gaveUp hidle =>
    apply hs.withPhase
    intro x hk hx hattends
    exact absurd hattends (not_attends_of_idle hidle x)
  | passedOn hphase hprocesses =>
    refine hs.withNewest hprocesses ?_ ?_ ?_
    · rfl
    · rfl
    · trivial
  | ended hphase hprocesses hdone | stopped hphase hprocesses hdone =>
    apply hs.withPhase
    intro x hk hx hattends
    rw [hprocesses] at hk
    cases hk
    rw [hs.done _ (by rw [hprocesses]; exact List.mem_cons_self) hdone] at hx
    cases hx
  | killed hphase hprocesses =>
    refine hs.withNewest hprocesses ?_ ?_ ?_
    · rfl
    · rfl
    · rfl
  | resumed hphase =>
    apply hs.withPhase
    intro x hk hx hattends
    refine absurd hattends (not_attends_of_idle ?_ x)
    rcases hphase with ⟨hphase, -⟩ | ⟨hphase, -⟩ <;> rw [hphase] <;> rfl

/-! ### The pace of starting -/

/-- The earliest time of the next start, if there can be one. -/
def State.nextStart (s : State) : Option Time :=
  match s.phase with
  | .starting => some s.now
  | .retrying since => some (since + 10 * second)
  | .running => some (s.now + 5 * second)
  | .restarting since => some (since + 5 * second)
  | .stopping _ | .returned => none

/-- A step is a start, and another one comes five seconds later at the earliest, or it does
not bring the next start forward. -/
theorem moves_pace (h : Moves s t) :
    s.phase = .starting ∧ t.starts = s.starts ++ [s.now] ∧
        (∀ next ∈ t.nextStart, s.now + 5 * second ≤ next) ∨
      t.starts = s.starts ∧ ∀ next ∈ t.nextStart, ∃ before ∈ s.nextStart, before ≤ next := by
  have hsecond : 0 < second := by decide
  cases h with
  | advanced hle =>
    refine Or.inr ⟨rfl, ?_⟩
    cases hphase : s.phase <;> simp [State.nextStart, hphase]
    all_goals exact hle
  | notified | faded => exact Or.inr ⟨rfl, fun next hn => ⟨next, hn, le_rfl⟩⟩
  | started hphase =>
    refine Or.inl ⟨hphase, rfl, ?_⟩
    simp [State.nextStart]
  | notStarted hphase =>
    refine Or.inl ⟨hphase, rfl, ?_⟩
    intro next hn
    cases hn
    linarith
  | gaveUp | passedOn | stopped | killed =>
    exact Or.inr ⟨rfl, fun next hn => absurd hn (Option.not_mem_none next)⟩
  | ended hphase =>
    refine Or.inr ⟨rfl, ?_⟩
    simp [State.nextStart, hphase]
  | resumed hphase htime =>
    refine Or.inr ⟨rfl, ?_⟩
    rcases hphase with ⟨hphase, rfl⟩ | ⟨hphase, rfl⟩ <;> simpa [State.nextStart, hphase] using htime

/-- Five seconds lie between two starts, and before the next one. -/
structure Paced (s : State) : Prop where
  starts : s.starts.Pairwise fun t u => t + 5 * second ≤ u
  next : ∀ next ∈ s.nextStart, ∀ t ∈ s.starts, t + 5 * second ≤ next

theorem paced_initial (now : Time) : Paced (.initial now) where
  starts := List.Pairwise.nil
  next _ _ _ ht := absurd ht List.not_mem_nil

theorem paced_moves (hs : Paced s) (h : Moves s t) : Paced t := by
  have hsecond : 0 < second := by decide
  rcases moves_pace h with ⟨hphase, hstarts, hnext⟩ | ⟨hstarts, hnext⟩
  · have hnow : ∀ u ∈ s.starts, u + 5 * second ≤ s.now :=
      hs.next s.now (by rw [State.nextStart, hphase]; rfl)
    refine ⟨?_, ?_⟩
    · rw [hstarts, List.pairwise_append]
      refine ⟨hs.starts, List.pairwise_singleton _ _, ?_⟩
      intro u hu v hv
      rw [List.mem_singleton.mp hv]
      exact hnow u hu
    · intro next hn u hu
      have hle := hnext next hn
      rw [hstarts] at hu
      rcases List.mem_append.mp hu with hu | hu
      · have hbefore := hnow u hu
        linarith
      · rw [List.mem_singleton.mp hu]
        exact hle
  · refine ⟨?_, ?_⟩
    · rw [hstarts]
      exact hs.starts
    · intro next hn u hu
      obtain ⟨before, hbefore, hle⟩ := hnext next hn
      rw [hstarts] at hu
      exact (hs.next before hbefore u hu).trans hle

theorem nextStart_eq_none : s.nextStart = none ↔
    (∃ since, s.phase = .stopping since) ∨ s.phase = .returned := by
  unfold State.nextStart
  split <;> simp_all

theorem no_earlier_start (bs : List Action) (h : Machine.run step s bs = some u) :
    u.starts = s.starts ∧ (∀ next ∈ u.nextStart, ∃ before ∈ s.nextStart, before ≤ next) ∨
      ∃ t ts, u.starts = s.starts ++ t :: ts ∧ ∃ before ∈ s.nextStart, before ≤ t := by
  refine Machine.run_invariant step (I := fun u =>
    u.starts = s.starts ∧ (∀ next ∈ u.nextStart, ∃ before ∈ s.nextStart, before ≤ next) ∨
      ∃ t ts, u.starts = s.starts ++ t :: ts ∧ ∃ before ∈ s.nextStart, before ≤ t) ?_
    (Or.inl ⟨rfl, fun next hn => ⟨next, hn, le_rfl⟩⟩) h
  intro v a w hv hstep
  have hpace := moves_pace (step_moves hstep)
  rcases hv with ⟨hstarts, hnext⟩ | ⟨t, ts, hstarts, hbefore⟩
  · rcases hpace with ⟨hphase, hnew, -⟩ | ⟨hkept, hlater⟩
    · have hnow := hnext v.now (by rw [State.nextStart, hphase]; rfl)
      exact Or.inr ⟨v.now, [], by rw [hnew, hstarts], hnow⟩
    · refine Or.inl ⟨hkept.trans hstarts, ?_⟩
      intro next hn
      obtain ⟨middle, hmiddle, hle⟩ := hlater next hn
      obtain ⟨before, hmem, hbefore⟩ := hnext middle hmiddle
      exact ⟨before, hmem, hbefore.trans hle⟩
  · rcases hpace with ⟨-, hnew, -⟩ | ⟨hkept, -⟩
    · exact Or.inr ⟨t, ts ++ [v.now], by rw [hnew, hstarts]; simp, hbefore⟩
    · exact Or.inr ⟨t, ts, hkept.trans hstarts, hbefore⟩

/-! ### Every run -/

/-- At most one agent is alive; the watchdog waits for it, or has killed it. Two starts are
five seconds apart, and after a signal was received there is none. -/
theorem one_agent_at_a_time {now : Time} {as : List Action}
    (hrun : Machine.run step (.initial now) as = some s) :
    (∀ (k l : ℕ) (x y : Process), s.processes[k]? = some x → s.processes[l]? = some y →
      x.alive = true → y.alive = true → k = l) ∧
    (∀ x ∈ s.processes, x.alive = true → s.phase = .running ∨ (∃ since, s.phase = .stopping since) ∨
      s.phase = .returned ∧ x.killed = true) ∧
    s.starts.Pairwise (fun t u => t + 5 * second ≤ u) ∧
    ∀ (bs : List Action) (u : State), Machine.run step s bs = some u →
      (∃ since, s.phase = .stopping since) ∨ s.phase = .returned → u.starts = s.starts := by
  have hinv : Supervised s ∧ Paced s :=
    Machine.run_invariant step (I := fun s => Supervised s ∧ Paced s)
      (fun s a t hs h => ⟨supervised_moves hs.1 (step_moves h), paced_moves hs.2 (step_moves h)⟩)
      ⟨supervised_initial now, paced_initial now⟩ hrun
  obtain ⟨hsupervised, hpaced⟩ := hinv
  refine ⟨?_, ?_, hpaced.starts, ?_⟩
  · intro k l x y hk hl hx hy
    rw [(hsupervised.alive k x hk hx).1, (hsupervised.alive l y hl hy).1]
  · intro x hx halive
    obtain ⟨k, hk⟩ := List.getElem?_of_mem hx
    have hattends := (hsupervised.alive k x hk halive).2
    cases hphase : s.phase with
    | running => exact Or.inl rfl
    | stopping since => exact Or.inr (Or.inl ⟨since, rfl⟩)
    | returned =>
      rw [hphase] at hattends
      exact Or.inr (Or.inr ⟨rfl, hattends⟩)
    | starting | retrying since | restarting since =>
      rw [hphase] at hattends
      exact hattends.elim
  · intro bs u hrest hended
    have hnone : s.nextStart = none := nextStart_eq_none.mpr hended
    rcases no_earlier_start bs hrest with ⟨hstarts, -⟩ | ⟨t, ts, -, before, hbefore, -⟩
    · exact hstarts
    · rw [hnone] at hbefore
      exact absurd hbefore (Option.not_mem_none before)

/-- The first agent ends by itself, and a signal comes while the second one runs, which is
killed. -/
private def stopped : List Action :=
  [.start true, .exit 0, .wait 0, .receiveDone, .advance (5 * second), .timeout, .start true,
    .notify .terminate, .receiveSignal, .advance (15 * second), .timeout]

theorem one_agent_at_a_time_stopped : ∃ s, Machine.run step (.initial 0) stopped = some s ∧
    s.starts = [0, 5 * second] ∧
    ∀ (bs : List Action) (u : State), Machine.run step s bs = some u →
      (∃ since, s.phase = .stopping since) ∨ s.phase = .returned → u.starts = s.starts := by
  have heval : (Machine.run step (.initial 0) stopped).any
      (fun s => s.starts = [0, 5 * second]) = true := by
    decide
  simp only [Option.any_eq_true, decide_eq_true_eq] at heval
  obtain ⟨s, hrun, hstarts⟩ := heval
  exact ⟨s, hrun, hstarts, (one_agent_at_a_time hrun).2.2.2⟩

/-! ### Starting again -/

/-- There is a process to wait for. -/
def Attended (s : State) : Prop := s.phase = .running → s.processes ≠ []

theorem attended_moves (hs : Attended s) (h : Moves s t) : Attended t := by
  cases h with
  | advanced | notified => exact hs
  | started => exact fun _ => List.cons_ne_nil _ _
  | faded => simpa [Attended] using hs
  | notStarted | gaveUp | passedOn | ended | stopped | killed | resumed =>
    intro hphase
    cases hphase

structure StartedAt (s u : State) (at_ : Time) : Prop where
  starts : u.starts = s.starts ++ [at_]
  phase : u.phase = .running
  alive : ∃ x ∈ u.processes, x.alive = true

theorem resume_run {since d : Time} (hphase : s.phase = .retrying since ∧ d = 10 * second ∨
    s.phase = .restarting since ∧ d = 5 * second) :
    ∃ bs u, Machine.run step s bs = some u ∧ StartedAt s u (max s.now (since + d)) := by
  let woken : State := { s with now := max s.now (since + d), phase := .starting }
  have hwake : Machine.run step s [.advance (max s.now (since + d)), .timeout] = some woken := by
    rcases hphase with ⟨hphase, rfl⟩ | ⟨hphase, rfl⟩ <;>
      simp [Machine.run, step, State.timeout, hphase, woken]
  have hstart : Machine.run step woken [.start true] = some (woken.start true) := rfl
  exact ⟨_, woken.start true, (Machine.run_append step).mpr ⟨woken, hwake, hstart⟩,
    rfl, rfl, _, List.mem_cons_self, rfl⟩

theorem ended_run {x : Process} {xs : List Process} (hphase : s.phase = .running)
    (hprocesses : s.processes = x :: xs) : ∃ bs u, Machine.run step s bs = some u ∧
      u.now = s.now ∧ u.starts = s.starts ∧ u.phase = .restarting s.now := by
  let ended (y : Process) : State :=
    { s with processes := y :: xs, phase := .restarting s.now }
  have hended (y : Process) (hy : y.done = true) :
      Machine.run step { s with processes := y :: xs } [.receiveDone] = some (ended y) := by
    simp [Machine.run, step, State.receiveDone, hphase, hy, ended]
  by_cases hdone : x.done = true
  · refine ⟨[.receiveDone], ended x, ?_, rfl, rfl, rfl⟩
    rw [← hended x hdone, ← hprocesses]
  · by_cases halive : x.alive = true
    · refine ⟨[.exit 0, .wait 0, .receiveDone], ended { x with alive := false, done := true }, ?_,
        rfl, rfl, rfl⟩
      rw [← hended { x with alive := false, done := true } rfl]
      simp [Machine.run, step, State.change, Option.filter, hprocesses, halive, hdone]
    · refine ⟨[.wait 0, .receiveDone], ended { x with done := true }, ?_, rfl, rfl, rfl⟩
      rw [← hended { x with done := true } rfl]
      simp [Machine.run, step, State.change, Option.filter, hprocesses, halive, hdone]

/-- As long as no signal was received, the next start comes at its earliest time at the
earliest, and the agent can be started then. -/
theorem agent_started_again {now next : Time} {as : List Action}
    (hrun : Machine.run step (.initial now) as = some s) (hnext : s.nextStart = some next) :
    (∀ (bs : List Action) (u : State) (t : Time) (ts : List Time),
      Machine.run step s bs = some u → u.starts = s.starts ++ t :: ts → next ≤ t) ∧
    ∃ bs u, Machine.run step s bs = some u ∧ StartedAt s u (max s.now next) := by
  refine ⟨?_, ?_⟩
  · intro bs u t ts hrest hstarts
    rcases no_earlier_start bs hrest with ⟨hkept, -⟩ | ⟨t', ts', hstarts', before, hmem, hle⟩
    · rw [hkept] at hstarts
      exact absurd (List.self_eq_append_right.mp hstarts) (List.cons_ne_nil t ts)
    · obtain ⟨rfl, -⟩ := List.cons.inj (List.append_cancel_left (hstarts.symm.trans hstarts'))
      cases hnext.symm.trans hmem
      exact hle
  · cases hphase : s.phase with
    | starting =>
      rw [State.nextStart, hphase] at hnext
      cases hnext
      rw [max_self]
      refine ⟨[.start true], s.start true, ?_, rfl, rfl, _, List.mem_cons_self, rfl⟩
      simp [Machine.run, step, hphase]
    | retrying since =>
      rw [State.nextStart, hphase] at hnext
      cases hnext
      exact resume_run (Or.inl ⟨hphase, rfl⟩)
    | restarting since =>
      rw [State.nextStart, hphase] at hnext
      cases hnext
      exact resume_run (Or.inr ⟨hphase, rfl⟩)
    | running =>
      rw [State.nextStart, hphase] at hnext
      cases hnext
      have hattended : Attended s :=
        Machine.run_invariant step (fun s a t hs h => attended_moves hs (step_moves h))
          (fun hphase => by cases hphase) hrun
      obtain ⟨x, xs, hprocesses⟩ := List.exists_cons_of_ne_nil (hattended hphase)
      obtain ⟨bs, v, hended, hnow, hstarts, hrestarting⟩ := ended_run hphase hprocesses
      obtain ⟨cs, u, hresumed, hstarted⟩ := resume_run (Or.inr ⟨hrestarting, rfl⟩)
      refine ⟨bs ++ cs, u, (Machine.run_append step).mpr ⟨v, hended, hresumed⟩, ?_⟩
      rw [hnow] at hstarted
      exact ⟨hstarts ▸ hstarted.starts, hstarted.phase, hstarted.alive⟩
    | stopping since | returned =>
      rw [State.nextStart, hphase] at hnext
      cases hnext

theorem agent_started_again_running : ∃ bs u,
    Machine.run step ((State.initial 0).start true) bs = some u ∧
      StartedAt ((State.initial 0).start true) u (5 * second) := by
  have hrun : Machine.run step (.initial 0) [.start true] = some ((State.initial 0).start true) :=
    rfl
  have hmax : max 0 (0 + 5 * second) = 5 * second := by decide
  obtain ⟨bs, u, hrest, hstarted⟩ := (agent_started_again hrun rfl).2
  exact ⟨bs, u, hrest, hmax ▸ hstarted⟩

end Patchli.Watchdog
