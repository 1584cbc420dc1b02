import Patchli.Fleet.Registry
import Patchli.Foundation.Machine

/-!
# The worker pool

`WorkerPool` of `workers.go` after `Start`, as a machine. Workers, the goroutines
of delayed jobs, the callers of the pool and the connection handlers take turns;
a step is one operation on a channel, on a mutex, on the clock or on the registry.
The records of accepted, finished and sent jobs are not in the code: they only
give names to what happened.
-/

namespace Patchli

structure MaintenanceWindow where
  startTime : Time
  endTime : Time
  deriving DecidableEq

structure Job where
  id : GoString
  nodeMac : GoString
  groupID : ℤ
  action : GoString
  packages : Option (List GoString)
  prePatchScript : GoString
  postPatchScript : GoString
  healthCheckCommand : GoString
  maintenanceWindow : Option MaintenanceWindow
  deriving DecidableEq

end Patchli

namespace Patchli.Orchestration

open Fleet

/-- A job accepted by `Submit`, numbered in the order of acceptance. -/
structure Accepted where
  ticket : ℕ
  job : Job
  deriving DecidableEq

inductive Outcome
  | sent
  | sendFailed
  | nodeConflict
  | windowEnded
  | windowTooShort
  | resubmitFailed
  | cancelled
  deriving DecidableEq

/-- Outcomes of a call of `SendCommand`. -/
def Outcome.dispatched : Outcome → Bool
  | .sent | .sendFailed => true
  | _ => false

/-- The operation that `processJob` performs next. -/
inductive Point
  | acquireJob
  | checkPause
  /-- Inside `pauseCond.Wait`. -/
  | wait
  | checkWindow
  | lookupSemaphore
  | enterSemaphore
  | sendCommand
  | leaveSemaphore
  | releaseJob
  deriving DecidableEq

inductive Phase
  | select
  | processJob (p : Point) (a : Accepted)
  | exited
  deriving DecidableEq

structure Worker where
  /-- In the loop entered once `stopChan` was seen closed. -/
  draining : Bool
  phase : Phase
  deriving DecidableEq

inductive DelayPhase
  | starting
  | sleeping (wake : Time)
  /-- Inside `Submit`, called at `since`. -/
  | submitting (since : Time)

/-- The goroutine of a delayed job. -/
structure Delay where
  item : Accepted
  phase : DelayPhase

inductive StopPhase
  | running
  /-- `Stop` has resumed the groups and not yet closed `stopChan`. -/
  | resumed
  | closed
  deriving DecidableEq

structure WorkerPool where
  now : Time
  jobQueue : List Accepted
  /-- The number of elements in each group's channel. -/
  groupSemaphores : ℤ → Option ℕ
  pausedGroups : ℤ → Bool
  stop : StopPhase
  delays : List Delay
  registry : AgentManager
  accepted : List Accepted
  finished : List (Accepted × Outcome)
  sends : List Accepted

/-- `NewWorkerPool`, with an empty registry. -/
def WorkerPool.new (now : Time) : WorkerPool :=
  ⟨now, [], fun _ => none, fun _ => false, .running, [], .empty, [], [], []⟩

def queueCapacity : ℕ := 100

def semaphoreCapacity : ℕ := 2

namespace WorkerPool

def finish (s : WorkerPool) (a : Accepted) (o : Outcome) : WorkerPool :=
  { s with finished := s.finished ++ [(a, o)] }

def setSemaphore (s : WorkerPool) (g : ℤ) (k : ℕ) : WorkerPool :=
  { s with groupSemaphores := Function.update s.groupSemaphores g (some k) }

/-- The command that `processJob` sends for a job. -/
def command (job : Job) : CommandPayload where
  id := job.id
  action := job.action
  packages := job.packages
  prePatchScript := job.prePatchScript
  postPatchScript := job.postPatchScript
  healthCheckCommand := job.healthCheckCommand
  nodeID := []
  expiresAt := 0
  signature := []

/-- One operation of `processJob`; `none` when it blocks. -/
def processJob (s : WorkerPool) (io : AgentManager.SendIO) (a : Accepted) :
    Point → Option (Phase × WorkerPool)
  | .acquireJob =>
    match s.registry.acquireJob a.job.nodeMac a.job.id with
    | none => some (.select, s.finish a .nodeConflict)
    | some registry => some (.processJob .checkPause a, { s with registry := registry })
  | .checkPause =>
    if s.pausedGroups a.job.groupID then some (.processJob .wait a, s)
    else some (.processJob .checkWindow a, s)
  | .wait => none
  | .checkWindow =>
    match a.job.maintenanceWindow with
    | none => some (.processJob .lookupSemaphore a, s)
    | some w =>
      if w.endTime < s.now then some (.processJob .releaseJob a, s.finish a .windowEnded)
      else if Time.sub w.endTime s.now < 15 * minute then
        some (.processJob .releaseJob a, s.finish a .windowTooShort)
      else if s.now < w.startTime then
        some (.processJob .releaseJob a, { s with delays := s.delays ++ [⟨a, .starting⟩] })
      else some (.processJob .lookupSemaphore a, s)
  | .lookupSemaphore =>
    match s.groupSemaphores a.job.groupID with
    | some _ => some (.processJob .enterSemaphore a, s)
    | none => some (.processJob .enterSemaphore a, s.setSemaphore a.job.groupID 0)
  | .enterSemaphore =>
    match s.groupSemaphores a.job.groupID with
    | none => none
    | some k =>
      if k < semaphoreCapacity then
        some (.processJob .sendCommand a, s.setSemaphore a.job.groupID (k + 1))
      else none
  | .sendCommand =>
    let s' := { s with sends := s.sends ++ [a] }
    match s.registry.sendCommand io a.job.nodeMac (command a.job) with
    | .error _ => some (.processJob .leaveSemaphore a, s'.finish a .sendFailed)
    | .ok _ => some (.processJob .leaveSemaphore a, s'.finish a .sent)
  | .leaveSemaphore =>
    match s.groupSemaphores a.job.groupID with
    | some (k + 1) => some (.processJob .releaseJob a, s.setSemaphore a.job.groupID k)
    | _ => none
  | .releaseJob =>
    some (.select, { s with registry := s.registry.releaseJob a.job.nodeMac })

inductive DelayStep
  | start
  | fire
  | cancel
  | submit
  | timeout

/-- One operation of the `k`-th delay goroutine. -/
def delay (s : WorkerPool) (k : ℕ) (d : DelayStep) : Option WorkerPool :=
  match s.delays[k]?, d with
  | some ⟨a, .starting⟩, .start =>
    a.job.maintenanceWindow.map fun w =>
      let wake := s.now + max (Time.sub w.startTime s.now) (10 * second)
      { s with delays := s.delays.set k ⟨a, .sleeping wake⟩ }
  | some ⟨a, .sleeping wake⟩, .fire =>
    if wake ≤ s.now then some { s with delays := s.delays.set k ⟨a, .submitting s.now⟩ } else none
  | some ⟨a, .sleeping _⟩, .cancel =>
    if s.stop = .closed then some ({ s with delays := s.delays.eraseIdx k }.finish a .cancelled)
    else none
  | some ⟨a, .submitting _⟩, .submit =>
    if s.jobQueue.length < queueCapacity then
      some { s with delays := s.delays.eraseIdx k, jobQueue := s.jobQueue ++ [a] }
    else none
  | some ⟨a, .submitting since⟩, .timeout =>
    if since + 30 * second ≤ s.now then
      some ({ s with delays := s.delays.eraseIdx k }.finish a .resubmitFailed)
    else none
  | _, _ => none

/-- Operations of the other goroutines, and the passing of time. -/
inductive Event
  | advance (now : Time)
  /-- A `Submit` that returns nil. -/
  | submit (job : Job)
  | pauseGroup (groupID : ℤ)
  | resumeGroup (groupID : ℤ)
  /-- `Stop` up to its unlock. -/
  | stopResume
  /-- The rest of `Stop`. -/
  | stopClose
  | delay (k : ℕ) (d : DelayStep)
  | registry (c : Fleet.Call)

def event (s : WorkerPool) : Event → Option WorkerPool
  | .advance now => if s.now ≤ now then some { s with now := now } else none
  | .submit job =>
    if s.jobQueue.length < queueCapacity then
      let a : Accepted := ⟨s.accepted.length, job⟩
      some { s with jobQueue := s.jobQueue ++ [a], accepted := s.accepted ++ [a] }
    else none
  | .pauseGroup g => some { s with pausedGroups := Function.update s.pausedGroups g true }
  | .resumeGroup g => some { s with pausedGroups := Function.update s.pausedGroups g false }
  | .stopResume =>
    if s.stop = .running then some { s with pausedGroups := fun _ => false, stop := .resumed }
    else none
  | .stopClose => if s.stop = .resumed then some { s with stop := .closed } else none
  | .delay k d => s.delay k d
  | .registry c => some { s with registry := s.registry.call s.now c }

/-- The event wakes the workers in `pauseCond.Wait`. -/
def Event.broadcasts : Event → Bool
  | .resumeGroup _ | .stopResume => true
  | _ => false

end WorkerPool

open WorkerPool

/-- What a woken worker does next: it tests the flag again. -/
def Worker.wake (w : Worker) : Worker :=
  match w.phase with
  | .processJob .wait a => { w with phase := .processJob .checkPause a }
  | _ => w

inductive WorkerAct
  | observeStop
  | receive
  | exit
  | process (io : AgentManager.SendIO)

/-- One operation of a worker; `none` when it cannot make it. -/
def Worker.act (w : Worker) (s : WorkerPool) (x : WorkerAct) : Option (Worker × WorkerPool) :=
  match w.phase, x with
  | .select, .observeStop =>
    if w.draining = false ∧ s.stop = .closed then some ({ w with draining := true }, s) else none
  | .select, .receive =>
    match s.jobQueue with
    | [] => none
    | a :: q => some ({ w with phase := .processJob .acquireJob a }, { s with jobQueue := q })
  | .select, .exit =>
    if w.draining = true ∧ s.jobQueue = [] then some ({ w with phase := .exited }, s) else none
  | .processJob p a, .process io =>
    (s.processJob io a p).map fun r => ({ w with phase := r.1 }, r.2)
  | _, _ => none

structure State (n : ℕ) where
  pool : WorkerPool
  workers : Fin n → Worker

/-- The pool after `Start`. -/
def State.initial (n : ℕ) (now : Time) : State n := ⟨.new now, fun _ => ⟨false, .select⟩⟩

inductive Action (n : ℕ)
  | event (e : Event)
  | worker (i : Fin n) (x : WorkerAct)

variable {n : ℕ}

def step (s : State n) : Action n → Option (State n)
  | .event e => (s.pool.event e).map fun pool =>
    ⟨pool, if e.broadcasts then fun i => (s.workers i).wake else s.workers⟩
  | .worker i x => ((s.workers i).act s.pool x).map fun r =>
    ⟨r.2, Function.update s.workers i r.1⟩

/-- `SendCommand` with signing switched off and a connection that takes the message. -/
def unsignedIO : AgentManager.SendIO := ⟨fun cmd _ => some cmd, true⟩

/-- The next operation of worker `i`, when it is in `processJob`. -/
def next (i : Fin n) : Action n := .worker i (.process unsignedIO)

/-! The runs on fixed inputs have one or two workers, written `0` and `1`. -/

instance neZero_one : NeZero 1 := ⟨one_ne_zero⟩

instance neZero_two : NeZero 2 := ⟨two_ne_zero⟩

def plainJob (id nodeMac : GoString) (groupID : ℤ) (window : Option MaintenanceWindow) : Job :=
  ⟨id, nodeMac, groupID, ascii "check_updates", none, [], [], [], window⟩

end Patchli.Orchestration
