import Patchli.Agent.Execute
import Patchli.Agent.Sources
import Patchli.Orchestration.Conservation
import Patchli.Orchestration.Dispatch

/-!
# From a job to a host

The pool of the server and the agent of one node in one machine. The server signs each
command that a worker sends. What the agent then receives is not tied to it: its session
and its polls may be answered by anyone, with commands lost, late, repeated or for other
nodes. Its clock is not the server's, and its process may end and start again at any time.
-/

namespace Patchli.Orchestration

open WorkerPool

structure Deployment (n : ℕ) where
  server : State n
  agent : Agent.Node
  /-- The jobs whose commands were signed, and when; a record. -/
  dispatches : List (Accepted × Time)

/-- An operation of a worker; with it, whether the connection takes a command. -/
inductive WorkerStep
  | observeStop
  | receive
  | exit
  | process (written : Bool)

/-- The call of `cmdsign.Sign` for a job. -/
def signCall (d : Accepted × Time) : Agent.SignCall := ⟨command d.1.job, d.1.job.nodeMac, d.2⟩

/-- The jobs of which an operation sends the command. -/
def newSends (s t : WorkerPool) : List Accepted := t.sends.drop s.sends.length

namespace Deployment

variable {n : ℕ}

def initial (n : ℕ) (now agentNow : Time) : Deployment n := ⟨.initial n now, .init agentNow, []⟩

inductive Action (n : ℕ)
  | server (e : Event)
  | worker (i : Fin n) (x : WorkerStep)
  | agent (a : Agent.NodeInput)

section

variable (E : Ed25519) (L : Agent.NetURL) (cfg : Agent.Config) (key : GoString)

def act (now : Time) : WorkerStep → WorkerAct
  | .observeStop => .observeStop
  | .receive => .receive
  | .exit => .exit
  | .process written =>
    .process ⟨fun cmd nodeID => some (Cmdsign.sign E (some key) now cmd nodeID), written⟩

/-- The server's calls of `cmdsign.Sign`, of which the agent knows nothing. -/
def record (agent : Agent.Node) (calls : List Agent.SignCall) : Agent.Node :=
  { agent with process := { agent.process with signCalls := agent.process.signCalls ++ calls } }

/-- Only workers call `cmdsign.Sign`. -/
def step (s : Deployment n) : Action n → Option (Deployment n)
  | .server e => (Orchestration.step s.server (.event e)).map fun t => { s with server := t }
  | .worker i x =>
    let now := s.server.pool.now
    (Orchestration.step s.server (.worker i (act E key now x))).map fun t =>
      let sent := (newSends s.server.pool t.pool).map fun a => (a, now)
      { server := t
        agent := record s.agent (sent.map signCall)
        dispatches := s.dispatches ++ sent }
  | .agent (.agent (.sign _)) => none
  | .agent a => (Agent.nodeStep E L cfg s.agent a).map fun t => { s with agent := t }

/-- No signature is forged. -/
def Genuine (s : Deployment n) : Action n → Prop
  | .agent a => Agent.Genuine E cfg key s.agent a
  | _ => True

/-- The agent's clock does not go back, a message that verifies comes with the signature that
the server made, and what an earlier process executed arrives only after it expired. -/
def Orderly (s : Deployment n) : Action n → Prop
  | .agent a => Agent.ClockForward s.agent a ∧ Agent.SignedOnce E cfg key s.agent a ∧
      Agent.ReplayedExpired s.agent a
  | _ => True

/-- The records agree with the calls of `cmdsign.Sign`, and each execution is due to one. -/
structure Inv (s : Deployment n) : Prop where
  conserved : Conserved s.server
  cleared : Cleared (fun t w => w.startTime ≤ t) s.server
  sends : s.dispatches.map Prod.fst = s.server.pool.sends
  calls : s.agent.process.signCalls = s.dispatches.map signCall
  opened : ∀ d ∈ s.dispatches, ∀ w, d.1.job.maintenanceWindow = some w → w.startTime ≤ d.2
  sourced : Agent.Sourced E cfg key s.agent

end

variable {E : Ed25519} {L : Agent.NetURL} {cfg : Agent.Config} {key : GoString} {s t : Deployment n}

/-! ### One step -/

theorem occurs_sends {s t : WorkerPool} {e : Event} (h : Occurs s e t) : t.sends = s.sends := by
  cases h <;> rfl

theorem event_sends {s t : State n} {e : Event} (h : Orchestration.step s (.event e) = some t) :
    t.pool.sends = s.pool.sends := by
  cases step_steps h with
  | event hoccurs => exact occurs_sends hoccurs
  | broadcast hoccurs => exact occurs_sends hoccurs

theorem moves_newSends {s t : WorkerPool} {w w' : Worker} (h : Moves s w w' t) :
    t.sends = s.sends ++ newSends s t ∧ ∀ a ∈ newSends s t, w.cleared = some a := by
  have hsame (hsends : t.sends = s.sends) :
      t.sends = s.sends ++ newSends s t ∧ ∀ a ∈ newSends s t, w.cleared = some a := by
    simp [newSends, hsends]
  cases h with
  | @sent d a o ho =>
    have hsends : newSends s ({ s with sends := s.sends ++ [a] }.finish a o) = [a] := by
      simp [newSends, finish]
    rw [hsends]
    exact ⟨rfl, by simp [Worker.cleared]⟩
  | _ => exact hsame rfl

theorem worker_newSends {s t : State n} {i : Fin n} {x : WorkerAct}
    (h : Orchestration.step s (.worker i x) = some t) :
    t.pool.sends = s.pool.sends ++ newSends s.pool t.pool ∧
      ∀ a ∈ newSends s.pool t.pool, (s.workers i).cleared = some a := by
  cases step_steps h with
  | worker hmoves => exact moves_newSends hmoves

theorem opened_step {s t : State n} {x : Orchestration.Action n}
    (hs : Cleared (fun t w => w.startTime ≤ t) s) (hstep : Orchestration.step s x = some t) :
    Cleared (fun t w => w.startTime ≤ t) t := by
  refine cleared_step (step_steps hstep) (fun w hw _ => hw) ?_ hs
  intro now _ hle i a w _ _ hw
  exact hw.trans hle

theorem agent_step {a : Agent.NodeInput} (h : step E L cfg key s (.agent a) = some t) :
    (∀ call, a ≠ .agent (.sign call)) ∧
      ∃ u, Agent.nodeStep E L cfg s.agent a = some u ∧ t = { s with agent := u } := by
  unfold step at h
  split at h
  · rename_i heq
    cases heq
  · rename_i heq
    cases heq
  · cases h
  · rename_i a' hsign heq
    obtain rfl : a = a' := Action.agent.inj heq
    obtain ⟨u, hu, rfl⟩ := Option.map_eq_some_iff.mp h
    exact ⟨hsign, u, hu, rfl⟩

theorem inv_initial (now agentNow : Time) : Inv E cfg key (initial n now agentNow) where
  conserved := run_conserved (Machine.run_nil _ _)
  cleared := by
    intro i a w hi
    cases hi
  sends := rfl
  calls := rfl
  opened := nofun
  sourced := Agent.sourced_init agentNow

theorem inv_step (hkey : cfg.commandPubKey ≠ []) {x : Action n} (h : Inv E cfg key s)
    (hgenuine : Genuine E cfg key s x) (hstep : step E L cfg key s x = some t) :
    Inv E cfg key t := by
  cases x with
  | server e =>
    obtain ⟨u, hu, rfl⟩ := Option.map_eq_some_iff.mp hstep
    refine ⟨conserved_step (step_steps hu) h.conserved, opened_step h.cleared hu, ?_, h.calls,
      h.opened, h.sourced⟩
    rw [event_sends hu]
    exact h.sends
  | worker i x =>
    obtain ⟨u, hu, rfl⟩ := Option.map_eq_some_iff.mp hstep
    obtain ⟨hsends, hcleared⟩ := worker_newSends hu
    refine ⟨conserved_step (step_steps hu) h.conserved, opened_step h.cleared hu, ?_, ?_, ?_, ?_⟩
    · rw [hsends, ← h.sends]
      simp [Function.comp_def]
    · simp [record, h.calls]
    · intro d hd w hw
      rcases List.mem_append.mp hd with hd | hd
      · exact h.opened d hd w hw
      · obtain ⟨a, ha, rfl⟩ := List.mem_map.mp hd
        exact h.cleared i a w (hcleared a ha) hw
    · exact h.sourced.mono rfl (List.subset_append_left _ _)
  | agent a =>
    obtain ⟨ha, u, hu, rfl⟩ := agent_step hstep
    exact ⟨h.conserved, h.cleared, h.sends, (Agent.nodeStep_signCalls ha hu).trans h.calls,
      h.opened, Agent.sourced_step hkey h.sourced hgenuine hu⟩

/-- The server's part of the machine does not touch what the agent remembers. -/
theorem executedOnce_step (hkey : cfg.commandPubKey ≠ []) {x : Action n}
    (hs : Agent.ExecutedOnce E key s.agent) (horderly : Orderly E cfg key s x)
    (hstep : step E L cfg key s x = some t) : Agent.ExecutedOnce E key t.agent := by
  cases x with
  | server e =>
    obtain ⟨u, -, rfl⟩ := Option.map_eq_some_iff.mp hstep
    exact hs
  | worker i x =>
    obtain ⟨u, -, rfl⟩ := Option.map_eq_some_iff.mp hstep
    exact hs.later rfl rfl (Or.inl rfl) le_rfl
  | agent a =>
    obtain ⟨-, u, hu, rfl⟩ := agent_step hstep
    exact Agent.executedOnce_step hkey hs horderly.1 horderly.2.1 horderly.2.2 hu

/-! ### Runs -/

private def updateMessage : GoString := Cmdsign.message (Command.signedUpdate (ascii "j1"))

private def marking : Ed25519 := Command.markingEd25519 updateMessage

/-- The server has signed the command, and the process runs for the first time. -/
private def Signed (s : Deployment 1) : Prop :=
  s.agent.process.signCalls.map (fun call => Cmdsign.message (call.signed marking [])) =
    [updateMessage] ∧ s.agent.past = []

end Deployment

end Patchli.Orchestration
