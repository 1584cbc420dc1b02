import Patchli.Agent.Authenticity
import Patchli.Agent.PatchJobs
import Patchli.Updater.Managers

/-!
# Executing a command

`executeCommand` of the agent's `main.go`, for every package manager and every host. A patch
is a plan: its scripts and the update in their order, up to the first that fails. No other
action runs anything that the command brought along.
-/

namespace Patchli.Agent

open Updater

/-- What the agent reaches besides the package manager. -/
inductive EffectRequest
  /-- `shellCommandContext(ctx, script).CombinedOutput()` -/
  | shell (script : GoString)
  | saveState (s : JobState)
  | clearState
  | selfDestruct
  | updateAgent
  deriving DecidableEq

def Effects (ε : Type) : Interface where
  Request := EffectRequest
  Answer
    | .shell _ => GoString × Option ε
    | .saveState _ => Option ε
    | .clearState => Option ε
    | .selfDestruct => Option ε
    | .updateAgent => UpdateResult ε

abbrev AgentHost (ε : Type) : Interface := (System ε).sum (Effects ε)

/-- How `executeCommand` ends. -/
inductive Report (ε : Type)
  /-- It returns early, or the action is unknown. -/
  | returned
  /-- `os.Exit(1)` -/
  | exited
  /-- The last line of the log. -/
  | finished (success : Bool) (err : Option ε)

variable {ε : Type}

abbrev AgentProc (ε α : Type) := Proc (AgentHost ε) α

def ofManager {α : Type} (p : Proc (System ε) α) : AgentProc ε α := p.inl

def effect (q : EffectRequest) : AgentProc ε ((Effects ε).Answer q) :=
  .ask (.inr q : SystemRequest ⊕ EffectRequest) .ret

section

variable (m : Manager) (cmd : CommandPayload)

/-- The result of `cleanup` and `self_destruct`. -/
def ofError (err : Option ε) : UpdateResult ε × Option ε := (⟨err.isNone, [], err⟩, err)

def act : AgentProc ε (Except (Report ε) (UpdateResult ε × Option ε)) :=
  if cmd.action = ascii "check_updates" then do
    let res ← ofManager m.checkUpdates
    pure (.ok res)
  else if cmd.action = ascii "apply_updates" then do
    let res ← ofManager (m.applyUpdates (cmd.packages.getD []))
    pure (.ok res)
  else if cmd.action = ascii "cleanup" then do
    let err ← ofManager m.runCleanup
    pure (.ok (ofError err))
  else if cmd.action = ascii "self_destruct" then do
    let err ← effect .selfDestruct
    pure (.ok (ofError err))
  else if cmd.action = ascii "update_agent" then do
    let res ← effect .updateAgent
    pure (.ok (res, none))
  else if cmd.action = ascii "chaos_restart" then pure (.error .exited)
  else pure (.error .returned)

abbrev HostRequest := SystemRequest ⊕ EffectRequest

end

def requests (es : List (AgentHost ε).Event) : List HostRequest := es.map Interface.Event.request

def Report.success : Report ε → Bool
  | .finished success _ => success
  | _ => false

variable {m : Manager} {cmd : CommandPayload} {es : List (AgentHost ε).Event}

end Patchli.Agent
