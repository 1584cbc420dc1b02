import Patchli.Agent.Restarts

/-!
# Where executed commands come from

Over all the lives of a node's process, the message of every command that was executed is
one that the server signed.
-/

namespace Patchli.Agent

open Cmdsign

section

variable (E : Ed25519) (cfg : Config) (key : GoString)

/-- No message with a forged signature verifies. -/
def Genuine (s : Node) : NodeInput → Prop
  | .agent a => Unforged E cfg key s.process a
  | .restart => True

/-- The server signed the command that was executed. -/
structure SignCall.Caused (call : SignCall) (x : Execution) : Prop where
  message : message (call.signed E key) = commandMessage x.cmd
  issued : call.Issued E cfg key x

def Sourced (s : Node) : Prop :=
  ∀ x ∈ s.executed, ∃ call ∈ s.process.signCalls, call.Caused E cfg key x

end

variable {E : Ed25519} {L : NetURL} {cfg : Config} {key : GoString}

/-! ### The calls -/

theorem step_signCalls {s t : State} {a : Input} (h : step E L cfg s a = some t) :
    t.signCalls = s.signCalls ∨ ∃ call, a = .sign call ∧ t.signCalls = s.signCalls ++ [call] := by
  cases step_moves h with
  | sign => exact Or.inr ⟨_, rfl, rfl⟩
  | receives | polled => exact Or.inl (verifyAndExecute_frame ..).2.2
  | _ => exact Or.inl rfl

theorem nodeStep_signCalls {s t : Node} {a : NodeInput} (ha : ∀ call, a ≠ .agent (.sign call))
    (h : nodeStep E L cfg s a = some t) : t.process.signCalls = s.process.signCalls := by
  cases a with
  | restart =>
    cases h
    rfl
  | agent a =>
    obtain ⟨u, hu, rfl⟩ := Option.map_eq_some_iff.mp h
    rcases step_signCalls hu with hcalls | ⟨call, rfl, -⟩
    · exact hcalls
    · exact absurd rfl (ha call)

/-! ### The executions -/

theorem Sourced.mono {s t : Node} (hs : Sourced E cfg key s) (hexecuted : t.executed = s.executed)
    (hcalls : s.process.signCalls ⊆ t.process.signCalls) : Sourced E cfg key t := by
  intro x hx
  rw [hexecuted] at hx
  obtain ⟨call, hcall, h⟩ := hs x hx
  exact ⟨call, hcalls hcall, h⟩

theorem Sourced.verifyAndExecute {s : Node} {a : Input} {cmd : CommandPayload}
    {tokens : Option TokenPair} {url : URL} (hs : Sourced E cfg key s)
    (hkey : cfg.commandPubKey ≠ []) (ha : a.command = some cmd)
    (hgenuine : Genuine E cfg key s (.agent a)) :
    Sourced E cfg key { s with process := Agent.verifyAndExecute E cfg s.process tokens url cmd } := by
  unfold Agent.verifyAndExecute
  cases herr : (verifyCommand E cfg.commandPubKey s.process.seen cmd cfg.nodeID
      s.process.now).1 with
  | some err =>
    simp only [herr]
    exact hs.mono rfl (List.Subset.refl _)
  | none =>
    obtain ⟨pub, sig, hpub, h⟩ := (verifyCommand_accepts_iff hkey).mp herr
    obtain ⟨call, hcall, hmessage⟩ := hgenuine cmd pub sig ha hpub h.signature h.verified
    simp only [herr]
    intro x hx
    simp only [Node.executed, ← List.append_assoc] at hx
    rcases List.mem_append.mp hx with hx | hx
    · exact hs x hx
    · rw [List.mem_singleton.mp hx]
      exact ⟨call, hcall, hmessage,
        issued_of_message_eq (wellEncoded_command ha) hmessage h.addressed h.unexpired⟩

theorem sourced_init (now : Time) : Sourced E cfg key (.init now) := nofun

theorem sourced_step {s t : Node} {a : NodeInput} (hkey : cfg.commandPubKey ≠ [])
    (hs : Sourced E cfg key s) (hgenuine : Genuine E cfg key s a)
    (hstep : nodeStep E L cfg s a = some t) : Sourced E cfg key t := by
  cases a with
  | restart =>
    cases hstep
    refine hs.mono ?_ (List.Subset.refl _)
    simp [Node.executed, Node.restart, State.init]
  | agent a =>
    obtain ⟨u, hu, rfl⟩ := Option.map_eq_some_iff.mp hstep
    rcases step_effect hu with ⟨hexecuted, -⟩ | ⟨cmd, tokens, url, ha, rfl⟩
    · refine hs.mono (congrArg (s.past ++ ·) hexecuted) ?_
      rcases step_signCalls hu with hcalls | ⟨call, -, hcalls⟩
      · simp [hcalls]
      · simp [hcalls]
    · exact hs.verifyAndExecute hkey ha hgenuine

end Patchli.Agent
