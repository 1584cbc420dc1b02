import Patchli.Agent.Authenticity
import Patchli.Agent.Replay
import Patchli.Foundation.Lists

/-!
# Replays across restarts

The cache of signatures is in the memory of the agent's process. One process executes a
signed command once; a process that starts later knows nothing of it.
-/

namespace Patchli.Agent

open Cmdsign

/-- A node over the lives of its agent process. -/
structure Node where
  process : State
  /-- What earlier processes executed. -/
  past : List Execution

inductive NodeInput
  | agent (a : Input)
  /-- The process ends, whatever it is doing, and starts again. -/
  | restart

namespace Node

def init (now : Time) : Node := ⟨State.init now, []⟩

def restart (s : Node) : Node where
  process := { State.init s.process.now with signCalls := s.process.signCalls }
  past := s.past ++ s.process.executed

def executed (s : Node) : List Execution := s.past ++ s.process.executed

end Node

section

variable (E : Ed25519) (L : NetURL) (cfg : Config)

def nodeStep (s : Node) : NodeInput → Option Node
  | .agent a => (step E L cfg s.process a).map fun t => { s with process := t }
  | .restart => some s.restart

def ClockForward (s : Node) : NodeInput → Prop
  | .agent (.clock t) => s.process.now ≤ t
  | _ => True

/-- If a message that arrives verifies under the agent's key, then with the signature
that `Sign` gives it. -/
def SignedOnce (key : GoString) (_ : Node) : NodeInput → Prop
  | .agent a => ∀ cmd pub sig, a.command = some cmd →
      decodeSized false Ed25519.publicKeySize cfg.commandPubKey = some pub →
      decodeSized true Ed25519.signatureSize cmd.signature = some sig →
      E.verify pub (commandMessage cmd) sig = true → sig = E.sign key (commandMessage cmd)
  | .restart => True

end

/-- A command that an earlier process executed arrives again only after it expired. -/
def ReplayedExpired (s : Node) : NodeInput → Prop
  | .agent a => ∀ cmd ∈ a.command, ∀ x ∈ s.past, commandMessage x.cmd = commandMessage cmd →
      Time.ofUnix cmd.expiresAt ≤ s.process.now
  | .restart => True

instance (s : Node) : ∀ a, Decidable (ClockForward s a)
  | .agent (.clock t) => inferInstanceAs (Decidable (s.process.now ≤ t))
  | .agent (.sign _) | .agent (.boot _) | .agent (.dial _) | .agent (.message _)
  | .agent (.poll _ _) | .agent .elapsed | .agent .cancelled | .restart => isTrue trivial

instance (s : Node) : ∀ a, Decidable (ReplayedExpired s a)
  | .agent a => inferInstanceAs (Decidable (∀ cmd ∈ a.command, ∀ x ∈ s.past, _ → _))
  | .restart => isTrue trivial

variable {E : Ed25519} {L : NetURL} {cfg : Config} {key : GoString}

/-- A step verifies one command, or leaves the cache and the executions alone. -/
theorem step_effect {s t : State} {a : Input} (h : step E L cfg s a = some t) :
    (t.executed = s.executed ∧ t.seen = s.seen ∧ (t.now = s.now ∨ a = .clock t.now)) ∨
      ∃ cmd tokens url, a.command = some cmd ∧ t = verifyAndExecute E cfg s tokens url cmd := by
  cases step_moves h with
  | clock => exact Or.inl ⟨rfl, rfl, Or.inr rfl⟩
  | receives hphase hreceive =>
    exact Or.inr ⟨_, _, _, Option.join_eq_some_iff.mpr hreceive, rfl⟩
  | polled hphase hu hcmd => exact Or.inr ⟨_, _, _, hcmd, rfl⟩
  | _ => exact Or.inl ⟨rfl, rfl, Or.inl rfl⟩

/-- The process remembers what it executed until it expires, and no message was
executed twice. -/
structure ExecutedOnce (E : Ed25519) (key : GoString) (s : Node) : Prop where
  remembered : ∀ x ∈ s.process.executed, s.process.now < Time.ofUnix x.cmd.expiresAt →
    s.process.seen (E.sign key (commandMessage x.cmd)) = some (Time.ofUnix x.cmd.expiresAt)
  nodup : (s.executed.map fun x => commandMessage x.cmd).Nodup

theorem pruneSeen_of_unexpired {seen : SeenCommands} {sig : GoString} {exp now : Time}
    (h : seen sig = some exp) (hexp : now < exp) : pruneSeen seen now sig = some exp := by
  simp [pruneSeen, h, hexp]

theorem ExecutedOnce.later {s t : Node} (hs : ExecutedOnce E key s) (hpast : t.past = s.past)
    (hexecuted : t.process.executed = s.process.executed)
    (hseen : t.process.seen = s.process.seen ∨
      t.process.seen = pruneSeen s.process.seen s.process.now)
    (hnow : s.process.now ≤ t.process.now) : ExecutedOnce E key t where
  remembered x hx hexp := by
    rw [hexecuted] at hx
    have hexp' := hnow.trans_lt hexp
    have hentry := hs.remembered x hx hexp'
    rcases hseen with hseen | hseen
    · rw [hseen, hentry]
    · rw [hseen, pruneSeen_of_unexpired hentry hexp']
  nodup := by
    rw [Node.executed, hpast, hexecuted]
    exact hs.nodup

theorem ExecutedOnce.verifyAndExecute {s : Node} {a : Input} {cmd : CommandPayload}
    {tokens : Option TokenPair} {url : URL} (hs : ExecutedOnce E key s)
    (hkey : cfg.commandPubKey ≠ []) (ha : a.command = some cmd)
    (hsigned : SignedOnce E cfg key s (.agent a)) (hreplayed : ReplayedExpired s (.agent a)) :
    ExecutedOnce E key
      { s with process := Agent.verifyAndExecute E cfg s.process tokens url cmd } := by
  unfold Agent.verifyAndExecute
  cases herr : (verifyCommand E cfg.commandPubKey s.process.seen cmd cfg.nodeID
      s.process.now).1 with
  | some err =>
    simp only [herr]
    exact hs.later rfl rfl (verifyCommand_seen (by simp [herr])) le_rfl
  | none =>
    obtain ⟨pub, sig, hpub, haccepts⟩ := (verifyCommand_accepts_iff hkey).mp herr
    obtain rfl := hsigned cmd pub sig ha hpub haccepts.signature haccepts.verified
    simp only [verifyCommand_of_accepts hpub haccepts]
    have hfresh := haccepts.fresh
    -- an unexpired entry would make the command a replay
    have hnew : ∀ x ∈ s.process.executed, s.process.now < Time.ofUnix x.cmd.expiresAt →
        E.sign key (commandMessage x.cmd) ≠ E.sign key (commandMessage cmd) := by
      intro x hx hexp heq
      have hentry := pruneSeen_of_unexpired (hs.remembered x hx hexp) hexp
      rw [heq, hfresh] at hentry
      cases hentry
    have hmessage : ∀ x ∈ s.executed, commandMessage x.cmd ≠ commandMessage cmd := by
      intro x hx heq
      have hexpires := expiresAt_eq_of_message_eq heq
      rcases List.mem_append.mp hx with hx | hx
      · exact absurd haccepts.unexpired (not_lt.mpr (hreplayed cmd ha x hx heq))
      · exact hnew x hx (hexpires ▸ haccepts.unexpired) (by rw [heq])
    constructor
    · intro x hx hexp
      dsimp only at hx hexp ⊢
      rcases List.mem_append.mp hx with hx | hx
      · rw [Function.update_of_ne (hnew x hx hexp)]
        exact pruneSeen_of_unexpired (hs.remembered x hx hexp) hexp
      · rw [List.mem_singleton.mp hx]
        exact Function.update_self ..
    · simp only [Node.executed, ← List.append_assoc, List.map_append, List.map_cons, List.map_nil]
      rw [← List.map_append]
      refine List.nodup_append.mpr ⟨hs.nodup, List.nodup_singleton _, ?_⟩
      intro m hm m' hm' heq
      obtain ⟨x, hx, rfl⟩ := List.mem_map.mp hm
      rw [List.mem_singleton.mp hm'] at heq
      exact hmessage x hx heq

theorem executedOnce_step {s t : Node} {a : NodeInput} (hkey : cfg.commandPubKey ≠ [])
    (hs : ExecutedOnce E key s)
    (hclock : ClockForward s a) (hsigned : SignedOnce E cfg key s a)
    (hreplayed : ReplayedExpired s a) (hstep : nodeStep E L cfg s a = some t) :
    ExecutedOnce E key t := by
  cases a with
  | restart =>
    cases hstep
    refine ⟨fun x hx => (List.not_mem_nil hx).elim, ?_⟩
    simpa [Node.executed, Node.restart, State.init] using hs.nodup
  | agent a =>
    obtain ⟨u, hu, rfl⟩ := Option.map_eq_some_iff.mp hstep
    rcases step_effect hu with ⟨hexecuted, hseen, hnow⟩ | ⟨cmd, tokens, url, ha, rfl⟩
    · refine hs.later rfl hexecuted (Or.inl hseen) ?_
      rcases hnow with hnow | rfl
      · exact le_of_eq hnow.symm
      · exact hclock
    · exact hs.verifyAndExecute hkey ha hsigned hreplayed

theorem executedOnce_init (now : Time) : ExecutedOnce E key (.init now) where
  remembered x hx := by cases hx
  nodup := List.nodup_nil

/-- With a key, in a run in which no command that an earlier process executed arrives
unexpired, each signed command is executed at most once. -/
theorem signed_command_executed_once {now : Time} {as : List NodeInput} {t : Node}
    (hkey : cfg.commandPubKey ≠ [])
    (hclock : Machine.Meets (nodeStep E L cfg) ClockForward (.init now) as)
    (hsigned : Machine.Meets (nodeStep E L cfg) (SignedOnce E cfg key) (.init now) as)
    (hreplayed : Machine.Meets (nodeStep E L cfg) ReplayedExpired (.init now) as)
    (hrun : Machine.run (nodeStep E L cfg) (.init now) as = some t) :
    ∀ call ∈ t.process.signCalls, (t.executed.filter fun x =>
      commandMessage x.cmd = message (call.signed E key)).length ≤ 1 := by
  have ht : ExecutedOnce E key t :=
    Machine.run_invariant_of_meets (nodeStep E L cfg)
      (fun _ _ _ hs hC hstep => executedOnce_step hkey hs hC.1 hC.2.1 hC.2.2 hstep)
      (executedOnce_init now) (hclock.and _ (hsigned.and _ hreplayed)) hrun
  intro call _
  exact Lists.length_filter_le_one ht.nodup _

/-! ### A command that ends the process -/

private def restartCall : SignCall :=
  ⟨⟨ascii "j1", ascii "chaos_restart", none, [], [], [], [], 0, []⟩, ascii "n1", 0⟩

/-- It tells the message of that command from all others. -/
private def restartEd25519 : Ed25519 :=
  Command.markingEd25519 (message { restartCall.cmd with nodeID := ascii "n1", expiresAt := 900 })

private def session : List NodeInput := [.agent (.boot (some ⟨[], []⟩)), .agent (.dial .connected),
  .agent (.message (some (Wire.writeJSON (Wire.envelope (restartCall.signed restartEd25519 [])))))]

/-- The process ends, and the command arrives again after it has expired. -/
private def replayedLate : List NodeInput :=
  .agent (.sign restartCall) :: session ++ .restart :: .agent (.clock (900 * second)) :: session

/-- The command arrives again as soon as the process has started again. -/
private def replayedAtOnce : List NodeInput :=
  .agent (.sign restartCall) :: session ++ .restart :: session

private theorem restartEd25519_signedOnce (as : List NodeInput) (s : Node) :
    Machine.Meets (nodeStep restartEd25519 plainNetURL signedConfig)
      (SignedOnce restartEd25519 signedConfig []) s as := by
  refine Machine.meets_of_forall _ fun a _ s => ?_
  cases a with
  | agent a => exact fun cmd pub sig _ _ _ hverify => of_decide_eq_true hverify
  | restart => trivial

theorem signed_command_executed_once_late : ∃ t,
    Machine.run (nodeStep restartEd25519 plainNetURL signedConfig) (.init 0) replayedLate =
      some t ∧ t.executed.length = 1 ∧
    ∀ call ∈ t.process.signCalls, (t.executed.filter fun x =>
      commandMessage x.cmd = message (call.signed restartEd25519 [])).length ≤ 1 := by
  have hruns : (Machine.run (nodeStep restartEd25519 plainNetURL signedConfig) (.init 0)
      replayedLate).any (fun t => t.executed.length = 1) = true := by
    decide +kernel
  simp only [Option.any_eq_true, decide_eq_true_eq] at hruns
  obtain ⟨t, hrun, hlength⟩ := hruns
  exact ⟨t, hrun, hlength, signed_command_executed_once (Base64.encode_ne_nil (by decide))
    (by decide +kernel) (restartEd25519_signedOnce _ _) (by decide +kernel) hrun⟩

theorem not_signed_command_executed_once :
    ¬ ∀ (E : Ed25519) (L : NetURL) (cfg : Config) (key : GoString) (now : Time)
      (as : List NodeInput) (t : Node), cfg.commandPubKey ≠ [] →
      Machine.Meets (nodeStep E L cfg) ClockForward (.init now) as →
      Machine.Meets (nodeStep E L cfg) (SignedOnce E cfg key) (.init now) as →
      Machine.run (nodeStep E L cfg) (.init now) as = some t →
      ∀ call ∈ t.process.signCalls, (t.executed.filter fun x =>
        commandMessage x.cmd = message (call.signed E key)).length ≤ 1 := by
  intro h
  have hruns : (Machine.run (nodeStep restartEd25519 plainNetURL signedConfig) (.init 0)
      replayedAtOnce).any (fun t => t.process.signCalls.any fun call =>
        (t.executed.filter fun x =>
          commandMessage x.cmd = message (call.signed restartEd25519 [])).length = 2) = true := by
    decide +kernel
  simp only [Option.any_eq_true, List.any_eq_true, decide_eq_true_eq] at hruns
  obtain ⟨t, hrun, call, hcall, htwice⟩ := hruns
  have honce := h restartEd25519 plainNetURL signedConfig [] 0 _ t
    (Base64.encode_ne_nil (by decide)) (by decide +kernel) (restartEd25519_signedOnce _ _) hrun call
    hcall
  omega

end Patchli.Agent
