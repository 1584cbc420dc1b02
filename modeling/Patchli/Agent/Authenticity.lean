import Patchli.Agent.Run
import Patchli.Command.Delivery

/-!
# Only authentic commands are executed

A session carries tokens whenever it executes a command. Without a key for commands
it also runs over TLS; with a key, the server has signed just this command for just
this node, provided that no message with a forged signature verifies.
-/

namespace Patchli.Agent

open Cmdsign

section

variable (E : Ed25519) (L : NetURL) (cfg : Config) (key : GoString)

/-- `call` asked for the signature of the command that was executed. -/
structure SignCall.Issued (call : SignCall) (x : Execution) : Prop where
  nodeID : call.nodeID = cfg.nodeID
  id : call.cmd.id = x.cmd.id
  action : call.cmd.action = x.cmd.action
  packages : call.cmd.packages.getD [] = x.cmd.packages.getD []
  prePatchScript : call.cmd.prePatchScript = x.cmd.prePatchScript
  postPatchScript : call.cmd.postPatchScript = x.cmd.postPatchScript
  healthCheckCommand : call.cmd.healthCheckCommand = x.cmd.healthCheckCommand
  unexpired : x.time < Time.ofUnix (call.signed E key).expiresAt

/-- What holds of an execution when the server made the calls of `cmdsign.Sign` in
`calls`. -/
def Execution.Authentic (calls : List SignCall) (x : Execution) : Prop :=
  x.tokens.isSome = true ∧ FromController L cfg x.url ∧
    (cfg.commandPubKey ≠ [] → ∃ call ∈ calls, call.Issued E cfg key x)

/-- If a message that arrives verifies under the agent's key, the server signed it
before. -/
def Unforged (s : State) (a : Input) : Prop :=
  ∀ cmd pub sig, a.command = some cmd →
    decodeSized false Ed25519.publicKeySize cfg.commandPubKey = some pub →
    decodeSized true Ed25519.signatureSize cmd.signature = some sig →
    E.verify pub (commandMessage cmd) sig = true →
    ∃ call ∈ s.signCalls, message (call.signed E key) = commandMessage cmd

/-- Sessions are with the controller and executions authentic. -/
structure Sound (s : State) : Prop where
  connected : ∀ tokens url, s.phase = .connected tokens url → FromController L cfg url
  executed : ∀ x ∈ s.executed, x.Authentic E L cfg key s.signCalls

end

variable {E : Ed25519} {L : NetURL} {cfg : Config} {key : GoString} {s t : State}

theorem Execution.Authentic.mono {calls calls' : List SignCall} {x : Execution}
    (hx : x.Authentic E L cfg key calls) (hcalls : calls ⊆ calls') :
    x.Authentic E L cfg key calls' := by
  obtain ⟨htokens, hurl, hissued⟩ := hx
  refine ⟨htokens, hurl, fun hkey => ?_⟩
  obtain ⟨call, hcall, h⟩ := hissued hkey
  exact ⟨call, hcalls hcall, h⟩

/-- Nothing was executed and no session opened but with the controller. -/
theorem Sound.frame (hs : Sound E L cfg key s) (hexecuted : t.executed = s.executed)
    (hcalls : t.signCalls = s.signCalls)
    (hphase : ∀ tokens url, t.phase = .connected tokens url → FromController L cfg url) :
    Sound E L cfg key t where
  connected := hphase
  executed x hx := by
    rw [hexecuted] at hx
    rw [hcalls]
    exact hs.executed x hx

theorem issued_of_message_eq {call : SignCall} {x : Execution} (hvalid : WellEncoded x.cmd)
    (hmessage : message (call.signed E key) = commandMessage x.cmd)
    (haddressed : x.cmd.nodeID = cfg.nodeID) (hunexpired : x.time < Time.ofUnix x.cmd.expiresAt) :
    call.Issued E cfg key x := by
  have hfields := eq_of_message_eq hvalid (hmessage.trans (congrFun commandMessage_eq_message _))
  have hpackages : Function.Injective (List.map Json.Value.string) :=
    List.map_injective_iff.mpr fun _ _ => Json.Value.string.inj
  simp only [signedFields, Json.Value.object.injEq, List.cons.injEq, Prod.mk.injEq, true_and,
    and_true, Json.Value.string.injEq, Json.Value.array.injEq, Json.Value.number.injEq,
    hpackages.eq_iff, Decimal.formatInt_injective.eq_iff, Int64.toInt_inj] at hfields
  obtain ⟨hid, haction, hpkgs, hpre, hpost, hcheck, hnode, hexpires⟩ := hfields
  exact {
    nodeID := hnode.trans haddressed
    id := hid
    action := haction
    packages := hpkgs
    prePatchScript := hpre
    postPatchScript := hpost
    healthCheckCommand := hcheck
    unexpired := by rwa [hexpires] }

theorem verifyAndExecute_sound (hs : Sound E L cfg key s) {a : Input}
    (hunforged : Unforged E cfg key s a) {cmd : CommandPayload} (ha : a.command = some cmd)
    (hvalid : WellEncoded cmd) (tokens : TokenPair) {url : URL} (hurl : FromController L cfg url) :
    Sound E L cfg key (verifyAndExecute E cfg s (some tokens) url cmd) := by
  unfold verifyAndExecute
  cases herr : (verifyCommand E cfg.commandPubKey s.seen cmd cfg.nodeID s.now).1 with
  | some err =>
    simp only [herr]
    exact hs.frame rfl rfl hs.connected
  | none =>
    simp only [herr]
    refine ⟨hs.connected, fun x hx => ?_⟩
    rcases List.mem_append.mp hx with hx | hx
    · exact hs.executed x hx
    · rw [List.mem_singleton.mp hx]
      refine ⟨rfl, hurl, fun hkey => ?_⟩
      obtain ⟨pub, sig, hpub, h⟩ := (verifyCommand_accepts_iff hkey).mp herr
      obtain ⟨call, hcall, hmessage⟩ := hunforged cmd pub sig ha hpub h.signature h.verified
      exact ⟨call, hcall, issued_of_message_eq hvalid hmessage h.addressed h.unexpired⟩

theorem wellEncoded_polledCommand {body : GoString} {cmd : CommandPayload}
    (h : polledCommand body = some cmd) : WellEncoded cmd := by
  obtain ⟨hdecode, -⟩ := Option.filter_eq_some_iff.mp h
  obtain ⟨v, hv, hcmd⟩ := Option.bind_eq_some_iff.mp hdecode
  exact Wire.wellEncoded_decodeCommand (Json.decoded_of_parseFirst hv) hcmd

theorem wellEncoded_command {a : Input} {cmd : CommandPayload} (h : a.command = some cmd) :
    WellEncoded cmd := by
  unfold Input.command at h
  split at h
  · exact Wire.wellEncoded_receive (Option.join_eq_some_iff.mp h)
  · exact wellEncoded_polledCommand h
  · cases h

theorem step_sound {a : Input} (hs : Sound E L cfg key s) (hunforged : Unforged E cfg key s a)
    (hstep : step E L cfg s a = some t) : Sound E L cfg key t := by
  cases step_moves hstep with
  | clock => exact hs.frame rfl rfl hs.connected
  | sign => exact ⟨hs.connected, fun x hx => (hs.executed x hx).mono (List.subset_append_left _ _)⟩
  | connects hphase htokens hu =>
    refine hs.frame rfl rfl ?_
    rintro tokens url ⟨⟩
    exact ⟨_, _, hu, Or.inr rfl⟩
  | refreshes => exact hs.frame rfl rfl hs.connected
  | receives hphase hreceive =>
    have ha : Input.command (.message (some _)) = some _ := Option.join_eq_some_iff.mpr hreceive
    exact verifyAndExecute_sound hs hunforged ha (Wire.wellEncoded_receive hreceive) _
      (hs.connected _ _ hphase)
  | polled hphase hu hcmd =>
    exact verifyAndExecute_sound hs hunforged hcmd (wellEncoded_polledCommand hcmd) _
      ⟨_, _, hu, Or.inl rfl⟩
  | ignores | pollFails => exact hs
  | boot | fatal | polls | waits | disconnects | pollRefreshes | elapsed | cancelled =>
    exact hs.frame rfl rfl nofun

theorem init_sound (now : Time) : Sound E L cfg key (State.init now) := ⟨nofun, nofun⟩

/-- In every run, whatever answers the agent, only authentic commands are executed. -/
theorem executed_commands_authentic {now : Time} {as : List Input}
    (hunforged : Machine.Meets (step E L cfg) (Unforged E cfg key) (State.init now) as)
    (hrun : Machine.run (step E L cfg) (State.init now) as = some t) {x : Execution}
    (hx : x ∈ t.executed) :
    x.tokens.isSome = true ∧
      ((cfg.commandPubKey = [] ∧ FromController L cfg x.url ∧
          (x.url.scheme = https ∨ x.url.scheme = ascii "wss")) ∨
        (cfg.commandPubKey ≠ [] ∧ ∃ call ∈ t.signCalls, call.Issued E cfg key x)) := by
  have hs : Sound E L cfg key t :=
    Machine.run_invariant_of_meets (step E L cfg) (fun _ _ _ hs hu h => step_sound hs hu h)
      (init_sound now) hunforged hrun
  obtain ⟨htokens, hurl, hissued⟩ := hs.executed x hx
  refine ⟨htokens, ?_⟩
  by_cases hkey : cfg.commandPubKey = []
  · exact Or.inl ⟨hkey, hurl, hurl.secure hkey⟩
  · exact Or.inr ⟨hkey, hissued hkey⟩

/-! ### One run -/

/-- `net/url` and `net` for `https://c`. -/
def plainNetURL : NetURL where
  parse _ := some ⟨https, false, ascii "c", [], [], false, [], []⟩
  hostname u := u.host
  escapedPath u := u.path
  pathUnescape s := some s
  parseIP _ := none

def signedConfig : Config :=
  ⟨ascii "c", false, Base64.encode (List.replicate 32 0), ascii "n1"⟩

/-- The call that returned the update of node `n1`. -/
def updateCall : SignCall := ⟨Command.updateCommand (ascii "j1"), ascii "n1", 0⟩

def updateInputs : List Input :=
  [.sign updateCall, .boot (some ⟨[], []⟩), .dial .connected,
    .message (some (Wire.writeJSON (Wire.envelope (Command.signedUpdate (ascii "j1")))))]

/-- Of its inputs only the last holds a command, which the server signed before. -/
theorem updateInputs_unforged : Machine.Meets
    (step (Command.markingEd25519 (message (Command.signedUpdate (ascii "j1")))) plainNetURL
      signedConfig)
    (Unforged (Command.markingEd25519 (message (Command.signedUpdate (ascii "j1")))) signedConfig
      []) (State.init 0) updateInputs := by
  refine ⟨nofun, fun s hs => ?_⟩
  cases hs
  refine ⟨nofun, fun s hs => ?_⟩
  cases hs
  refine ⟨nofun, fun s hs => ?_⟩
  cases hs
  refine ⟨?_, fun _ _ => trivial⟩
  intro cmd pub sig hcmd _ _ _
  obtain rfl : Wire.delivered (Command.signedUpdate (ascii "j1")) = cmd := by
    simpa [Input.command, Wire.receive_envelope] using hcmd
  have hvalid := Command.wellEncoded_signedUpdate (show Utf8.Valid (ascii "j1") by decide)
  exact ⟨updateCall, List.Mem.head _, (Command.commandMessage_delivered_iff.mpr hvalid).symm⟩

theorem executed_commands_authentic_update : ∃ t x,
    Machine.run (step (Command.markingEd25519 (message (Command.signedUpdate (ascii "j1"))))
      plainNetURL signedConfig) (State.init 0) updateInputs = some t ∧ x ∈ t.executed ∧
    ∃ call ∈ t.signCalls, call.Issued
      (Command.markingEd25519 (message (Command.signedUpdate (ascii "j1")))) signedConfig [] x := by
  have hruns : (Machine.run (step (Command.markingEd25519
      (message (Command.signedUpdate (ascii "j1")))) plainNetURL signedConfig) (State.init 0)
      updateInputs).map (fun t => t.executed.map (·.cmd.id)) = some [ascii "j1"] := by
    decide +kernel
  obtain ⟨t, hrun, hids⟩ := Option.map_eq_some_iff.mp hruns
  cases hexecuted : t.executed with
  | nil => simp [hexecuted] at hids
  | cons x xs =>
    have hx : x ∈ t.executed := by simp [hexecuted]
    obtain ⟨-, ⟨hkey, -⟩ | ⟨-, hissued⟩⟩ :=
      executed_commands_authentic updateInputs_unforged hrun hx
    · exact absurd hkey (Base64.encode_ne_nil (by decide))
    · exact ⟨t, x, hrun, by simp [hexecuted], hissued⟩

end Patchli.Agent
