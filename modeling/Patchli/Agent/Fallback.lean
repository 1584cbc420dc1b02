import Patchli.Agent.Authenticity
import Patchli.Agent.SelfUpdate
import Patchli.Api.Middleware

/-!
# The fallback against this server

An agent that cannot connect goes over to polling and does not come back from it. The
server has a handler neither for polls nor for releases: both get what the dashboard
answers to paths that it does not know.
-/

namespace Patchli.Api

/-- The handler of `/`, with the page that it serves. -/
def dashboard (index path : GoString) : Agent.Response :=
  if path ≠ ascii "/" then ⟨404, ascii "404 page not found\n"⟩ else ⟨200, index⟩

/-- The server can answer a request for the path in this way. -/
def Answers (index path : GoString) (resp : Agent.Response) : Prop :=
  mux path = some .dashboard → resp = dashboard index path

/-- Requests of the agent for which there is no handler. -/
def unservedPaths : List GoString :=
  [ascii "/api/v1/poll", ascii "/download/agent.manifest", ascii "/download/agent.manifest.sig",
    ascii "/download/agent"]

theorem Answers.notFound {index path : GoString} {resp : Agent.Response}
    (hpath : path ∈ unservedPaths) (h : Answers index path resp) : resp.statusCode = 404 := by
  have hroutes : ∀ path ∈ unservedPaths, mux path = some .dashboard ∧ path ≠ ascii "/" := by
    decide +kernel
  obtain ⟨hmux, hne⟩ := hroutes path hpath
  rw [h hmux, dashboard, if_pos hne]

end Patchli.Api

namespace Patchli.Agent

variable {E : Ed25519} {L : NetURL} {cfg : Config} {index : GoString} {s t u : State} {a : Input}

/-- A poll is answered by the server or not at all. -/
def Input.FromServer (index : GoString) : Input → Prop
  | .poll (some resp) _ => Api.Answers index (ascii "/api/v1/poll") resp
  | _ => True

/-- The agent is not connected, and has not got new tokens either. -/
def Dial.Lost (L : NetURL) (cfg : Config) : Dial → Prop
  | .connected => False
  | .unauthorized refresh => refreshTokens L cfg refresh = none
  | .failed => True

/-- Since `s` the agent has polled or has stopped, and has done nothing else. -/
structure PolledSince (s t : State) : Prop where
  phase : t.phase = s.phase ∨ t.phase = .stopped
  executed : t.executed = s.executed
  tokens : t.tokens = s.tokens

theorem pollOnce_served {tokens : Option TokenPair} {reply refresh : Option Response}
    (h : Input.FromServer index (.poll reply refresh)) :
    pollOnce E L cfg s tokens reply refresh = s := by
  unfold pollOnce
  split
  · rfl
  · cases reply with
    | none => rfl
    | some resp =>
      have hstatus : resp.statusCode = 404 :=
        Api.Answers.notFound (List.mem_cons_self ..) h
      have hok : resp.statusCode ≠ statusOK := by simp [hstatus, statusOK]
      have hauth : ¬ (resp.statusCode = statusUnauthorized ∧ tokens.isSome) := by
        simp [hstatus, statusUnauthorized]
      simp only [if_neg hok, if_neg hauth]

theorem polledSince_step {tokens : Option TokenPair} (hs : s.phase = .polling tokens)
    (h : PolledSince s t) (ha : a.FromServer index) (hstep : step E L cfg t a = some u) :
    PolledSince s u ∧ (∀ answer, a ≠ .dial answer) ∧ ∀ text, a ≠ .message text := by
  have hphase : t.phase = .polling tokens ∨ t.phase = .stopped := by
    rw [← hs]
    exact h.phase
  cases a with
  | clock now =>
    cases hstep
    exact ⟨⟨h.phase, h.executed, h.tokens⟩, by simp, by simp⟩
  | sign call =>
    cases hstep
    exact ⟨⟨h.phase, h.executed, h.tokens⟩, by simp, by simp⟩
  | poll reply refresh =>
    rcases hphase with hphase | hphase
    · simp only [step, hphase, Option.some.injEq, pollOnce_served ha] at hstep
      subst hstep
      exact ⟨h, by simp, by simp⟩
    · simp [step, hphase] at hstep
  | cancelled =>
    rcases hphase with hphase | hphase
    · simp only [step, hphase, Option.some.injEq] at hstep
      subst hstep
      exact ⟨⟨Or.inr rfl, h.executed, h.tokens⟩, by simp, by simp⟩
    · simp [step, hphase] at hstep
  | boot saved =>
    rcases hphase with hphase | hphase <;> simp [step, hphase] at hstep
  | dial answer =>
    rcases hphase with hphase | hphase <;> simp [step, hphase] at hstep
  | message text =>
    rcases hphase with hphase | hphase <;> simp [step, hphase] at hstep
  | elapsed =>
    rcases hphase with hphase | hphase <;> simp [step, hphase] at hstep

theorem polledSince_run {tokens : Option TokenPair} (hs : s.phase = .polling tokens)
    {bs : List Input} (h : PolledSince s t) (hserved : ∀ b ∈ bs, b.FromServer index)
    (hrun : Machine.run (step E L cfg) t bs = some u) :
    PolledSince s u ∧ (∀ answer, .dial answer ∉ bs) ∧ ∀ text, .message text ∉ bs := by
  induction bs generalizing t with
  | nil =>
    cases hrun
    exact ⟨h, fun _ => List.not_mem_nil, fun _ => List.not_mem_nil⟩
  | cons b bs ih =>
    obtain ⟨v, hstep, hrun⟩ := (Machine.run_cons _).mp hrun
    obtain ⟨hv, hdial, hmessage⟩ := polledSince_step hs h (hserved b (List.mem_cons_self ..)) hstep
    obtain ⟨hu, hdials, hmessages⟩ :=
      ih hv (fun b' hb' => hserved b' (List.mem_cons_of_mem _ hb')) hrun
    refine ⟨hu, fun answer => ?_, fun text => ?_⟩
    · exact List.not_mem_cons_of_ne_of_not_mem (hdial answer).symm (hdials answer)
    · exact List.not_mem_cons_of_ne_of_not_mem (hmessage text).symm (hmessages text)

theorem connectAndRun_lost {url : URL} {answer : Dial}
    (hurl : controllerEndpoint L cfg cfg.serverURL (ascii "/ws") = .ok url)
    (hlost : answer.Lost L cfg) : ∃ tokens, connectAndRun L cfg s answer =
      { s with phase := .polling tokens } := by
  unfold connectAndRun
  cases htokens : s.tokens with
  | none => exact ⟨none, rfl⟩
  | some pair =>
    refine ⟨some pair, ?_⟩
    simp only [hurl]
    cases answer with
    | connected => exact hlost.elim
    | failed => rfl
    | unauthorized refresh =>
      have hnone : refreshTokens L cfg refresh = none := hlost
      simp only [hnone]

/-- An agent that does not connect once, for whatever reason, is lost to this server as long as
its process lives: it never dials again, keeps the tokens that it has, and executes
nothing any more. Nor can it be replaced: no update gets past its manifest. -/
theorem lost_agent_idle {url : URL} {answer : Dial}
    (hurl : controllerEndpoint L cfg cfg.serverURL (ascii "/ws") = .ok url)
    (hlost : answer.Lost L cfg) {now : Time} {as bs : List Input}
    (hserved : ∀ b ∈ bs, b.FromServer index)
    (hrun : Machine.run (step E L cfg) (State.init now) (as ++ .dial answer :: bs) = some t) :
    ((∀ answer', .dial answer' ∉ bs) ∧ (∀ text, .message text ∉ bs) ∧
      ∃ s, Machine.run (step E L cfg) (State.init now) as = some s ∧
        t.executed = s.executed ∧ t.tokens = s.tokens) ∧
    ∀ (r : Release) (sha256 : GoString → GoString) (version : GoString)
      (files : Files UpdateName) (resp : Response) (cs : List UpdateAct) (v : Update),
      Api.Answers index (ascii "/download/agent.manifest") resp →
      Machine.run (Update.step E r sha256 version) (.init files) (.responds (some resp) :: cs) =
        some v → v = ⟨files, .returned (.failed (.manifest (.http 404)))⟩ := by
  refine ⟨?_, ?_⟩
  · obtain ⟨s, hs, hrun⟩ := (Machine.run_append _).mp hrun
    obtain ⟨v, hstep, hrun⟩ := (Machine.run_cons _).mp hrun
    have hdialed : ∃ tokens, v = { s with phase := .polling tokens } := by
      simp only [step] at hstep
      split at hstep <;> cases hstep
      exact connectAndRun_lost hurl hlost
    obtain ⟨tokens, rfl⟩ := hdialed
    obtain ⟨ht, hdials, hmessages⟩ :=
      polledSince_run (s := { s with phase := .polling tokens }) rfl ⟨Or.inl rfl, rfl, rfl⟩ hserved
        hrun
    exact ⟨hdials, hmessages, s, hs, ht.executed, ht.tokens⟩
  · intro r sha256 version files resp cs v hresp hrun
    obtain ⟨w, hstep, hrun⟩ := (Machine.run_cons _).mp hrun
    have hstatus : resp.statusCode = 404 := hresp.notFound (by simp [Api.unservedPaths])
    have hw : w = ⟨files, .returned (.failed (.manifest (.http 404)))⟩ := by
      simp [Update.step, Update.init, fetchLimited, hstatus, statusOK] at hstep
      exact hstep.symm
    subst hw
    cases cs with
    | nil =>
      cases hrun
      rfl
    | cons c cs =>
      obtain ⟨x, hstep, -⟩ := (Machine.run_cons _).mp hrun
      simp [Update.step] at hstep

private def lostPolls : List Input :=
  [.poll none none, .poll (some (Api.dashboard [] (ascii "/api/v1/poll"))) none]

theorem lost_agent_idle_polls : ∃ t,
    Machine.run (step (Command.markingEd25519 []) plainNetURL signedConfig) (State.init 0)
        ([.boot (some ⟨[], []⟩)] ++ .dial .failed :: lostPolls) = some t ∧
      t.executed.length = 0 ∧ ∀ answer, .dial answer ∉ lostPolls := by
  have hruns : (Machine.run (step (Command.markingEd25519 []) plainNetURL signedConfig)
      (State.init 0) ([.boot (some ⟨[], []⟩)] ++ .dial .failed :: lostPolls)).any
        (fun t => t.executed.length = 0) = true := by
    decide +kernel
  simp only [Option.any_eq_true, decide_eq_true_eq] at hruns
  obtain ⟨t, hrun, hexecuted⟩ := hruns
  have hserved : ∀ b ∈ lostPolls, b.FromServer [] := by
    simp only [lostPolls, List.forall_mem_cons]
    exact ⟨trivial, fun _ => rfl, fun _ h => absurd h List.not_mem_nil⟩
  obtain ⟨url, hurl⟩ : ∃ url, controllerEndpoint plainNetURL signedConfig signedConfig.serverURL
      (ascii "/ws") = .ok url := ⟨_, rfl⟩
  have hlost : Dial.Lost plainNetURL signedConfig .failed := trivial
  exact ⟨t, hrun, hexecuted, (lost_agent_idle hurl hlost hserved hrun).1.1⟩

end Patchli.Agent
